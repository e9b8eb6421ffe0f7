import NalTransport.Bytes

/-! Extension blocks of the one-byte profile as what they list: zero bytes and
elements with an id and up to sixteen bytes of data. -/

namespace NalTransport

inductive BlockItem where
  | gap
  | element (id : UInt8) (data : Bytes)
  deriving DecidableEq

namespace BlockItem

def bytes : BlockItem → Bytes
  | gap => [0]
  | element id data => (id * 16 + UInt8.ofNat (data.length - 1)) :: data

def WellFormed : BlockItem → Prop
  | gap => True
  | element id data => 1 ≤ id ∧ id ≤ 14 ∧ 1 ≤ data.length ∧ data.length ≤ 16

instance decidableWellFormed : (item : BlockItem) → Decidable item.WellFormed
  | gap => inferInstanceAs (Decidable True)
  | element id data =>
    inferInstanceAs (Decidable (1 ≤ id ∧ id ≤ 14 ∧ 1 ≤ data.length ∧ data.length ≤ 16))

def data? (id : UInt8) (length : Nat) : BlockItem → Option Bytes
  | gap => none
  | element i data => if i = id ∧ data.length = length then some data else none

end BlockItem

/-- What may stand behind the items of a block: nothing, an element with id
fifteen and anything, or an element that is cut short. -/
inductive BlockEnd : Bytes → Prop where
  | nothing : BlockEnd []
  | reserved (head : UInt8) (rest : Bytes) : head / 16 = 15 → BlockEnd (head :: rest)
  | cut (head : UInt8) (rest : Bytes) :
    head ≠ 0 → rest.length < (head % 16).toNat + 1 → BlockEnd (head :: rest)

end NalTransport
