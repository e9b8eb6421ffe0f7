import NalTransport.Packet.Header
import NalTransport.SendTime.Clock

/-! The absolute send time as an element of a header extension. Elements of the
one-byte profile start with a byte that holds their id and, less one, the
length of their data; zero bytes may stand between them. -/

namespace NalTransport

def oneByteProfile : UInt16 := 0xbede

/-- The largest id of an element; fifteen ends the list. -/
def maxElementId : UInt8 := 14

def sendTimeLength : Nat := 3

/-- What a send time adds to a header that had no extension. -/
def sendTimeBlockSize : Nat := 8

/-- The id zero is accepted: it stands for no element at all. -/
def checkElementId (id : UInt8) : Except WireError Unit :=
  if maxElementId < id then .error (.elementIdInvalid id) else .ok ()

def sendTimeElement (id : UInt8) (t : Instant) : Bytes :=
  ((id <<< 4) ||| UInt8.ofNat (sendTimeLength - 1)) :: (Bytes.ofWord32 t.sendTime).drop 1

/-- The data of the first element with this id and length. The search ends at
an element with id fifteen and at one that is cut short. -/
def elementData (id : UInt8) (length : Nat) : Bytes → Option Bytes
  | [] => none
  | head :: rest =>
    if head = 0 then elementData id length rest
    else
      let n := (head % 16).toNat + 1
      let data := rest.take n
      if head / 16 = 15 ∨ data.length < n then none
      else if head / 16 = id ∧ n = length then some data
      else elementData id length (rest.drop n)
termination_by block => block.length
decreasing_by
  · simp
  · simp only [List.length_drop, List.length_cons]
    omega

namespace Packet.Header

def stamp (h : Header) (id : UInt8) (t : Instant) : Header :=
  { h with extended := true, profile := oneByteProfile, extension := sendTimeElement id t }

def sendTime? (h : Header) (id : UInt8) : Option UInt32 :=
  if h.extended ∧ h.profile = oneByteProfile then
    match elementData id sendTimeLength h.extension with
    | some [a, b, c] => some (Bytes.word32 0 a b c)
    | _ => none
  else none

end Packet.Header

end NalTransport
