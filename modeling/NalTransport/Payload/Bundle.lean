import NalTransport.Bytes
import NalTransport.WireError

/-! Several NAL units in one payload, each behind its length in sixteen bits. -/

namespace NalTransport

/-- The longest unit whose length can be written. -/
def maxUnitSize : Nat := 65535

def unitLengthSize : Nat := 2

namespace Bundle

def frame (unit : Bytes) : Bytes := Bytes.ofWord16 (UInt16.ofNat unit.length) ++ unit

def join (units : List Bytes) : Bytes := units.flatMap frame

def splitOnto (done : List Bytes) : Bytes → Except WireError (List Bytes)
  | [] => .ok done.reverse
  | [_] => .error (.truncated .aggregatedUnit unitLengthSize 1)
  | hi :: lo :: rest =>
    let size := (Bytes.word16 hi lo).toNat
    let unit := rest.take size
    if unit.length < size then .error (.truncated .aggregatedUnit size rest.length)
    else splitOnto (unit :: done) (rest.drop size)
termination_by body => body.length
decreasing_by
  simp only [List.length_drop, List.length_cons]
  omega

/-- The units of a body that `join` could have written. -/
def split (body : Bytes) : Except WireError (List Bytes) := splitOnto [] body

theorem splitOnto_append (done more : List Bytes) (body : Bytes) :
    splitOnto (done ++ more) body = (splitOnto done body).map (more.reverse ++ ·) := by
  fun_induction splitOnto done body with
  | case1 done => simp [splitOnto, Except.map]
  | case2 done b => simp [splitOnto, Except.map]
  | case3 done hi lo rest size unit h =>
    rw [splitOnto, if_pos h]
    rfl
  | case4 done hi lo rest size unit h ih =>
    rw [splitOnto, if_neg h]
    exact ih

theorem split_nil : split [] = .ok [] := by
  simp [split, splitOnto]

theorem split_cons_cons (hi lo : UInt8) (rest : Bytes) :
    split (hi :: lo :: rest) =
      if rest.length < (Bytes.word16 hi lo).toNat then
        .error (.truncated .aggregatedUnit (Bytes.word16 hi lo).toNat rest.length)
      else
        (split (rest.drop (Bytes.word16 hi lo).toNat)).map
          (rest.take (Bytes.word16 hi lo).toNat :: ·) := by
  have hlen : (rest.take (Bytes.word16 hi lo).toNat).length < (Bytes.word16 hi lo).toNat ↔
      rest.length < (Bytes.word16 hi lo).toNat := by
    rw [List.length_take]
    omega
  simp only [split, splitOnto, hlen]
  split
  · rfl
  · exact splitOnto_append [] [_] _

end Bundle

end NalTransport
