import NalTransport.Bytes
import NalTransport.WireError

/-! Padding behind a payload. Its last byte counts all of it, that byte
included, so it is read from the end. -/

namespace NalTransport

/-- The padding bytes in front of the count. -/
structure Packet.Trailer where
  fill : Bytes := []
  deriving DecidableEq

namespace Packet.Trailer

def maxSize : Nat := 255

/-- Zeros that make up `count` bytes together with the count. -/
def ofCount (count : UInt8) : Trailer := ⟨List.replicate (count.toNat - 1) 0⟩

/-- The trailer at the end of the bytes behind a header. -/
def decode (body : Bytes) : Except WireError Trailer :=
  match body.getLast? with
  | none => .error (.truncated .padding 1 0)
  | some count =>
    if count = 0 then .error .paddingCountZero
    else if body.length < count.toNat then .error (.truncated .padding count.toNat body.length)
    else .ok ⟨(body.drop (body.length - count.toNat)).dropLast⟩

/-- Without fill there is nothing to write, the count included. -/
def size (t : Trailer) : Nat := if t.fill = [] then 0 else t.fill.length + 1

/-- The wire form of a trailer of at most `maxSize` bytes. -/
def bytes (t : Trailer) : Bytes :=
  if t.fill = [] then [] else t.fill ++ [UInt8.ofNat t.size]

def encode (t : Trailer) : Except WireError Bytes :=
  if maxSize < t.size then .error (.paddingTooLong t.size) else .ok t.bytes

theorem length_bytes (t : Trailer) : t.bytes.length = t.size := by
  unfold bytes size
  split <;> simp

end Packet.Trailer

end NalTransport
