import NalTransport.Bytes
import NalTransport.WireError

/-! What the type in front of a payload says about the rest of it, and the bit
that both codecs put in front of that type. -/

namespace NalTransport

inductive Layout where
  | singleUnit
  | aggregation
  | fragmentation
  | contentInformation
  | reserved
  deriving DecidableEq

def firstByte : Bytes → Except WireError UInt8
  | [] => .error (.truncated .unitHeader 1 0)
  | b :: _ => .ok b

def forbiddenMask : UInt8 := 0x80

def forbiddenOf (b : UInt8) : Bool := b &&& forbiddenMask != 0

def forbiddenBits (forbidden : Bool) : UInt8 := if forbidden then forbiddenMask else 0

def readForbidden (bytes : Bytes) : Except WireError Bool :=
  (firstByte bytes).map forbiddenOf

end NalTransport
