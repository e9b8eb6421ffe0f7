import NalTransport.Bytes
import NalTransport.WireError

/-! The byte that says where a fragment stands in its unit. Beside the two flags
it holds the unit's type, in as many bits as the codec's types have. -/

namespace NalTransport

structure FragmentHeader where
  first : Bool := false
  last : Bool := false
  unitType : UInt8 := 0
  deriving DecidableEq

namespace FragmentHeader

def firstMask : UInt8 := 0x80

def lastMask : UInt8 := 0x40

def ofByte (typeMask b : UInt8) : FragmentHeader :=
  { first := b &&& firstMask != 0, last := b &&& lastMask != 0, unitType := b &&& typeMask }

def toByte (typeMask : UInt8) (h : FragmentHeader) : UInt8 :=
  (h.unitType &&& typeMask) ||| (if h.first then firstMask else 0) |||
    (if h.last then lastMask else 0)

def decode (typeMask : UInt8) : Bytes → Except WireError FragmentHeader
  | [] => .error (.truncated .fragmentHeader 1 0)
  | b :: _ => .ok (ofByte typeMask b)

end FragmentHeader

end NalTransport
