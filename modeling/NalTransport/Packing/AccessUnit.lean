import NalTransport.AnnexB.Scanner
import NalTransport.Packing.Accumulator

/-! The payloads of an access unit that comes as a byte stream. -/

namespace NalTransport.Packing

variable {Header : Type}

def isDelimiterOrFiller (p : Packing Header) (unit : Bytes) : Bool :=
  match p.framing.unitHeader unit with
  | .ok header => p.framing.isDelimiterOrFiller header
  | .error _ => false

def accessUnitPayloads (p : Packing Header) (dropFiller : Bool) (accessUnit : Bytes) :
    List Bytes :=
  p.payloads ((AnnexB.units accessUnit).filter fun unit =>
    !(dropFiller && p.isDelimiterOrFiller unit))

end NalTransport.Packing
