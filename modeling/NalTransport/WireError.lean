/-! Why bytes are refused when they are read or a value when it is written,
and the one line of text that reports each cause. -/

namespace NalTransport

/-- The part of a packet that was being read when the bytes ran out. -/
inductive Part where
  | fixedHeader
  | csrcList
  | extensionHead
  | extensionBody
  | padding
  | unitHeader
  | aggregatedUnit
  | fragmentHeader
  deriving DecidableEq

def Part.name : Part → String
  | .fixedHeader => "RTP header"
  | .csrcList => "RTP CSRC list"
  | .extensionHead => "RTP header extension"
  | .extensionBody => "RTP header extension payload"
  | .padding => "RTP padding trailer"
  | .unitHeader => "NAL unit header"
  | .aggregatedUnit => "aggregation unit"
  | .fragmentHeader => "FU header"

inductive WireError where
  | truncated (part : Part) (needed actual : Nat)
  | bufferTooShort (needed actual : Nat)
  | extensionUnaligned (size : Nat)
  | extensionTooLong (size : Nat)
  | tooManyCsrcs (count : Nat)
  | paddingTooLong (size : Nat)
  | paddingCountZero
  | elementIdInvalid (id : UInt8)
  deriving DecidableEq

namespace WireError

def message : WireError → String
  | truncated part needed actual =>
    part.name ++ " size insufficient; " ++ toString actual ++ " < " ++ toString needed
  | bufferTooShort needed actual =>
    "buffer too short; " ++ toString actual ++ " < " ++ toString needed
  | extensionUnaligned size =>
    "extension payload length " ++ toString size ++ " is not a multiple of 4"
  | extensionTooLong size =>
    "extension payload of " ++ toString size ++ " bytes exceeds 65535 words"
  | tooManyCsrcs count => "too many CSRC identifiers: " ++ toString count ++ " > 15"
  | paddingTooLong size => "padding overflow; expected at most 255, actual " ++ toString size
  | paddingCountZero => "RTP padding count must be at least 1"
  | elementIdInvalid id => "invalid one-byte extension id: " ++ toString id.toNat

/-- A larger buffer, or an extension filled up to a whole word, would have sufficed. -/
def isShortBuffer : WireError → Bool
  | bufferTooShort .. | extensionUnaligned _ => true
  | _ => false

end WireError

end NalTransport
