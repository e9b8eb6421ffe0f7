import NalTransport.Avc.Payload
import NalTransport.Avc.UnitType
import NalTransport.Framing

/-! The framing of H.264. An aggregate is as important as its most important
unit; a fragment carries the header of its unit with another type. -/

namespace NalTransport.Avc

def aggregationHeader (headers : List Header) : Header :=
  { forbidden := headers.any (·.forbidden)
    refIdc := (headers.map (·.refIdc)).max?.getD 0
    unitType := PayloadType.stapA }

def fragmentHeader (header : Header) (first last : Bool) : Bytes :=
  [{ header with unitType := PayloadType.fuA : Header }.toByte,
    { first, last, unitType := header.unitType : FragmentHeader }.toByte Header.typeMask]

def framing : Framing Header where
  codecName := "H264"
  unitHeaderSize := Header.size
  aggregationHeaderSize := 1
  fragmentHeaderSize := 2
  unitHeader := Header.decode
  aggregationHeader headers := [(aggregationHeader headers).toByte]
  fragmentHeader := fragmentHeader
  isDelimiterOrFiller h :=
    h.unitType == UnitType.accessUnitDelimiter || h.unitType == UnitType.fillerData
  isOk_unitHeader := Header.isOk_decode
  length_aggregationHeader _ := rfl
  length_fragmentHeader _ _ _ := rfl

end NalTransport.Avc
