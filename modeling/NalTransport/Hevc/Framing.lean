import NalTransport.Framing
import NalTransport.Hevc.Payload
import NalTransport.Hevc.UnitType

/-! The framing of H.265. An aggregate belongs to the lowest layer and temporal
id of its units; a fragment carries the header of its unit with another
type. -/

namespace NalTransport.Hevc

def aggregationHeader (headers : List Header) : Header :=
  { forbidden := headers.any (·.forbidden)
    unitType := PayloadType.aggregation
    layerId := (headers.map (·.layerId)).min?.getD 0
    temporalId := (headers.map (·.temporalId)).min?.getD 1 }

def fragmentHeader (header : Header) (first last : Bool) : Bytes :=
  { header with unitType := PayloadType.fragmentation : Header }.toBytes ++
    [{ first, last, unitType := header.unitType : FragmentHeader }.toByte PayloadType.mask]

def framing : Framing Header where
  codecName := "H265"
  unitHeaderSize := Header.size
  aggregationHeaderSize := 2
  fragmentHeaderSize := 3
  unitHeader := Header.decode
  aggregationHeader headers := (aggregationHeader headers).toBytes
  fragmentHeader := fragmentHeader
  isDelimiterOrFiller h :=
    h.unitType == UnitType.accessUnitDelimiter || h.unitType == UnitType.fillerData
  isOk_unitHeader := Header.isOk_decode
  length_aggregationHeader _ := rfl
  length_fragmentHeader _ _ _ := rfl

end NalTransport.Hevc
