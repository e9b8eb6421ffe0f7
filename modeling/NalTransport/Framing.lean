import NalTransport.Bytes
import NalTransport.WireError

/-! What a codec lays down about the payloads that carry its NAL units. The
sizes it names are those of the headers it reads and writes. -/

namespace NalTransport

structure Framing (Header : Type) where
  codecName : String
  unitHeaderSize : Nat
  aggregationHeaderSize : Nat
  fragmentHeaderSize : Nat
  unitHeader : Bytes → Except WireError Header
  aggregationHeader : List Header → Bytes
  /-- What stands in front of a fragment of a unit with this header; the flags
  mark the first and the last fragment. -/
  fragmentHeader : Header → Bool → Bool → Bytes
  /-- Units that only delimit or fill, of no use to a receiver. -/
  isDelimiterOrFiller : Header → Bool
  unitHeaderSize_pos : 0 < unitHeaderSize := by decide
  unitHeaderSize_le : unitHeaderSize ≤ fragmentHeaderSize := by decide
  isOk_unitHeader (data : Bytes) :
    (unitHeader data).isOk = decide (unitHeaderSize ≤ data.length)
  length_aggregationHeader (headers : List Header) :
    (aggregationHeader headers).length = aggregationHeaderSize
  length_fragmentHeader (header : Header) (first last : Bool) :
    (fragmentHeader header first last).length = fragmentHeaderSize

theorem Framing.exists_unitHeader_iff {Header : Type} {framing : Framing Header} {data : Bytes} :
    (∃ header, framing.unitHeader data = .ok header) ↔
      framing.unitHeaderSize ≤ data.length := by
  have h := framing.isOk_unitHeader data
  cases hu : framing.unitHeader data <;>
    simpa [hu, Except.isOk, Except.toBool, eq_comm] using h

end NalTransport
