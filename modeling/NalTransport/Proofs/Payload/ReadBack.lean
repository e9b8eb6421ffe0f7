import NalTransport.Framing
import NalTransport.Payload.Bundle
import NalTransport.Payload.FragmentHeader
import NalTransport.Payload.Reassembly

/-! What the reader of a codec has to find in payloads of the three kinds that a
framing lays out: a unit by itself, an aggregate, a fragment. -/

namespace NalTransport

/-- All that can be read off a payload, whatever its kind. -/
structure PayloadView (Header : Type) where
  header : Header
  fragmentHeader? : Option FragmentHeader
  fragmentData? : Option Bytes
  units : Except WireError (List Bytes)

/-- The reader recognizes each kind of payload. A unit by itself is recognized
only if no other kind of payload uses its type. -/
structure Framing.ReadBack {Header : Type} (framing : Framing Header)
    (read? : Bytes → Option Carried) (plain : Header → Prop) : Prop where
  unit {data : Bytes} {header : Header} : framing.unitHeader data = .ok header → plain header →
    read? data = some (.whole [data])
  aggregate (headers : List Header) {units : List Bytes} :
    (∀ unit ∈ units, unit.length ≤ maxUnitSize) →
    read? (framing.aggregationHeader headers ++ Bundle.join units) = some (.whole units)
  fragment {data : Bytes} {header : Header} (first last : Bool) (part : Bytes) :
    framing.unitHeader data = .ok header →
    read? (framing.fragmentHeader header first last ++ part) =
      some (.fragment first last (data.take framing.unitHeaderSize) part)

end NalTransport
