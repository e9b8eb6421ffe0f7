import NalTransport.Payload.Layout

/-! The two-byte header of an H.265 NAL unit: the forbidden bit, six bits of
type, six of layer across the byte boundary and three of temporal id.
Payloads start with the same two bytes. -/

namespace NalTransport.Hevc

/-- The fields keep the value they were given; the wire holds six, six and three
bits of them. -/
structure Header where
  forbidden : Bool := false
  unitType : UInt8 := 0
  layerId : UInt8 := 0
  temporalId : UInt8 := 0
  deriving DecidableEq

namespace Header

def size : Nat := 2

def typeMask : UInt8 := 0x7e

def typeShift : UInt8 := 1

def layerMask : UInt16 := 0x01f8

def layerShift : UInt16 := 3

def temporalMask : UInt8 := 0x07

def temporalAt : Nat := 1

def unitTypeOf (b : UInt8) : UInt8 := (b &&& typeMask) >>> typeShift

def unitTypeBits (unitType : UInt8) : UInt8 := (unitType <<< typeShift) &&& typeMask

def layerOf (b0 b1 : UInt8) : UInt8 :=
  ((Bytes.word16 b0 b1 &&& layerMask) >>> layerShift).toUInt8

def layerBits (layerId : UInt8) : UInt16 := (layerId.toUInt16 <<< layerShift) &&& layerMask

def temporalOf (b : UInt8) : UInt8 := b &&& temporalMask

def temporalBits (temporalId : UInt8) : UInt8 := temporalId &&& temporalMask

def firstBytes : Bytes → Except WireError (UInt8 × UInt8)
  | b0 :: b1 :: _ => .ok (b0, b1)
  | bytes => .error (.truncated .unitHeader size bytes.length)

def readUnitType (bytes : Bytes) : Except WireError UInt8 := (firstByte bytes).map unitTypeOf

def readLayerId (bytes : Bytes) : Except WireError UInt8 :=
  (firstBytes bytes).map fun (b0, b1) => layerOf b0 b1

def readTemporalId (bytes : Bytes) : Except WireError UInt8 :=
  match bytes[temporalAt]? with
  | some b => .ok (temporalOf b)
  | none => .error (.truncated .unitHeader size bytes.length)

def ofBytes (b0 b1 : UInt8) : Header :=
  { forbidden := forbiddenOf b0
    unitType := unitTypeOf b0
    layerId := layerOf b0 b1
    temporalId := temporalOf b1 }

def toBytes (h : Header) : Bytes :=
  [forbiddenBits h.forbidden ||| unitTypeBits h.unitType ||| (layerBits h.layerId >>> 8).toUInt8,
    (layerBits h.layerId).toUInt8 ||| temporalBits h.temporalId]

def decode (bytes : Bytes) : Except WireError Header :=
  (firstBytes bytes).map fun (b0, b1) => ofBytes b0 b1

theorem isOk_decode (bytes : Bytes) : (decode bytes).isOk = decide (size ≤ bytes.length) := by
  rcases bytes with _ | ⟨b0, _ | ⟨b1, rest⟩⟩ <;>
    simp [decode, firstBytes, size, Except.map, Except.isOk, Except.toBool]

end Header

end NalTransport.Hevc
