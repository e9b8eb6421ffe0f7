import NalTransport.Payload.Layout

/-! The one-byte header of an H.264 NAL unit: the forbidden bit, two bits of
reference importance and five of type. Payloads start with the same byte. -/

namespace NalTransport.Avc

/-- Importance and type keep the value they were given; the wire holds two and
five bits of them. -/
structure Header where
  forbidden : Bool := false
  refIdc : UInt8 := 0
  unitType : UInt8 := 0
  deriving DecidableEq

namespace Header

def size : Nat := 1

def refIdcMask : UInt8 := 0x60

def refIdcShift : UInt8 := 5

def typeMask : UInt8 := 0x1f

def refIdcOf (b : UInt8) : UInt8 := (b &&& refIdcMask) >>> refIdcShift

def refIdcBits (refIdc : UInt8) : UInt8 := (refIdc <<< refIdcShift) &&& refIdcMask

def unitTypeOf (b : UInt8) : UInt8 := b &&& typeMask

def unitTypeBits (unitType : UInt8) : UInt8 := unitType &&& typeMask

def readRefIdc (bytes : Bytes) : Except WireError UInt8 := (firstByte bytes).map refIdcOf

def readUnitType (bytes : Bytes) : Except WireError UInt8 := (firstByte bytes).map unitTypeOf

def ofByte (b : UInt8) : Header :=
  { forbidden := forbiddenOf b, refIdc := refIdcOf b, unitType := unitTypeOf b }

def toByte (h : Header) : UInt8 :=
  forbiddenBits h.forbidden ||| refIdcBits h.refIdc ||| unitTypeBits h.unitType

def decode (bytes : Bytes) : Except WireError Header := (firstByte bytes).map ofByte

theorem isOk_decode (bytes : Bytes) : (decode bytes).isOk = decide (size ≤ bytes.length) := by
  cases bytes <;> simp [decode, firstByte, size, Except.map, Except.isOk, Except.toBool]

end Header

end NalTransport.Avc
