import NalTransport.Payload.FragmentHeader
import NalTransport.Payload.Layout

/-! The bits that fields take in a byte. A field comes back through its mask if
the fields beside it keep out of that mask. -/

namespace NalTransport

/-- What holds of every byte can be read off a table with its halves as row and column. -/
theorem forall_byte {P : UInt8 → Prop} (h : ∀ high low : Fin 16, P (.ofNat (high * 16 + low)))
    (b : UInt8) : P b := by
  have hb := b.toNat_lt
  have htable := h ⟨b.toNat / 16, by omega⟩ ⟨b.toNat % 16, by omega⟩
  have hsum : b.toNat / 16 * 16 + b.toNat % 16 = b.toNat := by omega
  simpa [hsum] using htable

theorem or_and_mask (a b mask : UInt8) : (a ||| b) &&& mask = (a &&& mask) ||| (b &&& mask) := by
  apply UInt8.toBitVec_inj.mp
  simpa using BitVec.and_or_distrib_right

theorem forbiddenOf_forbiddenBits_or {rest : UInt8} (h : rest &&& forbiddenMask = 0)
    (forbidden : Bool) : forbiddenOf (forbiddenBits forbidden ||| rest) = forbidden := by
  rw [forbiddenOf, or_and_mask, h]
  cases forbidden <;> decide

namespace FragmentHeader

theorem ofByte_toByte {typeMask : UInt8} (hf : typeMask &&& firstMask = 0)
    (hl : typeMask &&& lastMask = 0) (h : FragmentHeader) :
    ofByte typeMask (h.toByte typeMask) = { h with unitType := h.unitType &&& typeMask } := by
  have hf' : firstMask &&& typeMask = 0 := by rw [UInt8.and_comm, hf]
  have hl' : lastMask &&& typeMask = 0 := by rw [UInt8.and_comm, hl]
  obtain ⟨first, last, unitType⟩ := h
  simp only [ofByte, toByte, or_and_mask, UInt8.and_assoc, hf, hl, UInt8.and_self, UInt8.and_zero,
    UInt8.zero_or]
  cases first <;> cases last <;> simp [hf', hl'] <;> decide

theorem flagBits : ∀ b : UInt8,
    (if b &&& firstMask != 0 then firstMask else 0) = firstMask &&& b ∧
      (if b &&& lastMask != 0 then lastMask else 0) = lastMask &&& b :=
  forall_byte (by decide)

/-- The bits that are read are written again, and no others. -/
theorem toByte_ofByte (typeMask b : UInt8) :
    (ofByte typeMask b).toByte typeMask = b &&& (typeMask ||| firstMask ||| lastMask) := by
  obtain ⟨hfirst, hlast⟩ := flagBits b
  rw [toByte, ofByte, UInt8.and_assoc, UInt8.and_self, hfirst, hlast, UInt8.and_comm b typeMask,
    UInt8.and_comm b, or_and_mask, or_and_mask]

/-- Bits that neither the type nor the flags have are never set. -/
theorem toByte_and_eq_zero {typeMask mask : UInt8} (ht : typeMask &&& mask = 0)
    (hf : firstMask &&& mask = 0) (hl : lastMask &&& mask = 0) (h : FragmentHeader) :
    h.toByte typeMask &&& mask = 0 := by
  obtain ⟨first, last, unitType⟩ := h
  simp only [toByte, or_and_mask, UInt8.and_assoc, ht, UInt8.and_zero, UInt8.zero_or]
  cases first <;> cases last <;> simp [hf, hl]

end FragmentHeader

end NalTransport
