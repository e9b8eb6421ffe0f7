import NalTransport.Avc.Header
import NalTransport.Proofs.Payload.HeaderBits

/-! The byte of an H.264 header. Every byte is that of the header read off it,
and a header comes back as far as its fields keep to their bits. -/

namespace NalTransport.Avc.Header

def wireForm (h : Header) : Header :=
  { h with refIdc := h.refIdc &&& 3, unitType := h.unitType &&& typeMask }

/-- No field has more bits than the wire. -/
structure InWidth (h : Header) : Prop where
  refIdc : h.refIdc < 4
  unitType : h.unitType < 32

theorem and_masks_eq_self : ∀ b : UInt8,
    (b < 4 → b &&& 3 = b) ∧ (b < 32 → b &&& typeMask = b) :=
  forall_byte (by decide)

theorem InWidth.wireForm_eq {h : Header} (hw : h.InWidth) : h.wireForm = h := by
  have hrefIdc := (and_masks_eq_self h.refIdc).1 hw.refIdc
  have htype := (and_masks_eq_self h.unitType).2 hw.unitType
  rw [wireForm, hrefIdc, htype]

theorem toByte_ofByte : ∀ b : UInt8, (ofByte b).toByte = b :=
  forall_byte (by decide)

theorem forbiddenBits_and_masks : ∀ forbidden : Bool,
    forbiddenBits forbidden &&& refIdcMask = 0 ∧ forbiddenBits forbidden &&& typeMask = 0 := by
  decide

theorem refIdcBits_and_masks : ∀ refIdc : UInt8, refIdcBits refIdc &&& forbiddenMask = 0 ∧
    (refIdcBits refIdc &&& refIdcMask) >>> refIdcShift = refIdc &&& 3 ∧
      refIdcBits refIdc &&& typeMask = 0 :=
  forall_byte (by decide)

theorem unitTypeBits_and_masks : ∀ unitType : UInt8, unitTypeBits unitType &&& forbiddenMask = 0 ∧
    unitTypeBits unitType &&& refIdcMask = 0 ∧
      unitTypeBits unitType &&& typeMask = unitType &&& typeMask :=
  forall_byte (by decide)

theorem ofByte_toByte (h : Header) : ofByte h.toByte = h.wireForm := by
  obtain ⟨hfr, hft⟩ := forbiddenBits_and_masks h.forbidden
  obtain ⟨hrf, hrr, hrt⟩ := refIdcBits_and_masks h.refIdc
  obtain ⟨htf, htr, htt⟩ := unitTypeBits_and_masks h.unitType
  have hf : forbiddenOf h.toByte = h.forbidden := by
    rw [toByte, UInt8.or_assoc]
    apply forbiddenOf_forbiddenBits_or
    rw [or_and_mask, hrf, htf, UInt8.or_zero]
  have hr : refIdcOf h.toByte = h.refIdc &&& 3 := by
    rw [refIdcOf, toByte, or_and_mask, or_and_mask, hfr, htr, UInt8.zero_or, UInt8.or_zero, hrr]
  have ht : unitTypeOf h.toByte = h.unitType &&& typeMask := by
    rw [unitTypeOf, toByte, or_and_mask, or_and_mask, hft, hrt, htt, UInt8.zero_or, UInt8.zero_or]
  rw [ofByte, hf, hr, ht, wireForm]

theorem wireForm_ofByte (b : UInt8) : (ofByte b).wireForm = ofByte b := by
  rw [← ofByte_toByte, toByte_ofByte]

theorem wireForm_retyped {h : Header} (hw : h.wireForm = h) {t : UInt8} (ht : t &&& typeMask = t) :
    ({ h with unitType := t } : Header).wireForm = { h with unitType := t } :=
  calc ({ h with unitType := t } : Header).wireForm
      = { h.wireForm with unitType := t &&& typeMask } := rfl
    _ = { h with unitType := t } := by rw [hw, ht]

end NalTransport.Avc.Header
