import NalTransport.Hevc.Payload
import NalTransport.Proofs.Payload.HeaderBits

/-! The two bytes of an H.265 header. The layer is the one field that lies in
both: its highest bit ends the first byte, the other five begin the second. -/

namespace NalTransport.Hevc.Header

def wireForm (h : Header) : Header :=
  { h with
    unitType := h.unitType &&& PayloadType.mask
    layerId := h.layerId &&& 0x3f
    temporalId := h.temporalId &&& temporalMask }

/-- No field has more bits than the wire. -/
structure InWidth (h : Header) : Prop where
  unitType : h.unitType < 64
  layerId : h.layerId < 64
  temporalId : h.temporalId < 8

theorem and_masks_eq_self : ∀ b : UInt8,
    (b < 64 → b &&& PayloadType.mask = b ∧ b &&& 0x3f = b) ∧ (b < 8 → b &&& temporalMask = b) :=
  forall_byte (by decide)

theorem InWidth.wireForm_eq {h : Header} (hw : h.InWidth) : h.wireForm = h := by
  have htype := ((and_masks_eq_self h.unitType).1 hw.unitType).1
  have hlayer := ((and_masks_eq_self h.layerId).1 hw.layerId).2
  have htemporal := (and_masks_eq_self h.temporalId).2 hw.temporalId
  rw [wireForm, htype, hlayer, htemporal]

def layerHigh (layerId : UInt8) : UInt8 := (layerBits layerId >>> 8).toUInt8

def layerLow (layerId : UInt8) : UInt8 := (layerBits layerId).toUInt8

theorem toNat_layerOf (b0 b1 : UInt8) :
    (layerOf b0 b1).toNat = b0.toNat % 2 * 32 + b1.toNat / 8 := by
  have h0 := b0.toNat_lt
  have h1 := b1.toNat_lt
  have hmask (w : Nat) : (w &&& 504) >>> 3 = w / 8 % 64 := by
    rw [Nat.shiftRight_and_distrib, Nat.shiftRight_eq_div_pow]
    exact Nat.and_two_pow_sub_one_eq_mod _ 6
  simp only [layerOf, Bytes.word16, layerMask, layerShift, UInt16.toNat_toUInt8,
    UInt16.toNat_shiftRight, UInt16.toNat_and, UInt16.toNat_ofNat', UInt16.reduceToNat,
    Nat.reduceMod, hmask]
  omega

theorem toNat_layerHigh : ∀ layerId : UInt8, (layerHigh layerId).toNat = layerId.toNat % 64 / 32 :=
  forall_byte (by decide)

theorem toNat_layerLow : ∀ layerId : UInt8, (layerLow layerId).toNat = layerId.toNat % 32 * 8 :=
  forall_byte (by decide)

theorem toNat_and_masks : ∀ b : UInt8, (b &&& 1).toNat = b.toNat % 2 ∧
    (b &&& 0xf8).toNat = b.toNat / 8 * 8 :=
  forall_byte (by decide)

theorem layerHigh_layerOf (b0 b1 : UInt8) : layerHigh (layerOf b0 b1) = b0 &&& 1 := by
  have h1 := b1.toNat_lt
  apply UInt8.toNat_inj.mp
  rw [toNat_layerHigh, toNat_layerOf, (toNat_and_masks b0).1]
  omega

theorem layerLow_layerOf (b0 b1 : UInt8) : layerLow (layerOf b0 b1) = b1 &&& 0xf8 := by
  have h1 := b1.toNat_lt
  apply UInt8.toNat_inj.mp
  rw [toNat_layerLow, toNat_layerOf, (toNat_and_masks b1).2]
  omega

theorem layerOf_and_masks (b0 b1 : UInt8) : layerOf (b0 &&& 1) (b1 &&& 0xf8) = layerOf b0 b1 := by
  apply UInt8.toNat_inj.mp
  rw [toNat_layerOf, toNat_layerOf, (toNat_and_masks b0).1, (toNat_and_masks b1).2]
  omega

theorem layerOf_layerBits : ∀ layerId : UInt8,
    layerOf (layerHigh layerId) (layerLow layerId) = layerId &&& 0x3f :=
  forall_byte (by decide)

theorem or_firstByte : ∀ b : UInt8,
    forbiddenBits (forbiddenOf b) ||| unitTypeBits (unitTypeOf b) ||| (b &&& 1) = b :=
  forall_byte (by decide)

theorem or_secondByte : ∀ b : UInt8, (b &&& 0xf8) ||| temporalBits (temporalOf b) = b :=
  forall_byte (by decide)

theorem toBytes_eq (h : Header) :
    h.toBytes = [forbiddenBits h.forbidden ||| unitTypeBits h.unitType ||| layerHigh h.layerId,
      layerLow h.layerId ||| temporalBits h.temporalId] := rfl

theorem toBytes_ofBytes (b0 b1 : UInt8) : (ofBytes b0 b1).toBytes = [b0, b1] := by
  simp only [toBytes_eq, ofBytes, layerHigh_layerOf, layerLow_layerOf, or_firstByte, or_secondByte]

theorem forbiddenBits_and_masks : ∀ forbidden : Bool,
    forbiddenBits forbidden &&& typeMask = 0 ∧ forbiddenBits forbidden &&& 1 = 0 := by
  decide

theorem unitTypeBits_and_masks : ∀ unitType : UInt8, unitTypeBits unitType &&& forbiddenMask = 0 ∧
    (unitTypeBits unitType &&& typeMask) >>> typeShift = unitType &&& PayloadType.mask ∧
      unitTypeBits unitType &&& 1 = 0 :=
  forall_byte (by decide)

theorem layerHigh_and_masks : ∀ layerId : UInt8, layerHigh layerId &&& forbiddenMask = 0 ∧
    layerHigh layerId &&& typeMask = 0 ∧ layerHigh layerId &&& 1 = layerHigh layerId :=
  forall_byte (by decide)

theorem layerLow_and_masks : ∀ layerId : UInt8, layerLow layerId &&& temporalMask = 0 ∧
    layerLow layerId &&& 0xf8 = layerLow layerId :=
  forall_byte (by decide)

theorem temporalBits_and_masks : ∀ temporalId : UInt8, temporalBits temporalId &&& 0xf8 = 0 ∧
    temporalBits temporalId &&& temporalMask = temporalId &&& temporalMask :=
  forall_byte (by decide)

theorem ofBytes_toBytes (h : Header) {b0 b1 : UInt8} (hb : h.toBytes = [b0, b1]) :
    ofBytes b0 b1 = h.wireForm := by
  obtain ⟨hft, hfl⟩ := forbiddenBits_and_masks h.forbidden
  obtain ⟨htf, htt, htl⟩ := unitTypeBits_and_masks h.unitType
  obtain ⟨hlf, hlt, hll⟩ := layerHigh_and_masks h.layerId
  obtain ⟨hlm, hlo⟩ := layerLow_and_masks h.layerId
  obtain ⟨hmo, hmm⟩ := temporalBits_and_masks h.temporalId
  rw [toBytes_eq] at hb
  obtain ⟨rfl, rfl⟩ : _ = b0 ∧ _ = b1 := by simpa using hb
  have hf : forbiddenOf (forbiddenBits h.forbidden ||| unitTypeBits h.unitType |||
      layerHigh h.layerId) = h.forbidden := by
    rw [UInt8.or_assoc]
    apply forbiddenOf_forbiddenBits_or
    rw [or_and_mask, htf, hlf, UInt8.or_zero]
  have ht : unitTypeOf (forbiddenBits h.forbidden ||| unitTypeBits h.unitType |||
      layerHigh h.layerId) = h.unitType &&& PayloadType.mask := by
    rw [unitTypeOf, or_and_mask, or_and_mask, hft, hlt, UInt8.zero_or, UInt8.or_zero, htt]
  have hl : layerOf (forbiddenBits h.forbidden ||| unitTypeBits h.unitType ||| layerHigh h.layerId)
      (layerLow h.layerId ||| temporalBits h.temporalId) = h.layerId &&& 0x3f := by
    rw [← layerOf_and_masks, or_and_mask, or_and_mask, or_and_mask, hfl, htl, hll, hlo, hmo,
      UInt8.or_zero, UInt8.zero_or, UInt8.or_zero, layerOf_layerBits]
  have hm : temporalOf (layerLow h.layerId ||| temporalBits h.temporalId) =
      h.temporalId &&& temporalMask := by
    rw [temporalOf, or_and_mask, hlm, hmm, UInt8.zero_or]
  rw [ofBytes, hf, ht, hl, hm, wireForm]

theorem wireForm_ofBytes (b0 b1 : UInt8) : (ofBytes b0 b1).wireForm = ofBytes b0 b1 :=
  (ofBytes_toBytes (ofBytes b0 b1) (toBytes_ofBytes b0 b1)).symm

theorem wireForm_retyped {h : Header} (hw : h.wireForm = h) {t : UInt8}
    (ht : t &&& PayloadType.mask = t) :
    ({ h with unitType := t } : Header).wireForm = { h with unitType := t } :=
  calc ({ h with unitType := t } : Header).wireForm
      = { h.wireForm with unitType := t &&& PayloadType.mask } := rfl
    _ = { h with unitType := t } := by rw [hw, ht]

end NalTransport.Hevc.Header
