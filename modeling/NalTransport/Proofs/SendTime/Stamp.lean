import NalTransport.Proofs.Packet.Buffer
import NalTransport.Proofs.Payload.HeaderBits
import NalTransport.Proofs.SendTime.Block
import NalTransport.Proofs.SendTime.Clock

/-! A send time is found again under the id it was stamped with, on the header
itself and on what the wire holds of it. No other id finds anything. -/

namespace NalTransport

theorem length_sendTimeElement (id : UInt8) (t : Instant) : (sendTimeElement id t).length = 4 := rfl

theorem sendTimeElement_head : ∀ id : UInt8,
    (id <<< 4) ||| UInt8.ofNat (sendTimeLength - 1) = id * 16 + UInt8.ofNat (sendTimeLength - 1) :=
  forall_byte (by decide)

theorem sendTimeElement_eq_bytes (id : UInt8) (t : Instant) :
    sendTimeElement id t = (BlockItem.element id ((Bytes.ofWord32 t.sendTime).drop 1)).bytes := by
  rw [sendTimeElement, sendTimeElement_head]
  rfl

theorem Bytes.bigEndian_drop_ofWord32 (w : UInt32) :
    bigEndian ((ofWord32 w).drop 1) = w.toNat % 2 ^ 24 := by
  have hvalue : bigEndian ((ofWord32 w).drop 1) =
      (UInt8.ofNat w.toNat).toNat + 256 * ((UInt8.ofNat (w.toNat / 256)).toNat +
        256 * ((UInt8.ofNat (w.toNat / 65536)).toNat + 256 * 0)) := rfl
  rw [hvalue]
  simp only [UInt8.toNat_ofNat']
  omega

theorem Instant.bigEndian_drop_sendTime (t : Instant) :
    Bytes.bigEndian ((Bytes.ofWord32 t.sendTime).drop 1) = t.sendTime.toNat := by
  rw [Bytes.bigEndian_drop_ofWord32, toNat_sendTime, Nat.mod_mod]

namespace Packet.Header

theorem sendTime?_stamp {id : UInt8} (hid : 1 ≤ id ∧ id ≤ maxElementId) (h : Header) (t : Instant)
    (other : UInt8) :
    (h.stamp id t).sendTime? other = if other = id then some t.sendTime else none := by
  let item := BlockItem.element id ((Bytes.ofWord32 t.sendTime).drop 1)
  have hlength : ((Bytes.ofWord32 t.sendTime).drop 1).length = sendTimeLength := rfl
  have hbound : 1 ≤ sendTimeLength ∧ sendTimeLength ≤ 16 := by decide
  have hitem : item.WellFormed := ⟨hid.1, hid.2, hbound⟩
  have hblock : (h.stamp id t).extension = [item].flatMap BlockItem.bytes ++ [] := by
    rw [List.flatMap_singleton, List.append_nil]
    exact sendTimeElement_eq_bytes id t
  have hread := map_toNat_sendTime? (h := h.stamp id t) rfl rfl
    (List.forall_mem_singleton.mpr hitem) .nothing hblock other
  refine Option.map_injective (fun _ _ => UInt32.toNat_inj.mp) (hread.trans ?_)
  rw [List.findSome?_singleton, BlockItem.data?, hlength]
  by_cases ho : other = id
  · rw [if_pos ⟨ho.symm, rfl⟩, if_pos ho]
    exact congrArg some t.bigEndian_drop_sendTime
  · rw [if_neg fun h => ho h.1.symm, if_neg ho]
    rfl

theorem sendTime?_wireForm (h : Header) (id : UInt8) : h.wireForm.sendTime? id = h.sendTime? id := by
  cases hx : h.extended <;> simp [wireForm, sendTime?, hx]

theorem fault_stamp {h : Header} (hc : h.csrcs.length ≤ maxCsrcs) (id : UInt8) (t : Instant) :
    (h.stamp id t).fault = none := by
  refine fault_eq_none_iff.mpr ⟨hc, fun _ => ?_⟩
  change (sendTimeElement id t).length % 4 = 0 ∧
    (sendTimeElement id t).length / 4 ≤ maxExtensionWords
  rw [length_sendTimeElement]
  decide

theorem size_stamp (h : Header) (id : UInt8) (t : Instant) :
    (h.stamp id t).size = 20 + 4 * h.csrcs.length := by
  have hsize : (h.stamp id t).size = 12 + 4 * h.csrcs.length + (4 + 4) := rfl
  omega

theorem stamp_stamp (h : Header) (id id' : UInt8) (t t' : Instant) :
    (h.stamp id t).stamp id' t' = h.stamp id' t' := rfl

/-- A stamp takes the place of whatever extension there was, also of one that the wire could not
have held, and is all that receivers find in its own place. -/
theorem stamp_received {h : Header} (hc : h.csrcs.length ≤ 15) {id : UInt8}
    (hid : 1 ≤ id ∧ id ≤ 14) (t : Instant) :
    let stamped := h.stamp id t
    { stamped with extended := h.extended, profile := h.profile, extension := h.extension } = h ∧
      stamped.size = 20 + 4 * h.csrcs.length ∧
      (∃ raw, stamped.encode = .ok raw ∧ raw.length = stamped.size ∧
        ∀ more, ∃ received, decode (raw ++ more) = .ok received ∧
          received.sendTime? id = some (sendTimeOfNtp t.ntp) ∧
          ∀ other, other ≠ id → received.sendTime? other = none) ∧
      ∀ id' t', stamped.stamp id' t' = h.stamp id' t' := by
  intro stamped
  have hf : stamped.fault = none := fault_stamp hc id t
  have hfound (other : UInt8) : stamped.wireForm.sendTime? other =
      if other = id then some t.sendTime else none := by
    rw [sendTime?_wireForm, sendTime?_stamp hid]
  refine ⟨rfl, size_stamp h id t, ⟨stamped.bytes, encode_eq_ok_iff.mpr ⟨hf, rfl⟩,
    length_bytes stamped, fun more => ?_⟩, fun id' t' => stamp_stamp h id id' t t'⟩
  refine ⟨stamped.wireForm, decode_bytes_append hf more, ?_, fun other hne => ?_⟩
  · rw [hfound, if_pos rfl]
    rfl
  · rw [hfound, if_neg hne]

theorem stamp_received_misaligned :
    let h : Header :=
      { version := 2, extended := true, csrcs := [7], profile := 4096, extension := [1, 2, 3, 4, 5] }
    let stamped := h.stamp 14 1500000000
    let raw : Bytes :=
      [145, 0, 0, 0, 0, 0, 0, 0, 0, 0, 0, 0, 0, 0, 0, 7, 190, 222, 0, 1, 226, 6, 0, 0]
    h.encode = .error (.extensionUnaligned 5) ∧ stamped.encode = .ok raw ∧
      (∃ received, decode (raw ++ [9, 9]) = .ok received ∧
        received.sendTime? 14 = some 393216 ∧ received.sendTime? 3 = none) ∧
      stamped.stamp 2 0 = h.stamp 2 0 := by
  intro h stamped raw
  have hraw : stamped.encode = .ok raw := by decide
  obtain ⟨-, -, ⟨written, hwritten, -, hmore⟩, hagain⟩ :=
    stamp_received (h := h) (by decide) (by decide : 1 ≤ (14 : UInt8) ∧ (14 : UInt8) ≤ 14) 1500000000
  obtain rfl : raw = written := Except.ok.inj (hraw.symm.trans hwritten)
  obtain ⟨received, hreceived, hfound, hnone⟩ := hmore [9, 9]
  exact ⟨by decide, hraw, ⟨received, hreceived, hfound, hnone 3 (by decide)⟩, hagain 2 0⟩

end Packet.Header

end NalTransport
