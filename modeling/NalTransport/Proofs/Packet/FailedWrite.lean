import NalTransport.Proofs.Packet.Buffer

/-! What a failed write leaves behind. Headers and trailers fail before their first
byte is stored, and so do packets, with one exception: that a trailer is too long
shows only when the header and the payload are in place already. -/

namespace NalTransport.Packet

theorem Header.buffer_of_error {h : Header} {buffer : Bytes} {e : WireError}
    (he : (h.writeTo buffer).outcome = .error e) : (h.writeTo buffer).buffer = buffer := by
  cases hf : h.fault with
  | some fault => rw [writeTo_of_fault hf]
  | none =>
    by_cases hl : h.size ≤ buffer.length
    · simp [writeTo_of_room hf hl] at he
    · rw [writeTo_of_short hf (Nat.lt_of_not_le hl)]

theorem Header.fault_ne_paddingTooLong (h : Header) (size : Nat) :
    h.fault ≠ some (.paddingTooLong size) := by
  unfold fault
  split_ifs <;> simp

theorem Trailer.buffer_of_error {t : Trailer} {buffer : Bytes} {e : WireError}
    (he : (t.writeTo buffer).outcome = .error e) : (t.writeTo buffer).buffer = buffer := by
  by_cases h : t.size ≤ maxSize
  · by_cases hl : t.size ≤ buffer.length
    · simp [writeTo_of_room h hl] at he
    · rw [writeTo_of_short h (Nat.lt_of_not_le hl)]
  · rw [writeTo_of_lt_size (Nat.lt_of_not_le h)]

/-- A buffer that is too short hides every other fault. -/
theorem outcome_eq_error_iff {p : Packet} {buffer : Bytes} {e : WireError} :
    (p.writeTo buffer).outcome = .error e ↔
      (buffer.length < p.size ∧ .bufferTooShort p.size buffer.length = e) ∨
        (p.size ≤ buffer.length ∧ p.encode = .error e) := by
  by_cases hl : p.size ≤ buffer.length
  · cases hp : p.encode with
    | error fault => simp [writeTo_of_encode_error hl hp, hl, Nat.not_lt.mpr hl]
    | ok raw => simp [writeTo_of_encode hl hp, Nat.not_lt.mpr hl]
  · simp [writeTo_of_short (Nat.lt_of_not_le hl), hl, Nat.lt_of_not_le hl]

theorem writeTo_of_overflow {p : Packet} {buffer : Bytes} (hl : p.size ≤ buffer.length)
    (hf : p.header.fault = none) (hp : p.header.padded = true)
    (hlt : 254 < p.trailer.fill.length) :
    p.writeTo buffer = ⟨.error (.paddingTooLong (p.trailer.fill.length + 1)),
      Bytes.overwrite p.front buffer⟩ := by
  rw [writeTo_of_header hl hf, writePadding_of_overflow hp hlt]
  rfl

theorem outcome_eq_paddingTooLong_iff {p : Packet} {buffer : Bytes} {size : Nat} :
    (p.writeTo buffer).outcome = .error (.paddingTooLong size) ↔
      p.size ≤ buffer.length ∧ p.header.fault = none ∧ p.header.padded = true ∧
        254 < p.trailer.fill.length ∧ p.trailer.fill.length + 1 = size := by
  have hf := p.header.fault_ne_paddingTooLong size
  simp [outcome_eq_error_iff, encode_eq_error_iff, hf]

theorem buffer_of_error {p : Packet} {buffer : Bytes} {e : WireError}
    (he : (p.writeTo buffer).outcome = .error e) (hne : ∀ size, e ≠ .paddingTooLong size) :
    (p.writeTo buffer).buffer = buffer := by
  rcases outcome_eq_error_iff.mp he with ⟨hlt, -⟩ | ⟨hl, hencode⟩
  · rw [writeTo_of_short hlt]
  · rcases encode_eq_error_iff.mp hencode with hf | ⟨-, -, -, rfl⟩
    · rw [writeTo_of_fault hl hf]
    · exact absurd rfl (hne _)

/-- Only padding that is too long is found out behind bytes that are written already. -/
theorem failed_writeTo :
    (∀ (h : Header) (buffer : Bytes) e, (h.writeTo buffer).outcome = .error e →
      (h.writeTo buffer).buffer = buffer) ∧
    (∀ (t : Trailer) (buffer : Bytes) e, (t.writeTo buffer).outcome = .error e →
      (t.writeTo buffer).buffer = buffer) ∧
    ∀ (p : Packet) (buffer : Bytes),
      (∀ e, (p.writeTo buffer).outcome = .error e → (∀ size, e ≠ .paddingTooLong size) →
        (p.writeTo buffer).buffer = buffer) ∧
      ∀ size,
        ((p.writeTo buffer).outcome = .error (.paddingTooLong size) ↔
          p.size ≤ buffer.length ∧ (∃ raw, p.header.encode = .ok raw) ∧ p.header.padded = true ∧
            size = 1 + p.trailer.fill.length ∧ 255 < size) ∧
        ((p.writeTo buffer).outcome = .error (.paddingTooLong size) →
          let offset := p.header.size + p.payload.length
          (∃ raw, p.header.encode = .ok raw ∧
            (p.writeTo buffer).buffer.take offset = raw ++ p.payload) ∧
          (p.writeTo buffer).buffer.drop offset = buffer.drop offset) := by
  refine ⟨fun h buffer e => Header.buffer_of_error, fun t buffer e => Trailer.buffer_of_error,
    fun p buffer => ⟨fun e => buffer_of_error, fun size => ⟨?_, fun he => ?_⟩⟩⟩
  · have hencode : (∃ raw, p.header.encode = .ok raw) ↔ p.header.fault = none := by
      simp [Header.encode_eq_ok_iff]
    have hsize : 254 < p.trailer.fill.length ∧ p.trailer.fill.length + 1 = size ↔
        size = 1 + p.trailer.fill.length ∧ 255 < size := by omega
    rw [outcome_eq_paddingTooLong_iff, hencode, hsize]
  · obtain ⟨hl, hf, hp, hlt, -⟩ := outcome_eq_paddingTooLong_iff.mp he
    rw [writeTo_of_overflow hl hf hp hlt, ← length_front]
    exact ⟨⟨p.header.bytes, Header.encode_eq_ok_iff.mpr ⟨hf, rfl⟩, Bytes.take_overwrite _ _⟩,
      Bytes.drop_overwrite _ _⟩

/-- The same padding leaves no trace where the header has too many identifiers or the buffer
is too short. -/
theorem failed_writeTo_overflow :
    let p : Packet :=
      { header := { version := 2, padded := true }, payload := [9]
        trailer := { fill := List.replicate 255 7 } }
    let crowded : Packet := { p with header := { p.header with csrcs := List.replicate 16 1 } }
    let buffer : Bytes := List.replicate 400 255
    let short : Bytes := List.replicate 268 255
    (p.writeTo buffer).outcome = .error (.paddingTooLong 256) ∧
      (p.writeTo buffer).buffer.take 13 = [160, 0, 0, 0, 0, 0, 0, 0, 0, 0, 0, 0, 9] ∧
      (p.writeTo buffer).buffer.drop 13 = buffer.drop 13 ∧
      (crowded.writeTo buffer).outcome = .error (.tooManyCsrcs 16) ∧
      (crowded.writeTo buffer).buffer = buffer ∧
      (p.writeTo short).outcome = .error (.bufferTooShort 269 268) ∧
      (p.writeTo short).buffer = short := by
  intro p crowded buffer short
  obtain ⟨-, -, hpacket⟩ := failed_writeTo
  have hfill : p.trailer.fill.length = 255 := List.length_replicate
  have hbuffer : buffer.length = 400 := List.length_replicate
  have hshort : short.length = 268 := List.length_replicate
  have hpadding : p.paddingSize = 256 := by
    have hne : p.trailer.fill ≠ [] := List.ne_nil_of_length_eq_add_one hfill
    rw [paddingSize, if_pos rfl, Trailer.size, if_neg hne, hfill]
    rfl
  have hsize : p.size = 12 + 1 + p.paddingSize := rfl
  have hcrowded : crowded.size = 76 + 1 + p.paddingSize := rfl
  have hencode : p.header.encode = .ok [160, 0, 0, 0, 0, 0, 0, 0, 0, 0, 0, 0] :=
    Header.encode_eq_ok_iff.mpr ⟨by decide, by decide⟩
  have hoverflow : (p.writeTo buffer).outcome = .error (.paddingTooLong 256) :=
    ((hpacket p buffer).2 256).1.mpr ⟨by omega, ⟨_, hencode⟩, rfl, by omega, by omega⟩
  obtain ⟨⟨raw, hraw, htake⟩, hdrop⟩ := ((hpacket p buffer).2 256).2 hoverflow
  obtain rfl : _ = raw := Except.ok.inj (hencode.symm.trans hraw)
  have hcsrcs : (crowded.writeTo buffer).outcome = .error (.tooManyCsrcs 16) :=
    outcome_eq_error_iff.mpr (.inr ⟨by omega, encode_eq_error_iff.mpr (.inl rfl)⟩)
  have hroom : (p.writeTo short).outcome = .error (.bufferTooShort 269 268) :=
    outcome_eq_error_iff.mpr (.inl ⟨by omega, by rw [hshort, hsize, hpadding]⟩)
  exact ⟨hoverflow, htake, hdrop, hcsrcs, (hpacket crowded buffer).1 _ hcsrcs (by simp),
    hroom, (hpacket p short).1 _ hroom (by simp)⟩

end NalTransport.Packet
