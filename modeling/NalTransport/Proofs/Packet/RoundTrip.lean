import Mathlib.Tactic.SplitIfs
import NalTransport.Packet.Basic

/-! Reading undoes writing for packets of every shape. What comes back is the
packet reduced to what the wire holds, and it is the packet itself if there was
nothing to reduce. -/

namespace NalTransport

namespace Packet.Header

/-- Two bits of version, seven of payload type, and an extension only if the
header says `extended`. -/
def wireForm (h : Header) : Header :=
  { h with
    version := h.version % 4
    payloadType := h.payloadType % 128
    profile := if h.extended then h.profile else 0
    extension := if h.extended then h.extension else [] }

theorem size_wireForm (h : Header) : h.wireForm.size = h.size := by
  cases hx : h.extended <;> simp [wireForm, size, extensionSize, hx]

theorem fault_eq_none_iff {h : Header} :
    h.fault = none ↔ h.csrcs.length ≤ maxCsrcs ∧
      (h.extended = true → h.extension.length % 4 = 0 ∧
        h.extension.length / 4 ≤ maxExtensionWords) := by
  unfold fault
  split_ifs <;> grind

theorem toNat_digit (weight : UInt8) (flag : Bool) :
    (digit weight flag).toNat = if flag then weight.toNat else 0 := by
  cases flag <;> rfl

theorem toNat_firstByte (version : UInt8) (padded extended : Bool) {n : Nat} (hn : n ≤ maxCsrcs) :
    (version % 4 * 64 + digit 32 padded + digit 16 extended + UInt8.ofNat n).toNat =
      version.toNat % 4 * 64 + (if padded then 32 else 0) + (if extended then 16 else 0) + n := by
  have hn' : n ≤ 15 := hn
  simp only [UInt8.toNat_add, UInt8.toNat_mul, UInt8.toNat_mod, toNat_digit, UInt8.toNat_ofNat',
    UInt8.reduceToNat]
  cases padded <;> cases extended <;> simp only [if_true, if_false, Bool.false_eq_true] <;> omega

theorem digits_firstByte (version : UInt8) (padded extended : Bool) {n : Nat} (hn : n ≤ maxCsrcs) :
    let b := version % 4 * 64 + digit 32 padded + digit 16 extended + UInt8.ofNat n
    b / 64 = version % 4 ∧ (b / 32 % 2 == 1) = padded ∧ (b / 16 % 2 == 1) = extended ∧
      (b % 16).toNat = n := by
  intro b
  have hb : b.toNat = _ := toNat_firstByte version padded extended hn
  have hn' : n ≤ 15 := hn
  refine ⟨?_, ?_, ?_, ?_⟩
  · apply UInt8.toNat_inj.mp
    simp only [UInt8.toNat_div, UInt8.toNat_mod, UInt8.reduceToNat, hb]
    cases padded <;> cases extended <;> simp <;> omega
  · rw [Bool.eq_iff_iff, beq_iff_eq, ← UInt8.toNat_inj]
    simp only [UInt8.toNat_div, UInt8.toNat_mod, UInt8.reduceToNat, hb]
    cases padded <;> cases extended <;> simp <;> omega
  · rw [Bool.eq_iff_iff, beq_iff_eq, ← UInt8.toNat_inj]
    simp only [UInt8.toNat_div, UInt8.toNat_mod, UInt8.reduceToNat, hb]
    cases padded <;> cases extended <;> simp <;> omega
  · simp only [UInt8.toNat_mod, UInt8.reduceToNat, hb]
    cases padded <;> cases extended <;> simp <;> omega

theorem digits_secondByte (marker : Bool) (payloadType : UInt8) :
    let b := digit 128 marker + payloadType % 128
    (b / 128 == 1) = marker ∧ b % 128 = payloadType % 128 := by
  intro b
  have hb : b.toNat = (if marker then 128 else 0) + payloadType.toNat % 128 := by
    simp only [b, UInt8.toNat_add, UInt8.toNat_mod, toNat_digit, UInt8.reduceToNat]
    cases marker <;> simp <;> omega
  constructor
  · rw [Bool.eq_iff_iff, beq_iff_eq, ← UInt8.toNat_inj]
    simp only [UInt8.toNat_div, UInt8.reduceToNat, hb]
    cases marker <;> simp
  · apply UInt8.toNat_inj.mp
    simp only [UInt8.toNat_mod, UInt8.reduceToNat, hb]
    cases marker <;> simp

theorem decodeExtension_extensionBytes {h : Header} (hx : h.extended = true)
    (hf : h.fault = none) (offset total : Nat) (rest : Bytes) :
    decodeExtension offset total (h.extensionBytes ++ rest) = .ok (h.profile, h.extension) := by
  obtain ⟨ha, hl⟩ := (fault_eq_none_iff.mp hf).2 hx
  have hcount : (UInt16.ofNat (h.extension.length / 4)).toNat = h.extension.length / 4 := by
    simp only [maxExtensionWords] at hl
    simp only [UInt16.toNat_ofNat']
    omega
  have hlen : 4 * (h.extension.length / 4) = h.extension.length := by omega
  simp only [extensionBytes, hx, if_true, Bytes.ofWord16, List.cons_append, List.nil_append,
    decodeExtension, Bytes.word16_ofWord16, hcount, Bytes.toNat_word16_ofNat hl, hlen,
    List.take_left, Nat.lt_irrefl, if_false]

/-- What follows a header does not matter to its reader. -/
theorem decode_bytes_append {h : Header} (hf : h.fault = none) (rest : Bytes) :
    decode (h.bytes ++ rest) = .ok h.wireForm := by
  have hc := (fault_eq_none_iff.mp hf).1
  obtain ⟨hversion, hpadded, hextended, hcount⟩ :=
    digits_firstByte h.version h.padded h.extended hc
  obtain ⟨hmarker, htype⟩ := digits_secondByte h.marker h.payloadType
  have hlist : (Bytes.ofWords32 h.csrcs).length = 4 * h.csrcs.length := Bytes.length_ofWords32 _
  have htake : (Bytes.ofWords32 h.csrcs ++ (h.extensionBytes ++ rest)).take (4 * h.csrcs.length) =
      Bytes.ofWords32 h.csrcs := List.take_left' hlist
  have hdrop : (Bytes.ofWords32 h.csrcs ++ (h.extensionBytes ++ rest)).drop (4 * h.csrcs.length) =
      h.extensionBytes ++ rest := List.drop_left' hlist
  simp only [bytes, fixedBytes, flagByte, typeByte, Bytes.ofWord16, Bytes.ofWord32, List.cons_append, List.nil_append,
    List.append_assoc, decode, hcount, htake, hdrop, hlist, Nat.lt_irrefl, if_false, hversion,
    hpadded, hextended, hmarker, htype, Bytes.word16_ofWord16, Bytes.word32_ofWord32,
    Bytes.words32_ofWords32]
  cases hx : h.extended with
  | false => simp [wireForm, hx]
  | true => simp [decodeExtension_extensionBytes hx hf, wireForm, hx]

end Packet.Header

namespace Packet.Trailer

def counted (t : Trailer) : Bytes := t.fill ++ [UInt8.ofNat (t.fill.length + 1)]

theorem length_counted (t : Trailer) : t.counted.length = t.fill.length + 1 := by
  simp [counted]

theorem toNat_count {t : Trailer} (ht : t.fill.length + 1 ≤ maxSize) :
    (UInt8.ofNat (t.fill.length + 1)).toNat = t.fill.length + 1 := by
  simp only [maxSize] at ht
  simp only [UInt8.toNat_ofNat']
  omega

theorem getLast?_append_counted (t : Trailer) (front : Bytes) :
    (front ++ t.counted).getLast? = some (UInt8.ofNat (t.fill.length + 1)) := by
  simp [counted]

/-- The bytes in front of a trailer, whatever they look like, are no part of it. -/
theorem decode_append_counted {t : Trailer} (ht : t.fill.length + 1 ≤ maxSize) (front : Bytes) :
    decode (front ++ t.counted) = .ok t := by
  have hcount := toNat_count ht
  have hne : UInt8.ofNat (t.fill.length + 1) ≠ 0 := by
    intro h
    rw [h] at hcount
    simp at hcount
  have hlast := getLast?_append_counted t front
  have hlen : (front ++ t.counted).length = front.length + (t.fill.length + 1) := by
    simp [counted]
  have hdrop : (front ++ t.counted).drop front.length = t.counted := List.drop_left
  simp only [decode, hlast, hne, if_false, hcount, hlen, Nat.add_sub_cancel, hdrop]
  rw [if_neg (by omega)]
  simp [counted]

end Packet.Trailer

namespace Packet

def wireForm (p : Packet) : Packet :=
  { header := p.header.wireForm
    payload := p.payload
    trailer := if p.header.padded then p.trailer else {} }

def ending (p : Packet) : Bytes := if p.header.padded then p.trailer.counted else []

theorem paddingBytes_eq (p : Packet) :
    p.paddingBytes =
      if p.header.padded = true ∧ Trailer.maxSize < p.trailer.fill.length + 1 then
        .error (.paddingTooLong (p.trailer.fill.length + 1))
      else .ok p.ending := by
  cases hp : p.header.padded with
  | false => simp [paddingBytes, ending, hp]
  | true =>
    by_cases hfill : p.trailer.fill = []
    · simp [paddingBytes, ending, hp, Trailer.encode, Trailer.size, Trailer.bytes,
        Trailer.counted, Trailer.maxSize, hfill]
    · by_cases hl : Trailer.maxSize < p.trailer.fill.length + 1
      · simp [paddingBytes, hp, Trailer.encode, Trailer.size, hfill, hl]
      · simp [paddingBytes, ending, hp, Trailer.encode, Trailer.size, Trailer.bytes,
          Trailer.counted, hfill, hl]

theorem encode_eq_ok_iff {p : Packet} {raw : Bytes} :
    p.encode = .ok raw ↔ p.header.fault = none ∧
      (p.header.padded = true → p.trailer.fill.length + 1 ≤ Trailer.maxSize) ∧
        p.header.bytes ++ p.payload ++ p.ending = raw := by
  simp only [encode, Header.encode, paddingBytes_eq]
  cases hf : p.header.fault with
  | some e => simp [bind, Except.bind]
  | none =>
    by_cases hp : p.header.padded = true ∧ Trailer.maxSize < p.trailer.fill.length + 1
    · have hl : ¬ (p.header.padded = true → p.trailer.fill.length + 1 ≤ Trailer.maxSize) :=
        fun h => by have := h hp.1; omega
      simp [bind, Except.bind, hp]
      omega
    · have hl : p.header.padded = true → p.trailer.fill.length + 1 ≤ Trailer.maxSize :=
        fun h => Nat.le_of_not_lt fun hlt => hp ⟨h, hlt⟩
      rw [if_neg hp]
      simp only [bind, Except.bind, Except.ok.injEq, true_and, eq_true hl]

theorem length_ending (p : Packet) : p.ending.length = p.paddingSize := by
  unfold ending paddingSize Trailer.size
  split_ifs with hp hfill <;> simp [Trailer.length_counted, *]

theorem length_of_encode_eq_ok {p : Packet} {raw : Bytes} (h : p.encode = .ok raw) :
    raw.length = p.size := by
  obtain ⟨-, -, rfl⟩ := encode_eq_ok_iff.mp h
  simp [size, Header.length_bytes, length_ending, Nat.add_assoc]

theorem decode_of_encode_eq_ok {p : Packet} {raw : Bytes} (h : p.encode = .ok raw) :
    decode raw = .ok p.wireForm := by
  obtain ⟨hf, hl, rfl⟩ := encode_eq_ok_iff.mp h
  -- The reader takes the end of the header from what it has read of it.
  have hbody : (p.header.bytes ++ (p.payload ++ p.ending)).drop p.header.wireForm.size =
      p.payload ++ p.ending :=
    List.drop_left' (by rw [Header.length_bytes, Header.size_wireForm])
  rw [decode, List.append_assoc, Header.decode_bytes_append hf]
  simp only [bind, Except.bind, hbody]
  cases hp : p.header.padded with
  | false => simp [wireForm, Header.wireForm, ending, hp]
  | true =>
    have hend : p.ending = p.trailer.counted := by simp [ending, hp]
    have hpayload : (p.payload ++ p.trailer.counted).take
        ((p.payload ++ p.trailer.counted).length - (p.trailer.fill.length + 1)) = p.payload := by
      apply List.take_left'
      rw [List.length_append, Trailer.length_counted, Nat.add_sub_cancel]
    simp only [hend, Trailer.decode_append_counted (hl hp), hpayload]
    simp [wireForm, Header.wireForm, hp]

/-- A packet in the form that the wire holds comes back as it was, whatever its
payload ends with, and so does the bare count of an empty trailer. -/
theorem decode_encode (p : Packet) :
    (∀ raw, p.encode = .ok raw → decode raw = .ok p.wireForm) ∧
      (p.wireForm = p → p.header.csrcs.length ≤ Header.maxCsrcs →
        p.header.extension.length % 4 = 0 →
        p.header.extension.length / 4 ≤ Header.maxExtensionWords →
        p.trailer.fill.length + 1 ≤ Trailer.maxSize →
        ∃ raw, p.encode = .ok raw ∧ decode raw = .ok p) := by
  refine ⟨fun raw h => decode_of_encode_eq_ok h, ?_⟩
  intro hn hc ha hw hl
  have hf : p.header.fault = none := Header.fault_eq_none_iff.mpr ⟨hc, fun _ => ⟨ha, hw⟩⟩
  have he := encode_eq_ok_iff.mpr ⟨hf, fun _ => hl, rfl⟩
  refine ⟨_, he, ?_⟩
  have hd := decode_of_encode_eq_ok he
  rwa [hn] at hd

theorem decode_encode_bareCount :
    let bare : Packet :=
      { header := { version := 2, padded := true, extended := true, csrcs := [7, 8] }
        payload := [9, 2] }
    let wide : Packet := { bare with header := { bare.header with version := 6, payloadType := 224 } }
    decode [178, 96, 0, 0, 0, 0, 0, 0, 0, 0, 0, 0, 0, 0, 0, 7, 0, 0, 0, 8, 0, 0, 0, 0, 9, 2, 1] =
        .ok wide.wireForm ∧
      ∃ raw, bare.encode = .ok raw ∧ decode raw = .ok bare := by
  intro bare wide
  have hw : wide.encode =
      .ok [178, 96, 0, 0, 0, 0, 0, 0, 0, 0, 0, 0, 0, 0, 0, 7, 0, 0, 0, 8, 0, 0, 0, 0, 9, 2, 1] :=
    encode_eq_ok_iff.mpr ⟨by decide, by decide, by decide⟩
  exact ⟨(decode_encode wide).1 _ hw,
    (decode_encode bare).2 (by decide) (by decide) (by decide) (by decide) (by decide)⟩

end Packet

end NalTransport
