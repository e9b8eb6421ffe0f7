import Mathlib.Data.List.Basic
import NalTransport.Proofs.Packet.RoundTrip

/-! Writing undoes reading. The reader accepts no two forms of one packet, so
that whatever it accepts is written again byte for byte. -/

namespace NalTransport

namespace Packet.Header

theorem beq_one_eq (b : UInt8) : (b == 1) = (b.toNat == 1) := by
  rw [Bool.eq_iff_iff, beq_iff_eq, beq_iff_eq, ← UInt8.toNat_inj]
  rfl

theorem firstByte_digits (b : UInt8) :
    b / 64 % 4 * 64 + digit 32 (b / 32 % 2 == 1) + digit 16 (b / 16 % 2 == 1) +
      UInt8.ofNat (b % 16).toNat = b := by
  have hb := b.toNat_lt
  have hn : (b % 16).toNat = b.toNat % 16 := UInt8.toNat_mod b 16
  have hle : (b % 16).toNat ≤ maxCsrcs := by
    rw [hn, maxCsrcs]
    omega
  have hpadded : (b / 32 % 2 == 1) = (b.toNat / 32 % 2 == 1) := beq_one_eq (b / 32 % 2)
  have hextended : (b / 16 % 2 == 1) = (b.toNat / 16 % 2 == 1) := beq_one_eq (b / 16 % 2)
  have hversion : (b / 64).toNat = b.toNat / 64 := UInt8.toNat_div b 64
  apply UInt8.toNat_inj.mp
  rw [toNat_firstByte _ _ _ hle, hn, hversion, hpadded, hextended]
  simp only [beq_iff_eq]
  split_ifs <;> omega

theorem secondByte_digits (b : UInt8) : digit 128 (b / 128 == 1) + b % 128 % 128 = b := by
  have hb := b.toNat_lt
  have hmarker : (b / 128 == 1) = (b.toNat / 128 == 1) := beq_one_eq (b / 128)
  apply UInt8.toNat_inj.mp
  simp only [UInt8.toNat_add, UInt8.toNat_mod, toNat_digit, UInt8.reduceToNat, hmarker, beq_iff_eq]
  split_ifs <;> omega

theorem fixedBytes_digits {b0 b1 n1 n0 t3 t2 t1 t0 s3 s2 s1 s0 : UInt8} {csrcs : List UInt32}
    {profile : UInt16} {extension : Bytes} (h : csrcs.length = (b0 % 16).toNat) :
    fixedBytes
        { version := b0 / 64
          padded := b0 / 32 % 2 == 1
          extended := b0 / 16 % 2 == 1
          marker := b1 / 128 == 1
          payloadType := b1 % 128
          sequenceNumber := Bytes.word16 n1 n0
          timestamp := Bytes.word32 t3 t2 t1 t0
          ssrc := Bytes.word32 s3 s2 s1 s0
          csrcs, profile, extension } =
      [b0, b1, n1, n0, t3, t2, t1, t0, s3, s2, s1, s0] := by
  simp only [fixedBytes, flagByte, typeByte, h, firstByte_digits, secondByte_digits, Bytes.ofWord16_word16,
    Bytes.ofWord32_word32, List.cons_append, List.nil_append]

theorem extension_of_decodeExtension {offset total : Nat} {block extension : Bytes}
    {profile : UInt16} (h : decodeExtension offset total block = .ok (profile, extension)) :
    (extension.length % 4 = 0 ∧ extension.length / 4 ≤ maxExtensionWords) ∧
      ∃ rest, block = Bytes.ofWord16 profile ++
        Bytes.ofWord16 (UInt16.ofNat (extension.length / 4)) ++ extension ++ rest := by
  match block with
  | p1 :: p0 :: n1 :: n0 :: rest =>
    simp only [decodeExtension] at h
    split at h
    · cases h
    · next hl =>
      simp only [Except.ok.injEq, Prod.mk.injEq] at h
      obtain ⟨rfl, rfl⟩ := h
      have hw := (Bytes.word16 n1 n0).toNat_lt
      have hlen : (rest.take (4 * (Bytes.word16 n1 n0).toNat)).length =
          4 * (Bytes.word16 n1 n0).toNat := by
        rw [List.length_take] at hl ⊢
        omega
      have hcount : 4 * (Bytes.word16 n1 n0).toNat / 4 = (Bytes.word16 n1 n0).toNat := by omega
      rw [hlen, hcount, UInt16.ofNat_toNat, Bytes.ofWord16_word16, Bytes.ofWord16_word16]
      refine ⟨⟨by omega, by rw [maxExtensionWords]; omega⟩,
        rest.drop (4 * (Bytes.word16 n1 n0).toNat), ?_⟩
      simp only [List.cons_append, List.nil_append, List.take_append_drop]

theorem parts_of_decode {raw : Bytes} {h : Header} (hd : decode raw = .ok h) :
    ∃ list block, raw = h.fixedBytes ++ (list ++ block) ∧
      h.csrcs = Bytes.words32 list ∧ list.length = 4 * h.csrcs.length ∧
      h.csrcs.length ≤ maxCsrcs ∧
      (h.extended = true → ∃ offset total,
        decodeExtension offset total block = .ok (h.profile, h.extension)) := by
  match raw with
  | b0 :: b1 :: n1 :: n0 :: t3 :: t2 :: t1 :: t0 :: s3 :: s2 :: s1 :: s0 :: rest =>
    have hmax : (b0 % 16).toNat ≤ maxCsrcs := by
      rw [UInt8.toNat_mod, maxCsrcs]
      exact Nat.le_of_lt_succ (Nat.mod_lt _ (by decide))
    have hsplit := List.take_append_drop (4 * (b0 % 16).toNat) rest
    simp only [decode] at hd
    split at hd
    · cases hd
    · next hlist =>
      have hlen : (rest.take (4 * (b0 % 16).toNat)).length = 4 * (b0 % 16).toNat := by
        rw [List.length_take] at hlist ⊢
        omega
      have hcount := Bytes.length_words32 hlen
      refine ⟨rest.take (4 * (b0 % 16).toNat), rest.drop (4 * (b0 % 16).toNat), ?_⟩
      split at hd
      · split at hd
        · cases hd
        · next profile extension he =>
          obtain rfl := Except.ok.inj hd
          rw [fixedBytes_digits hcount, hsplit, hcount]
          exact ⟨rfl, rfl, hlen, hmax, fun _ => ⟨_, _, he⟩⟩
      · next hx =>
        obtain rfl := Except.ok.inj hd
        rw [fixedBytes_digits hcount, hsplit, hcount]
        exact ⟨rfl, rfl, hlen, hmax, fun h => absurd h hx⟩

theorem bytes_of_decode {raw : Bytes} {h : Header} (hd : decode raw = .ok h) :
    h.fault = none ∧ ∃ rest, raw = h.bytes ++ rest := by
  obtain ⟨list, block, rfl, hcsrcs, hlen, hmax, hblock⟩ := parts_of_decode hd
  have hlist : Bytes.ofWords32 h.csrcs = list := by rw [hcsrcs, Bytes.ofWords32_words32 hlen]
  by_cases hx : h.extended = true
  · obtain ⟨offset, total, he⟩ := hblock hx
    obtain ⟨hfits, rest, rfl⟩ := extension_of_decodeExtension he
    refine ⟨fault_eq_none_iff.mpr ⟨hmax, fun _ => hfits⟩, rest, ?_⟩
    simp only [bytes, extensionBytes, hx, if_true, hlist, List.append_assoc]
  · refine ⟨fault_eq_none_iff.mpr ⟨hmax, fun h => absurd h hx⟩, block, ?_⟩
    simp only [bytes, extensionBytes, hx, Bool.false_eq_true, if_false, hlist, List.append_nil,
      List.append_assoc]

end Packet.Header

namespace Packet.Trailer

theorem exists_decode_iff {body : Bytes} :
    (∃ t, decode body = .ok t) ↔
      ∃ count, body.getLast? = some count ∧ 1 ≤ count.toNat ∧ count.toNat ≤ body.length := by
  unfold decode
  cases hlast : body.getLast? with
  | none => simp
  | some count =>
    by_cases hzero : count = 0
    · simp [hzero]
    · have hpos : 1 ≤ count.toNat := UInt8.pos_iff_ne_zero.mpr hzero
      by_cases hl : body.length < count.toNat
      · simp [hzero, hl, Nat.not_le.mpr hl]
      · simp [hzero, hl, hpos, Nat.not_lt.mp hl]

theorem counted_of_decode {body : Bytes} {t : Trailer} (h : decode body = .ok t) :
    t.fill.length + 1 ≤ maxSize ∧ ∃ front, body = front ++ t.counted := by
  obtain ⟨count, hlast, hpos, hle⟩ := exists_decode_iff.mp ⟨t, h⟩
  have hlt := count.toNat_lt
  have hne : count ≠ 0 := fun he => by simp [he] at hpos
  simp only [decode, hlast, hne, if_false, Nat.not_lt.mpr hle, Except.ok.injEq] at h
  subst h
  have hend : count ∈ (body.drop (body.length - count.toNat)).getLast? := by
    rw [List.getLast?_drop, if_neg (by omega), hlast]
    rfl
  have hfill : (body.drop (body.length - count.toNat)).dropLast.length + 1 = count.toNat := by
    rw [List.length_dropLast, List.length_drop]
    omega
  refine ⟨by rw [hfill, maxSize]; omega, body.take (body.length - count.toNat), ?_⟩
  rw [counted, hfill, UInt8.ofNat_toNat, List.dropLast_append_getLast? _ hend,
    List.take_append_drop]

end Packet.Trailer

namespace Packet

theorem exists_decode_iff {raw : Bytes} :
    (∃ p, decode raw = .ok p) ↔
      ∃ header, Header.decode raw = .ok header ∧
        (header.padded = true → ∃ count, (raw.drop header.size).getLast? = some count ∧
          1 ≤ count.toNat ∧ count.toNat ≤ (raw.drop header.size).length) := by
  rw [decode]
  cases hh : Header.decode raw with
  | error e => simp [bind, Except.bind]
  | ok header =>
    cases hp : header.padded with
    | false => simp [bind, Except.bind, hp]
    | true =>
      simp only [bind, Except.bind, Except.ok.injEq, exists_eq_left', hp, if_true, true_implies,
        ← Trailer.exists_decode_iff]
      cases ht : Trailer.decode (raw.drop header.size) <;> simp

theorem encode_of_decode {raw : Bytes} {p : Packet} (h : decode raw = .ok p) :
    p.encode = .ok raw := by
  rw [decode] at h
  cases hh : Header.decode raw with
  | error e => simp [hh, bind, Except.bind] at h
  | ok header =>
    obtain ⟨hfault, body, rfl⟩ := Header.bytes_of_decode hh
    have hbody : (header.bytes ++ body).drop header.size = body :=
      List.drop_left' (Header.length_bytes header)
    simp only [hh, bind, Except.bind, hbody] at h
    apply encode_eq_ok_iff.mpr
    cases hp : header.padded with
    | false =>
      simp only [hp, Bool.false_eq_true, if_false, Except.ok.injEq] at h
      subst h
      exact ⟨hfault, by simp [hp], by simp [ending, hp]⟩
    | true =>
      cases ht : Trailer.decode body with
      | error e => simp [hp, ht] at h
      | ok trailer =>
        obtain ⟨hmax, front, rfl⟩ := Trailer.counted_of_decode ht
        have hfront : (front ++ trailer.counted).take
            ((front ++ trailer.counted).length - (trailer.fill.length + 1)) = front := by
          apply List.take_left'
          rw [List.length_append, Trailer.length_counted, Nat.add_sub_cancel]
        simp only [hp, ht, if_true, hfront, Except.ok.injEq] at h
        subst h
        exact ⟨hfault, fun _ => hmax, by simp [ending, hp]⟩

/-- All bytes of an accepted packet count, and there are no others. -/
theorem encode_decode (raw : Bytes) :
    ((∃ p, decode raw = .ok p) ↔
      ∃ header, Header.decode raw = .ok header ∧
        (header.padded = true → ∃ count, (raw.drop header.size).getLast? = some count ∧
          1 ≤ count.toNat ∧ count.toNat ≤ (raw.drop header.size).length)) ∧
      ∀ p, decode raw = .ok p → p.encode = .ok raw ∧ p.size = raw.length := by
  refine ⟨exists_decode_iff, fun p h => ?_⟩
  have he := encode_of_decode h
  exact ⟨he, (length_of_encode_eq_ok he).symm⟩

/-- Version three, an extension without body, and four bytes of padding that leave no payload. -/
theorem encode_decode_paddingOnly :
    let raw : Bytes :=
      [241, 224, 1, 2, 0, 0, 0, 3, 0, 0, 0, 4, 0, 0, 0, 5, 190, 222, 0, 0, 9, 9, 9, 4]
    let p : Packet :=
      { header :=
          { version := 3, padded := true, extended := true, marker := true, payloadType := 96
            sequenceNumber := 258, timestamp := 3, ssrc := 4, csrcs := [5], profile := 48862 }
        trailer := { fill := [9, 9, 9] } }
    decode raw = .ok p ∧ p.encode = .ok raw ∧ p.size = raw.length := by
  intro raw p
  have hp : decode raw = .ok p := by rfl
  exact ⟨hp, (encode_decode raw).2 p hp⟩

end Packet

end NalTransport
