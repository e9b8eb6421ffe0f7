import Mathlib.Data.List.GetD
import NalTransport.Proofs.Bounds.Packet
import NalTransport.Proofs.Packet.Buffer

/-! Headers that are cut short. A header says in its own bytes where it ends, so that
no header begins another. Bytes that end before it lack the first of its parts that
they do not hold, and more bytes never lead back to an earlier part. -/

namespace NalTransport.Packet.Header

/-- The parts of a header in the order in which they are read. -/
def parts : List Part := [.fixedHeader, .csrcList, .extensionHead, .extensionBody]

def csrcCount (raw : Bytes) : Nat := (raw.headD 0 % 16).toNat

def hasExtension (raw : Bytes) : Bool := raw.headD 0 / 16 % 2 == 1

/-- The word at `offset`, with zeros for bytes that are not there. -/
def wordAt (raw : Bytes) (offset : Nat) : Nat :=
  (Bytes.word16 (raw.getD offset 0) (raw.getD (offset + 1) 0)).toNat

def wordCount (raw : Bytes) : Nat := wordAt raw (14 + 4 * csrcCount raw)

structure Complete (raw : Bytes) : Prop where
  fixedHeader : 12 ≤ raw.length
  csrcList : 12 + 4 * csrcCount raw ≤ raw.length
  extension : hasExtension raw = true →
    16 + 4 * csrcCount raw ≤ raw.length ∧
      16 + 4 * csrcCount raw + 4 * wordCount raw ≤ raw.length

/-- The bytes end in this part of a header, which needs so many of them. -/
inductive EndsIn (raw : Bytes) : Part → Nat → Prop where
  | fixedHeader : raw.length < 12 → EndsIn raw .fixedHeader 12
  | csrcList : 12 ≤ raw.length → raw.length < 12 + 4 * csrcCount raw →
    EndsIn raw .csrcList (12 + 4 * csrcCount raw)
  | extensionHead : hasExtension raw = true → 12 + 4 * csrcCount raw ≤ raw.length →
    raw.length < 16 + 4 * csrcCount raw → EndsIn raw .extensionHead (16 + 4 * csrcCount raw)
  | extensionBody : hasExtension raw = true → 16 + 4 * csrcCount raw ≤ raw.length →
    raw.length < 16 + 4 * csrcCount raw + 4 * wordCount raw →
    EndsIn raw .extensionBody (16 + 4 * csrcCount raw + 4 * wordCount raw)

theorem complete_or_endsIn (raw : Bytes) :
    Complete raw ∨ ∃ part needed, EndsIn raw part needed := by
  by_cases hfixed : 12 ≤ raw.length
  · by_cases hlist : 12 + 4 * csrcCount raw ≤ raw.length
    · cases hx : hasExtension raw with
      | false => exact .inl ⟨hfixed, hlist, by simp [hx]⟩
      | true =>
        by_cases hhead : 16 + 4 * csrcCount raw ≤ raw.length
        · by_cases hbody : 16 + 4 * csrcCount raw + 4 * wordCount raw ≤ raw.length
          · exact .inl ⟨hfixed, hlist, fun _ => ⟨hhead, hbody⟩⟩
          · exact .inr ⟨_, _, .extensionBody hx hhead (Nat.lt_of_not_le hbody)⟩
        · exact .inr ⟨_, _, .extensionHead hx hlist (Nat.lt_of_not_le hhead)⟩
    · exact .inr ⟨_, _, .csrcList hfixed (Nat.lt_of_not_le hlist)⟩
  · exact .inr ⟨_, _, .fixedHeader (Nat.lt_of_not_le hfixed)⟩

theorem EndsIn.length_lt {raw : Bytes} {part : Part} {needed : Nat} (h : EndsIn raw part needed) :
    raw.length < needed := by
  cases h <;> assumption

theorem EndsIn.mem_parts {raw : Bytes} {part : Part} {needed : Nat} (h : EndsIn raw part needed) :
    part ∈ parts := by
  cases h <;> decide

theorem length_drop_lt_iff {raw : Bytes} {start size : Nat} (h : start ≤ raw.length) :
    (raw.drop start).length < size ↔ raw.length < start + size := by
  rw [List.length_drop]
  omega

theorem wordAt_drop (raw : Bytes) (start offset : Nat) :
    wordAt (raw.drop start) offset = wordAt raw (start + offset) := by
  simp only [wordAt, List.getD_eq_getElem?_getD, List.getElem?_drop, Nat.add_assoc]

theorem decodeExtension_of_lt {offset total : Nat} {block : Bytes} (h : block.length < 4) :
    decodeExtension offset total block = .error (.truncated .extensionHead (offset + 4) total) := by
  unfold decodeExtension
  split
  · simp only [List.length_cons] at h
    omega
  · rfl

/-- Behind the fixed bytes the reader goes by what the first of them has announced. -/
theorem exists_decode_eq_decodeVariable {raw : Bytes} (h : 12 ≤ raw.length) :
    ∃ header : Header, header.extended = hasExtension raw ∧
      decode raw = decodeVariable raw.length (csrcCount raw) (raw.drop 12) header := by
  obtain ⟨b0, b1, n1, n0, rest, rfl, h2⟩ := Access.exists_cons4_of_le (n := 2) h
  obtain ⟨t3, t2, t1, t0, rest, rfl, h1⟩ := Access.exists_cons4_of_le h2
  obtain ⟨s3, s2, s1, s0, rest, rfl, -⟩ := Access.exists_cons4_of_le h1
  let header : Header :=
    { version := b0 / 64
      padded := b0 / 32 % 2 == 1
      extended := b0 / 16 % 2 == 1
      marker := b1 / 128 == 1
      payloadType := b1 % 128
      sequenceNumber := Bytes.word16 n1 n0
      timestamp := Bytes.word32 t3 t2 t1 t0
      ssrc := Bytes.word32 s3 s2 s1 s0 }
  exact ⟨header, rfl, rfl⟩

theorem exists_decode_eq_of_list {raw : Bytes} (h : 12 + 4 * csrcCount raw ≤ raw.length) :
    ∃ header : Header, decode raw =
      if hasExtension raw then
        (decodeExtension (12 + 4 * csrcCount raw) raw.length
          (raw.drop (12 + 4 * csrcCount raw))).map
            fun (profile, extension) => { header with profile, extension }
      else .ok header := by
  have hfixed : 12 ≤ raw.length := by omega
  obtain ⟨header, hx, hd⟩ := exists_decode_eq_decodeVariable hfixed
  refine ⟨{ header with csrcs := Bytes.words32 ((raw.drop 12).take (4 * csrcCount raw)) }, ?_⟩
  simp only [hd, decodeVariable, Access.length_take_lt_iff, length_drop_lt_iff hfixed,
    if_neg (Nat.not_lt.mpr h), hx, fixedSize, List.drop_drop]
  split
  · cases decodeExtension (12 + 4 * csrcCount raw) raw.length
      (raw.drop (12 + 4 * csrcCount raw)) <;> rfl
  · rfl

theorem exists_decodeExtension_eq {raw : Bytes} (h : 16 + 4 * csrcCount raw ≤ raw.length) :
    ∃ extension, decodeExtension (12 + 4 * csrcCount raw) raw.length
        (raw.drop (12 + 4 * csrcCount raw)) =
      if raw.length < 16 + 4 * csrcCount raw + 4 * wordCount raw then
        .error (.truncated .extensionBody (16 + 4 * csrcCount raw + 4 * wordCount raw) raw.length)
      else .ok extension := by
  have hlen := List.length_drop (i := 12 + 4 * csrcCount raw) (l := raw)
  have hhead : 4 * (0 + 1) ≤ (raw.drop (12 + 4 * csrcCount raw)).length := by omega
  obtain ⟨p1, p0, n1, n0, rest, hblock, -⟩ := Access.exists_cons4_of_le hhead
  have hcount : wordCount raw = (Bytes.word16 n1 n0).toNat := by
    have hword := wordAt_drop raw (12 + 4 * csrcCount raw) 2
    rw [Nat.add_right_comm, hblock] at hword
    exact hword.symm
  rw [hblock] at hlen ⊢
  simp only [List.length_cons] at hlen
  have hshort : rest.length < 4 * wordCount raw ↔
      raw.length < 16 + 4 * csrcCount raw + 4 * wordCount raw := by omega
  have hneeded : 12 + 4 * csrcCount raw + 4 + 4 * wordCount raw =
      16 + 4 * csrcCount raw + 4 * wordCount raw := by omega
  refine ⟨(Bytes.word16 p1 p0, rest.take (4 * wordCount raw)), ?_⟩
  simp only [decodeExtension, Access.length_take_lt_iff, ← hcount, hshort, hneeded]

theorem decode_of_endsIn {raw : Bytes} {part : Part} {needed : Nat} (h : EndsIn raw part needed) :
    decode raw = .error (.truncated part needed raw.length) := by
  cases h with
  | fixedHeader hlt =>
    unfold decode
    split
    · simp only [List.length_cons] at hlt
      omega
    · rfl
  | csrcList hfixed hlt =>
    obtain ⟨header, -, hd⟩ := exists_decode_eq_decodeVariable hfixed
    simp only [hd, decodeVariable, Access.length_take_lt_iff, length_drop_lt_iff hfixed, if_pos hlt,
      fixedSize]
  | extensionHead hx hlist hlt =>
    obtain ⟨header, hd⟩ := exists_decode_eq_of_list hlist
    have hneeded : 12 + 4 * csrcCount raw + 4 = 16 + 4 * csrcCount raw := by omega
    have hblock : (raw.drop (12 + 4 * csrcCount raw)).length < 4 := by
      rwa [length_drop_lt_iff hlist, hneeded]
    rw [hd, if_pos hx, decodeExtension_of_lt hblock, hneeded]
    rfl
  | extensionBody hx hhead hlt =>
    have hlist : 12 + 4 * csrcCount raw ≤ raw.length := by omega
    obtain ⟨header, hd⟩ := exists_decode_eq_of_list hlist
    obtain ⟨extension, he⟩ := exists_decodeExtension_eq hhead
    rw [hd, if_pos hx, he, if_pos hlt]
    rfl

theorem exists_decode_iff {raw : Bytes} : (∃ h, decode raw = .ok h) ↔ Complete raw := by
  constructor
  · rintro ⟨h, hd⟩
    rcases complete_or_endsIn raw with hc | ⟨part, needed, he⟩
    · exact hc
    · simp [decode_of_endsIn he] at hd
  · intro hc
    obtain ⟨header, hd⟩ := exists_decode_eq_of_list hc.csrcList
    cases hx : hasExtension raw with
    | false => exact ⟨header, by rw [hd, hx]; rfl⟩
    | true =>
      obtain ⟨hhead, hbody⟩ := hc.extension hx
      obtain ⟨extension, he⟩ := exists_decodeExtension_eq hhead
      rw [hd, if_pos hx, he, if_neg (Nat.not_lt.mpr hbody)]
      exact ⟨_, rfl⟩

theorem csrcCount_append {raw : Bytes} (h : 0 < raw.length) (more : Bytes) :
    csrcCount (raw ++ more) = csrcCount raw := by
  obtain ⟨b, rest, rfl, -⟩ := Access.exists_cons_of_lt h
  rfl

theorem hasExtension_append {raw : Bytes} (h : 0 < raw.length) (more : Bytes) :
    hasExtension (raw ++ more) = hasExtension raw := by
  obtain ⟨b, rest, rfl, -⟩ := Access.exists_cons_of_lt h
  rfl

theorem wordCount_append {raw : Bytes} (h : 16 + 4 * csrcCount raw ≤ raw.length) (more : Bytes) :
    wordCount (raw ++ more) = wordCount raw := by
  rw [wordCount, wordCount, csrcCount_append (by omega), wordAt, wordAt,
    List.getD_append _ _ _ _ (by omega), List.getD_append _ _ _ _ (by omega)]

theorem EndsIn.append {raw : Bytes} {part : Part} {needed : Nat} (h : EndsIn raw part needed)
    {more : Bytes} (hl : (raw ++ more).length < needed) : EndsIn (raw ++ more) part needed := by
  have hlen : raw.length ≤ (raw ++ more).length := by simp
  cases h with
  | fixedHeader => exact .fixedHeader hl
  | csrcList hfixed =>
    rw [← csrcCount_append (by omega) more] at hl ⊢
    exact .csrcList (by omega) hl
  | extensionHead hx hlist =>
    rw [← csrcCount_append (by omega) more] at hlist hl ⊢
    rw [← hasExtension_append (by omega) more] at hx
    exact .extensionHead hx (by omega) hl
  | extensionBody hx hhead =>
    rw [← wordCount_append hhead more] at hl ⊢
    rw [← csrcCount_append (by omega) more] at hhead hl ⊢
    rw [← hasExtension_append (by omega) more] at hx
    exact .extensionBody hx (by omega) hl

/-- Bytes that fill up the part that was cut short are accepted or end in one behind it. -/
theorem EndsIn.sublist_parts {raw : Bytes} {part later : Part} {needed needed' : Nat}
    (h : EndsIn raw part needed) {more : Bytes} (hl : needed ≤ (raw ++ more).length)
    (h' : EndsIn (raw ++ more) later needed') : [part, later].Sublist parts := by
  have hlen : raw.length ≤ (raw ++ more).length := by simp
  have hcount (hpos : 0 < raw.length) := csrcCount_append hpos more
  -- What a part announces stays as it is, so the parts up to the filled one are complete.
  cases h with
  | fixedHeader =>
    cases h' with
    | fixedHeader => omega
    | csrcList | extensionHead | extensionBody => decide
  | csrcList hfixed =>
    have hcount := hcount (by omega)
    cases h' with
    | fixedHeader | csrcList => omega
    | extensionHead | extensionBody => decide
  | extensionHead hx hlist =>
    have hcount := hcount (by omega)
    cases h' with
    | fixedHeader | csrcList | extensionHead => omega
    | extensionBody => decide
  | extensionBody hx hhead =>
    have hcount := hcount (by omega)
    have hwords := wordCount_append hhead more
    cases h' with
    | fixedHeader | csrcList | extensionHead | extensionBody => omega

theorem decode_of_prefix {raw other : Bytes} {h : Header} (hd : decode raw = .ok h)
    (hp : raw.take h.size <+: other) : decode other = .ok h := by
  obtain ⟨hf, rest, rfl⟩ := bytes_of_decode hd
  rw [List.take_left' h.length_bytes] at hp
  obtain ⟨rest', rfl⟩ := hp
  rw [decode_bytes_append hf] at hd ⊢
  exact hd

theorem exists_error_of_lt_size {raw : Bytes} {h : Header} (hd : decode raw = .ok h) {n : Nat}
    (hn : n < h.size) : ∃ e, decode (raw.take n) = .error e := by
  cases ht : decode (raw.take n) with
  | error e => exact ⟨e, rfl⟩
  | ok other =>
    -- A header in front of the cut would be that of all the bytes.
    have hsame : decode raw = .ok other :=
      decode_of_prefix ht ((List.take_prefix _ _).trans (List.take_prefix n raw))
    obtain rfl : h = other := Except.ok.inj (hd.symm.trans hsame)
    have hle := size_le_of_decode ht
    rw [List.length_take] at hle
    omega

/-- Bytes are refused for the first part that they do not hold, and they are refused for it
until they hold it. -/
theorem decode_selfDelimiting (raw : Bytes) :
    ((∃ h, decode raw = .ok h) ↔
      12 ≤ raw.length ∧ 12 + 4 * csrcCount raw ≤ raw.length ∧
        (hasExtension raw = true → 16 + 4 * csrcCount raw ≤ raw.length ∧
          16 + 4 * csrcCount raw + 4 * wordCount raw ≤ raw.length)) ∧
    (∀ h, decode raw = .ok h →
      h.size ≤ raw.length ∧ h.encode = .ok (raw.take h.size) ∧
        (∀ other, raw.take h.size <+: other → decode other = .ok h) ∧
        ∀ n < h.size, ∃ e, decode (raw.take n) = .error e) ∧
    ∀ e, decode raw = .error e → ∃ part ∈ parts, ∃ needed,
      e = .truncated part needed raw.length ∧ raw.length < needed ∧
        ∀ more,
          ((raw ++ more).length < needed →
            decode (raw ++ more) = .error (.truncated part needed (raw ++ more).length)) ∧
          (needed ≤ (raw ++ more).length →
            (∃ h, decode (raw ++ more) = .ok h) ∨
              ∃ later needed', [part, later].Sublist parts ∧
                decode (raw ++ more) =
                  .error (.truncated later needed' (raw ++ more).length)) := by
  refine ⟨?_, fun h hd => ?_, fun e hd => ?_⟩
  · rw [exists_decode_iff]
    exact ⟨fun h => ⟨h.1, h.2, h.3⟩, fun ⟨hfixed, hlist, hx⟩ => ⟨hfixed, hlist, hx⟩⟩
  · refine ⟨size_le_of_decode hd, ?_, fun other => decode_of_prefix hd,
      fun n => exists_error_of_lt_size hd⟩
    obtain ⟨hf, rest, rfl⟩ := bytes_of_decode hd
    exact Header.encode_eq_ok_iff.mpr ⟨hf, (List.take_left' h.length_bytes).symm⟩
  · rcases complete_or_endsIn raw with hc | ⟨part, needed, he⟩
    · obtain ⟨h, hok⟩ := exists_decode_iff.mpr hc
      simp [hok] at hd
    · rw [decode_of_endsIn he] at hd
      refine ⟨part, he.mem_parts, needed, (Except.error.inj hd).symm, he.length_lt,
        fun more => ⟨?_, ?_⟩⟩
      · exact fun hl => decode_of_endsIn (he.append hl)
      · intro hl
        rcases complete_or_endsIn (raw ++ more) with hc | ⟨later, needed', he'⟩
        · exact .inl (exists_decode_iff.mpr hc)
        · exact .inr ⟨later, needed', he.sublist_parts hl he', decode_of_endsIn he'⟩

/-- One identifier and one word of extension, of which a single byte has arrived. -/
theorem decode_selfDelimiting_cutShort :
    let raw : Bytes := [145, 96, 0, 1, 0, 0, 0, 2, 0, 0, 0, 3, 0, 0, 0, 7, 190, 222, 0, 1, 9]
    let whole : Bytes := raw ++ [8, 7, 6, 5]
    let h : Header :=
      { version := 2, extended := true, marker := false, payloadType := 96, sequenceNumber := 1
        timestamp := 2, ssrc := 3, csrcs := [7], profile := 48862, extension := [9, 8, 7, 6] }
    decode raw = .error (.truncated .extensionBody 24 21) ∧
      decode (raw ++ [8, 7]) = .error (.truncated .extensionBody 24 23) ∧
      decode whole = .ok h ∧ h.encode = .ok (whole.take 24) ∧
      ∃ e, decode (whole.take 23) = .error e := by
  intro raw whole h
  have hcut : decode raw = .error (.truncated .extensionBody 24 21) := by rfl
  have hwhole : decode whole = .ok h := by rfl
  obtain ⟨part, -, needed, he, -, hmore⟩ := (decode_selfDelimiting raw).2.2 _ hcut
  obtain ⟨rfl, rfl, -⟩ := WireError.truncated.inj he
  obtain ⟨-, hencode, -, hprefix⟩ := (decode_selfDelimiting whole).2.1 h hwhole
  exact ⟨hcut, (hmore [8, 7]).1 (by decide), hwhole, hencode, hprefix 23 (by decide)⟩

end NalTransport.Packet.Header
