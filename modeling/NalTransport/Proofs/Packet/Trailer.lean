import NalTransport.Proofs.Packet.Buffer
import NalTransport.Proofs.Packet.Canonical

/-! Padding by itself, in front of nothing and behind anything. The count at the
end says where it begins, so that the bytes before it never matter, and the one
form that is read but not written again is a count of one. -/

namespace NalTransport

namespace Packet.Trailer

theorem drop_append_counted (t : Trailer) (front : Bytes) :
    (front ++ t.counted).drop ((front ++ t.counted).length - (t.fill.length + 1)) = t.counted := by
  apply List.drop_left'
  rw [List.length_append, length_counted, Nat.add_sub_cancel]

theorem encode_eq_counted {t : Trailer} (hpos : 1 ≤ t.fill.length) (hmax : t.fill.length ≤ 254) :
    t.encode = .ok t.counted := by
  have hfill : t.fill ≠ [] := List.ne_nil_of_length_pos hpos
  refine encode_eq_ok_iff.mpr ⟨size_le_maxSize_iff.mpr hmax, ?_⟩
  rw [bytes, if_neg hfill, size, if_neg hfill, counted]

/-- The count is the size, the count itself included. -/
theorem decode_append_encode {t : Trailer} (hpos : 1 ≤ t.fill.length)
    (hmax : t.fill.length ≤ 254) :
    ∃ raw, t.encode = .ok raw ∧ raw.getLast?.map UInt8.toNat = some t.size ∧
      ∀ front, decode (front ++ raw) = .ok t := by
  have hcount : t.fill.length + 1 ≤ maxSize := Nat.succ_le_succ hmax
  have hsize : t.size = t.fill.length + 1 := if_neg (List.ne_nil_of_length_pos hpos)
  refine ⟨t.counted, encode_eq_counted hpos hmax, ?_, decode_append_counted hcount⟩
  have hlast := getLast?_append_counted t []
  rw [List.nil_append] at hlast
  rw [hlast, Option.map_some, toNat_count hcount, hsize]

theorem drop_of_decode {body : Bytes} {t : Trailer} {count : UInt8}
    (h : decode body = .ok t) (hlast : body.getLast? = some count) :
    count.toNat = t.fill.length + 1 ∧ t.fill.length ≤ 254 ∧
      body.drop (body.length - count.toNat) = t.counted := by
  obtain ⟨hmax, front, rfl⟩ := counted_of_decode h
  rw [getLast?_append_counted, Option.some.injEq] at hlast
  subst hlast
  rw [toNat_count hmax]
  exact ⟨rfl, Nat.le_of_succ_le_succ hmax, drop_append_counted t front⟩

theorem encode_of_decode {body : Bytes} {t : Trailer} {count : UInt8}
    (h : decode body = .ok t) (hlast : body.getLast? = some count) :
    (2 ≤ count.toNat → t.encode = .ok (body.drop (body.length - count.toNat))) ∧
      (count = 1 → t = {} ∧ t.encode = .ok []) := by
  obtain ⟨hcount, hmax, hdrop⟩ := drop_of_decode h hlast
  constructor
  · intro htwo
    rw [hdrop]
    exact encode_eq_counted (by omega) hmax
  · rintro rfl
    have hfill : t.fill.length = 0 := (Nat.succ.inj hcount).symm
    obtain rfl : t = {} := congrArg Trailer.mk (List.length_eq_zero_iff.mp hfill)
    exact ⟨rfl, rfl⟩

theorem decode_eq_error_iff {body : Bytes} {e : WireError} :
    decode body = .error e ↔
      (body = [] ∧ .truncated .padding 1 0 = e) ∨
        ∃ count, body.getLast? = some count ∧
          ((count = 0 ∧ .paddingCountZero = e) ∨
            (body.length < count.toNat ∧ .truncated .padding count.toNat body.length = e)) := by
  unfold decode
  cases hlast : body.getLast? with
  | none => simp [List.getLast?_eq_none_iff.mp hlast]
  | some count =>
    have hne : body ≠ [] := fun h => by simp [h] at hlast
    by_cases hzero : count = 0
    · simp [hne, hzero]
    · by_cases hl : body.length < count.toNat <;> simp [hne, hzero, hl]

theorem encode_of_overlong {t : Trailer} (h : 255 ≤ t.fill.length) :
    t.encode = .error (.paddingTooLong (t.fill.length + 1)) ∧
      ∀ buffer, t.writeTo buffer = ⟨.error (.paddingTooLong (t.fill.length + 1)), buffer⟩ := by
  have hsize : t.size = t.fill.length + 1 := if_neg (List.ne_nil_of_length_pos (by omega))
  have hmax : maxSize < t.size := by
    rw [hsize, maxSize]
    omega
  rw [← hsize]
  exact ⟨encode_eq_error_iff.mpr ⟨hmax, rfl⟩, writeTo_of_lt_size hmax⟩

/-- Where padding begins, what of it is written again, and how reading and writing it fail. -/
theorem padding_exact :
    (∀ t : Trailer, 1 ≤ t.fill.length → t.fill.length ≤ 254 →
      ∃ raw, t.encode = .ok raw ∧ raw.getLast?.map UInt8.toNat = some t.size ∧
        ∀ front, decode (front ++ raw) = .ok t) ∧
    (∀ body : Bytes, (∃ t, decode body = .ok t) ↔
      ∃ count, body.getLast? = some count ∧ 1 ≤ count.toNat ∧ count.toNat ≤ body.length) ∧
    (∀ (body : Bytes) (t : Trailer) (count : UInt8),
      decode body = .ok t → body.getLast? = some count →
        (2 ≤ count.toNat → t.encode = .ok (body.drop (body.length - count.toNat))) ∧
          (count = 1 → t = {} ∧ t.encode = .ok [])) ∧
    (∀ (body : Bytes) (e : WireError), decode body = .error e ↔
      (body = [] ∧ .truncated .padding 1 0 = e) ∨
        ∃ count, body.getLast? = some count ∧
          ((count = 0 ∧ .paddingCountZero = e) ∨
            (body.length < count.toNat ∧ .truncated .padding count.toNat body.length = e))) ∧
    (∀ t : Trailer, 255 ≤ t.fill.length →
      t.encode = .error (.paddingTooLong (t.fill.length + 1)) ∧
        ∀ buffer, t.writeTo buffer = ⟨.error (.paddingTooLong (t.fill.length + 1)), buffer⟩) :=
  ⟨fun _ => decode_append_encode, fun _ => exists_decode_iff, fun _ _ _ => encode_of_decode,
    fun _ _ => decode_eq_error_iff, fun _ => encode_of_overlong⟩

/-- Behind payload bytes that look like a count, a bare count of one, and the first length that
does not fit. -/
theorem padding_exact_ends :
    (∃ raw, encode ⟨[0, 0]⟩ = .ok raw ∧ decode ([17, 2, 51] ++ raw) = .ok ⟨[0, 0]⟩) ∧
      encode ⟨[0, 0]⟩ = .ok (([17, 2, 51, 0, 0, 3] : Bytes).drop (6 - 3)) ∧
      decode [66, 1] = .ok {} ∧ encode {} = .ok [] ∧
      decode [0, 5] = .error (.truncated .padding 5 2) ∧
      encode ⟨List.replicate 255 0⟩ = .error (.paddingTooLong 256) := by
  obtain ⟨hwrite, -, hread, hfail, hlong⟩ := padding_exact
  obtain ⟨raw, he, -, hd⟩ := hwrite ⟨[0, 0]⟩ (by decide) (by decide)
  have htail : decode [17, 2, 51, 0, 0, 3] = .ok ⟨[0, 0]⟩ := rfl
  have hbare : decode [66, 1] = .ok {} := rfl
  have h255 : (List.replicate 255 (0 : UInt8)).length = 255 := List.length_replicate
  refine ⟨⟨raw, he, hd _⟩, (hread _ _ 3 htail rfl).1 (by decide), hbare,
    ((hread _ _ 1 hbare rfl).2 rfl).2,
    (hfail _ _).mpr (.inr ⟨5, rfl, .inr ⟨by decide, rfl⟩⟩), ?_⟩
  have h := (hlong ⟨List.replicate 255 0⟩ (Nat.le_of_eq h255.symm)).1
  rwa [h255] at h

end Packet.Trailer

end NalTransport
