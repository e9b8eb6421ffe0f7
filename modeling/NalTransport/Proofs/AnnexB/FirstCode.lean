import Mathlib.Order.Bounds.Basic
import NalTransport.Proofs.AnnexB.Decomposition

/-! The search goes through the data once and counts zeros. It finds what a plain
search finds: the first place where two zeros and a one stand, and from that one
back as far as there are zeros. -/

namespace NalTransport.AnnexB

theorem drop_codeBytes_append {zeros k : Nat} (h : k ≤ zeros) (rest : Bytes) :
    (codeBytes zeros ++ rest).drop k = codeBytes (zeros - k) ++ rest := by
  simp only [codeBytes, List.append_assoc]
  rw [List.drop_append_of_le_length (by simpa using h), List.drop_replicate]

theorem not_prefix_drop {front : Bytes} (hf : ¬ HasCode front) {n i : Nat}
    (hi : i < front.length + n) (rest : Bytes) :
    ¬ codeBytes 2 <+: (front ++ (codeBytes (n + 2) ++ rest)).drop i := by
  intro h
  by_cases hfront : i < front.length
  · rw [List.drop_append_of_le_length hfront.le] at h
    have hne : front.drop i ≠ [] := by simpa using hfront
    have hinside := prefix_of_prefix_append_codeBytes hne h
    exact hf (hinside.isInfix.trans (List.drop_suffix i front).isInfix)
  · obtain ⟨k, rfl⟩ := Nat.exists_eq_add_of_le (Nat.le_of_not_lt hfront)
    obtain ⟨m, rfl⟩ : ∃ m, n = k + (m + 1) := ⟨n - k - 1, by omega⟩
    -- Of the zeros of the code three are left at least, where two and a one should stand.
    have hzeros : k + (m + 1) + 2 - k = m + 1 + 2 := by omega
    rw [List.drop_length_add_append, drop_codeBytes_append (by omega), hzeros] at h
    exact absurd (prefix_cons_iff.mp h).2.2 (by decide)

theorem isLeast_place {front : Bytes} (hf : ¬ HasCode front) (before rest : Bytes) (n : Nat) :
    IsLeast {i | before.length ≤ i ∧
        codeBytes 2 <+: (before ++ (front ++ (codeBytes (n + 2) ++ rest))).drop i}
      (before.length + (front.length + n)) := by
  refine ⟨⟨Nat.le_add_right _ _, ?_⟩, ?_⟩
  · rw [List.drop_length_add_append, List.drop_length_add_append,
      drop_codeBytes_append (Nat.le_add_right n 2), Nat.add_sub_cancel_left]
    exact List.prefix_append _ _
  · rintro i ⟨hi, hcode⟩
    obtain ⟨i, rfl⟩ := Nat.exists_eq_add_of_le hi
    rw [List.drop_length_add_append] at hcode
    by_contra hlt
    exact not_prefix_drop hf (by omega) rest hcode

theorem isLeast_start {front : Bytes} (hend : front.getLast? ≠ some 0) (before rest : Bytes)
    (zeros : Nat) :
    IsLeast {first | before.length ≤ first ∧
        ∀ b ∈ ((before ++ (front ++ (codeBytes zeros ++ rest))).take
          (before.length + (front.length + zeros))).drop first, b = 0}
      (before.length + front.length) := by
  have htake : (before ++ (front ++ (codeBytes zeros ++ rest))).take
      (before.length + (front.length + zeros)) = before ++ (front ++ List.replicate zeros 0) := by
    rw [List.take_length_add_append, List.take_length_add_append, codeBytes, List.append_assoc,
      List.take_left' List.length_replicate]
  rw [htake]
  refine ⟨⟨Nat.le_add_right _ _, ?_⟩, ?_⟩
  · rw [← List.length_append, ← List.append_assoc, List.drop_left]
    exact fun b hb => List.eq_of_mem_replicate hb
  · rintro first ⟨hfirst, hzeros⟩
    obtain ⟨k, rfl⟩ := Nat.exists_eq_add_of_le hfirst
    by_contra hlt
    have hk : k < front.length := by omega
    rw [List.drop_length_add_append, List.drop_append_of_le_length hk.le] at hzeros
    -- What is left of `front` ends as `front` does, and that is not a zero.
    have hne : front.drop k ≠ [] := by simpa using hk
    have hlast := hzeros _ (List.mem_append_left _ (List.getLast_mem hne))
    rw [List.getLast_drop] at hlast
    exact hend (hlast ▸ List.getLast?_eq_some_getLast _)

/-- The code ends with the one of the first place where two zeros and a one stand, and begins
as far in front of it as there are only zeros, though never in front of `start`. -/
theorem nextStartCode_isLeast (data : Bytes) (start : Nat) :
    (nextStartCode data start = none ↔ ¬ HasCode (data.drop start)) ∧
      (HasCode (data.drop start) → ∃ place code,
        IsLeast {i | start ≤ i ∧ codeBytes 2 <+: data.drop i} place ∧
          nextStartCode data start = some code ∧
          code.start + code.length = place + 2 + 1 ∧
          IsLeast {first | start ≤ first ∧ ∀ b ∈ (data.take (place + 2)).drop first, b = 0}
            code.start ∧
          3 ≤ code.length ∧ start ≤ code.start ∧ start < code.start + code.length) := by
  refine ⟨nextStartCode_eq_none_iff, fun h => ?_⟩
  obtain ⟨front, zeros, rest, hdata, hz, hno, hend⟩ := exists_append_codeBytes h
  obtain ⟨n, rfl⟩ := Nat.exists_eq_add_of_le' hz
  have hlength : (data.take start).length = start := by
    have hlt := congrArg List.length hdata
    simp only [List.length_drop, List.length_append, codeBytes, List.length_singleton] at hlt
    rw [List.length_take]
    omega
  have hsplit : data.take start ++ (front ++ (codeBytes (n + 2) ++ rest)) = data := by
    rw [← hdata, List.take_append_drop]
  have hplace := isLeast_place hno (data.take start) rest n
  have hfirst := isLeast_start hend (data.take start) rest (n + 2)
  have hcode := nextStartCode_of_drop_eq hno hz hdata
  rw [hsplit, hlength] at hplace hfirst
  rw [zeroRun_eq_zero hend, Nat.sub_zero, Nat.zero_add] at hcode
  refine ⟨start + (front.length + n), _, hplace, hcode, ?_, hfirst, ?_⟩
  · simp only
    omega
  · simp only
    omega

/-- The zeros in front of the two are passed over, and of those in front of the one only three
stand at or behind the start. -/
theorem nextStartCode_isLeast_midRun :
    let data : Bytes := [7, 0, 0, 2, 0, 0, 0, 0, 1, 9]
    nextStartCode data 0 = some ⟨4, 5⟩ ∧
      HasCode (data.drop 5) ∧ nextStartCode data 5 = some ⟨5, 4⟩ ∧
      IsLeast {i | 5 ≤ i ∧ codeBytes 2 <+: data.drop i} 6 ∧
      IsLeast {first | 5 ≤ first ∧ ∀ b ∈ (data.take 8).drop first, b = 0} 5 := by
  intro data
  have hcode : HasCode (data.drop 5) := by decide
  have hfound : nextStartCode data 5 = some ⟨5, 4⟩ := by decide
  obtain ⟨place, code, hplace, hnext, hstop, hfirst, -⟩ := (nextStartCode_isLeast data 5).2 hcode
  obtain rfl : ⟨5, 4⟩ = code := Option.some.inj (hfound.symm.trans hnext)
  obtain rfl : place = 6 := by simpa using hstop.symm
  exact ⟨by decide, hcode, hfound, hplace, hfirst⟩

end NalTransport.AnnexB
