import Mathlib.Data.List.Induction
import Mathlib.Tactic.SplitIfs
import NalTransport.AnnexB.Stream

/-! What the search for a start code finds. The zeros that it has counted stand
for a run of zero bytes in front of the data, so that one reading of the data
with that run serves every step. -/

namespace NalTransport.AnnexB

theorem codeBytes_two : codeBytes 2 = [0, 0, 1] := rfl

theorem hasCode_cons {b : UInt8} {data : Bytes} :
    HasCode (b :: data) ↔ codeBytes 2 <+: b :: data ∨ HasCode data :=
  List.infix_cons_iff

theorem HasCode.of_append_left {data : Bytes} (front : Bytes) (h : HasCode data) :
    HasCode (front ++ data) :=
  h.trans (List.suffix_append front data).isInfix

theorem hasCode_zeros_one {zeros : Nat} (h : 2 ≤ zeros) (rest : Bytes) :
    HasCode (List.replicate zeros 0 ++ 1 :: rest) := by
  obtain ⟨n, rfl⟩ := Nat.exists_eq_add_of_le' h
  refine ⟨List.replicate n 0, rest, ?_⟩
  rw [← List.replicate_append_replicate]
  simp [codeBytes]

theorem hasCode_zeros_cons {b : UInt8} (hb : b ≠ 0) {zeros : Nat} (hz : ¬ (b = 1 ∧ 2 ≤ zeros))
    (rest : Bytes) : HasCode (List.replicate zeros 0 ++ b :: rest) ↔ HasCode rest := by
  refine ⟨fun h => ?_, fun h => ?_⟩
  · induction zeros with
    | zero =>
      rcases hasCode_cons.mp h with h | h
      · rw [codeBytes_two, List.cons_prefix_cons] at h
        exact absurd h.1.symm hb
      · exact h
    | succ zeros ih =>
      rw [List.replicate_succ, List.cons_append, hasCode_cons] at h
      rcases h with h | h
      · -- A code at the front has `b` in its second or third place, or zeros in all three.
        rw [codeBytes_two, List.cons_prefix_cons] at h
        match zeros, h.2 with
        | 0, h => exact absurd (List.cons_prefix_cons.mp h).1.symm hb
        | 1, h =>
          have hone := (List.cons_prefix_cons.mp (List.cons_prefix_cons.mp h).2).1
          exact absurd ⟨hone.symm, Nat.le_refl 2⟩ hz
        | zeros + 2, h =>
          have hone := (List.cons_prefix_cons.mp (List.cons_prefix_cons.mp h).2).1
          exact absurd hone (by decide)
      · exact ih (fun hc => hz ⟨hc.1, by omega⟩) h
  · exact (h.of_append_left [b]).of_append_left _

theorem zeros_append_zero (zeros : Nat) (rest : Bytes) :
    List.replicate zeros (0 : UInt8) ++ 0 :: rest = List.replicate (zeros + 1) 0 ++ rest := by
  rw [List.replicate_succ', List.append_assoc]
  rfl

theorem searchFrom_eq_none_iff {data : Bytes} {i zeros : Nat} :
    searchFrom i zeros data = none ↔ ¬ HasCode (List.replicate zeros 0 ++ data) := by
  induction data generalizing i zeros with
  | nil =>
    have hno : ¬ HasCode (List.replicate zeros 0 ++ []) := by
      intro h
      have hone : (1 : UInt8) ∈ List.replicate zeros 0 ++ [] := h.subset (by decide)
      simp at hone
    simpa [searchFrom] using hno
  | cons b data ih =>
    simp only [searchFrom]
    split_ifs with hb hc
    · subst hb
      rw [ih, zeros_append_zero]
    · obtain ⟨rfl, hz⟩ := hc
      simpa using hasCode_zeros_one hz data
    · rw [ih, hasCode_zeros_cons hb hc]
      rfl

/-- The zeros at the end of the data, of a run that may have begun in front of it. -/
def zeroRun (zeros : Nat) (data : Bytes) : Nat :=
  data.foldl (fun zeros b => if b = 0 then zeros + 1 else 0) zeros

theorem zeroRun_le (zeros : Nat) (data : Bytes) : zeroRun zeros data ≤ zeros + data.length := by
  induction data generalizing zeros with
  | nil => exact Nat.le_refl _
  | cons b data ih =>
    have h := ih (if b = 0 then zeros + 1 else 0)
    simp only [zeroRun, List.foldl_cons, List.length_cons] at h ⊢
    split_ifs at h ⊢ <;> omega

theorem zeroRun_eq_zero {data : Bytes} (h : data.getLast? ≠ some 0) : zeroRun 0 data = 0 := by
  cases data using List.reverseRecOn with
  | nil => rfl
  | append_singleton data b =>
    have hb : b ≠ 0 := by simpa using h
    simp [zeroRun, hb]

theorem searchFrom_append {data : Bytes} {zeros : Nat}
    (h : ¬ HasCode (List.replicate zeros 0 ++ data)) (i : Nat) (rest : Bytes) :
    searchFrom i zeros (data ++ rest) =
      searchFrom (i + data.length) (zeroRun zeros data) rest := by
  induction data generalizing i zeros with
  | nil => rfl
  | cons b data ih =>
    have hlen : i + (b :: data).length = i + 1 + data.length := by
      rw [List.length_cons]
      omega
    rw [hlen]
    simp only [List.cons_append, searchFrom, zeroRun, List.foldl_cons]
    split_ifs with hb hc
    · subst hb
      rw [zeros_append_zero] at h
      exact ih h (i + 1)
    · obtain ⟨rfl, hz⟩ := hc
      exact absurd (hasCode_zeros_one hz data) h
    · rw [hasCode_zeros_cons hb hc] at h
      exact ih (by simpa using h) (i + 1)

theorem searchFrom_codeBytes (i zeros : Nat) {n : Nat} (hn : 2 ≤ zeros + n) (rest : Bytes) :
    searchFrom i zeros (codeBytes n ++ rest) = some ⟨i + n - (zeros + n), zeros + n + 1⟩ := by
  induction n generalizing i zeros with
  | zero => simp only [Nat.add_zero] at hn; simp [codeBytes, searchFrom, hn]
  | succ n ih =>
    have h := ih (i + 1) (zeros + 1) (by omega)
    rw [show zeros + 1 + n = zeros + (n + 1) by omega,
      show i + 1 + n = i + (n + 1) by omega] at h
    simpa [codeBytes, searchFrom, List.replicate_succ] using h

/-- Zeros at the end of what stands in front of a start code belong to the code. -/
theorem nextStartCode_of_drop_eq {data front rest : Bytes} {start n : Nat} (hf : ¬ HasCode front)
    (hn : 2 ≤ n) (h : data.drop start = front ++ (codeBytes n ++ rest)) :
    nextStartCode data start =
      some ⟨start + front.length - zeroRun 0 front, zeroRun 0 front + n + 1⟩ := by
  rw [nextStartCode, h, searchFrom_append (by simpa using hf), searchFrom_codeBytes _ _ (by omega),
    Nat.add_sub_add_right]

theorem nextStartCode_append {front : Bytes} (hf : ¬ HasCode front) {n : Nat} (hn : 2 ≤ n)
    (rest : Bytes) :
    nextStartCode (front ++ (codeBytes n ++ rest)) 0 =
      some ⟨front.length - zeroRun 0 front, zeroRun 0 front + n + 1⟩ := by
  rw [nextStartCode_of_drop_eq hf hn List.drop_zero, Nat.zero_add]

theorem nextStartCode_eq_none_iff {data : Bytes} {start : Nat} :
    nextStartCode data start = none ↔ ¬ HasCode (data.drop start) := by
  rw [nextStartCode, searchFrom_eq_none_iff, List.replicate_zero, List.nil_append]

instance (data : Bytes) : Decidable (HasCode data) :=
  decidable_of_iff (nextStartCode data 0 ≠ none) (by rw [ne_eq, nextStartCode_eq_none_iff, not_not]; rfl)

end NalTransport.AnnexB
