import NalTransport.AnnexB.Scanner
import NalTransport.Proofs.AnnexB.Search

/-! The units that are read off a stream are those it was written from, however
long its start codes are and whatever stands in front of the first. -/

namespace NalTransport.AnnexB

/-- Units that a reader can tell apart: no unit holds a start code, and only the
last may end in a zero, which would else belong to the start code behind it. -/
def Separable (units : List Bytes) : Prop :=
  (∀ unit ∈ units, ¬ HasCode unit) ∧ ∀ unit ∈ units.dropLast, unit.getLast? ≠ some 0

theorem Separable.of_forall {units : List Bytes}
    (h : ∀ unit ∈ units, ¬ HasCode unit ∧ unit.getLast? ≠ some 0) : Separable units :=
  ⟨fun unit hu => (h unit hu).1, fun unit hu => (h unit (List.dropLast_subset _ hu)).2⟩

theorem separable_cons_iff {unit : Bytes} {units : List Bytes} :
    Separable (unit :: units) ↔
      ¬ HasCode unit ∧ (units ≠ [] → unit.getLast? ≠ some 0) ∧ Separable units := by
  cases units with
  | nil => simp [Separable]
  | cons next units =>
    simp only [Separable, List.dropLast_cons_cons, List.forall_mem_cons, ne_eq, reduceCtorEq,
      not_false_eq_true, true_implies]
    constructor
    · rintro ⟨⟨hu, hn, hrest⟩, hend, hends⟩
      exact ⟨hu, hend, ⟨hn, hrest⟩, hends⟩
    · rintro ⟨hu, hend, ⟨hn, hrest⟩, hends⟩
      exact ⟨⟨hu, hn, hrest⟩, hend, hends⟩

theorem Separable.tail {unit : Bytes} {units : List Bytes} (h : Separable (unit :: units)) :
    Separable units :=
  (separable_cons_iff.mp h).2.2

theorem unitsOnto_none : Scanner.unitsOnto [] ⟨none⟩ = [] :=
  Scanner.unitsOnto_of_next?_none rfl

theorem unitsOnto_last {unit : Bytes} (h : ¬ HasCode unit) :
    Scanner.unitsOnto [] ⟨some unit⟩ = [unit] := by
  have hcode : nextStartCode unit 0 = none := nextStartCode_eq_none_iff.mpr h
  have hnext : (⟨some unit⟩ : Scanner).next? = some (unit, ⟨none⟩) := by
    simp only [Scanner.next?, hcode]
  rw [Scanner.unitsOnto_of_next?_some hnext, unitsOnto_none]

theorem units_of_not_hasCode {data : Bytes} (h : ¬ HasCode data) : AnnexB.units data = [data] := by
  have hcode : nextStartCode data 0 = none := nextStartCode_eq_none_iff.mpr h
  rw [AnnexB.units, Scanner.ofBytes, hcode]
  exact unitsOnto_last h

theorem unitsOnto_append_codeBytes {unit : Bytes} (h : ¬ HasCode unit)
    (hz : unit.getLast? ≠ some 0) {n : Nat} (hn : 2 ≤ n) (rest : Bytes) :
    Scanner.unitsOnto [] ⟨some (unit ++ (codeBytes n ++ rest))⟩ =
      unit :: Scanner.unitsOnto [] ⟨some rest⟩ := by
  have hcode := nextStartCode_append h hn rest
  rw [zeroRun_eq_zero hz, Nat.sub_zero, Nat.zero_add] at hcode
  have hdrop : (unit ++ (codeBytes n ++ rest)).drop (unit.length + (n + 1)) = rest := by
    rw [← List.append_assoc]
    exact List.drop_left' (by simp [codeBytes])
  have hnext : (⟨some (unit ++ (codeBytes n ++ rest))⟩ : Scanner).next? =
      some (unit, ⟨some rest⟩) := by
    simp only [Scanner.next?, hcode, StartCode.stop, hdrop, List.take_left]
  exact Scanner.unitsOnto_of_next?_some hnext

theorem unitsOnto_stream {unit : Bytes} {units : List (Nat × Bytes)}
    (hs : Separable (unit :: units.map (·.2))) (hz : ∀ u ∈ units, 2 ≤ u.1) :
    Scanner.unitsOnto [] ⟨some (unit ++ stream units)⟩ = unit :: units.map (·.2) := by
  induction units generalizing unit with
  | nil => simpa [stream_nil] using unitsOnto_last (hs.1 unit List.mem_cons_self)
  | cons next units ih =>
    obtain ⟨zeros, next⟩ := next
    have hend : unit.getLast? ≠ some 0 := hs.2 unit (by simp)
    have hzeros : 2 ≤ zeros := hz (zeros, next) List.mem_cons_self
    have hi := ih hs.tail fun u hu => hz u (List.mem_cons_of_mem _ hu)
    rw [stream_cons, List.append_assoc,
      unitsOnto_append_codeBytes (hs.1 unit List.mem_cons_self) hend hzeros, hi]
    rfl

theorem units_append_stream {front : Bytes} (hf : ¬ HasCode front) {units : List (Nat × Bytes)}
    (hne : units ≠ []) (hs : Separable (units.map (·.2))) (hz : ∀ u ∈ units, 2 ≤ u.1) :
    AnnexB.units (front ++ stream units) = units.map (·.2) := by
  obtain ⟨⟨zeros, unit⟩, units, rfl⟩ := List.exists_cons_of_ne_nil hne
  have hcode := nextStartCode_append hf (hz (zeros, unit) List.mem_cons_self) (unit ++ stream units)
  have hrun := zeroRun_le 0 front
  have hstop : front.length - zeroRun 0 front + (zeroRun 0 front + zeros + 1) =
      (front ++ codeBytes zeros).length := by
    simp only [List.length_append, codeBytes, List.length_replicate, List.length_singleton]
    omega
  have hdrop : (front ++ (codeBytes zeros ++ (unit ++ stream units))).drop
      (front ++ codeBytes zeros).length = unit ++ stream units := by
    rw [← List.append_assoc, List.drop_left]
  rw [stream_cons, List.append_assoc, AnnexB.units, Scanner.ofBytes]
  simp only [hcode, StartCode.stop, hstop, hdrop]
  exact unitsOnto_stream hs fun u hu => hz u (List.mem_cons_of_mem _ hu)

theorem units_stream {units : List (Nat × Bytes)} (hne : units ≠ [])
    (hs : Separable (units.map (·.2))) (hz : ∀ u ∈ units, 2 ≤ u.1) :
    AnnexB.units (stream units) = units.map (·.2) := by
  have hnil : ¬ HasCode [] := by decide
  exact units_append_stream hnil hne hs hz

theorem stream_eq_nil_iff {units : List (Nat × Bytes)} : stream units = [] ↔ units = [] := by
  cases units with
  | nil => simp [stream_nil]
  | cons unit units =>
    obtain ⟨zeros, unit⟩ := unit
    simp [stream_cons, codeBytes]

end NalTransport.AnnexB
