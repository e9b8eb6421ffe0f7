import Mathlib.Algebra.Ring.Nat
import Mathlib.Tactic.SplitIfs
import NalTransport.Packing.Accumulator

/-! The groups in which units go out. They are cut from the list of sendable
units alone: a unit joins those that wait if the aggregate of all of them stays
within the limit, and otherwise waits by itself. The accumulator sends exactly
these groups, one after another. -/

namespace NalTransport.Packing

variable {Header : Type}

/-- The bytes that units take in an aggregate, its header apart. -/
def bundleSize (units : List (PendingUnit Header)) : Nat :=
  (units.map fun unit => unitLengthSize + unit.data.length).sum

def Fits (p : Packing Header) (units : List (PendingUnit Header)) : Prop :=
  p.singly = false ∧ p.framing.aggregationHeaderSize + bundleSize units ≤ p.mtu

instance (p : Packing Header) (units : List (PendingUnit Header)) : Decidable (p.Fits units) :=
  inferInstanceAs (Decidable (_ ∧ _))

def cut (p : Packing Header) (waiting : List (PendingUnit Header)) :
    List (PendingUnit Header) → List (List (PendingUnit Header))
  | [] => if waiting.isEmpty then [] else [waiting]
  | unit :: units =>
    if waiting.isEmpty ∨ p.Fits (waiting ++ [unit]) then p.cut (waiting ++ [unit]) units
    else waiting :: p.cut [unit] units

/-- The units that are neither too short nor too long to be sent. -/
def accepted (p : Packing Header) (units : List Bytes) : List Bytes :=
  units.filter fun unit =>
    p.framing.unitHeaderSize ≤ unit.length ∧ unit.length ≤ maxUnitSize

theorem map_data_accept? (p : Packing Header) (units : List Bytes) :
    (units.filterMap p.accept?).map (·.data) = p.accepted units := by
  induction units with
  | nil => rfl
  | cons data units ih =>
    rw [accepted, List.filter_cons, ← isSome_accept?, ← accepted, ← ih]
    cases hd : p.accept? data with
    | some unit => simp [hd, (accept?_eq_some_iff.mp hd).1]
    | none => simp [hd]

theorem bundleSize_append (units more : List (PendingUnit Header)) :
    bundleSize (units ++ more) = bundleSize units + bundleSize more := by
  simp [bundleSize]

theorem bundleSize_singleton (unit : PendingUnit Header) :
    bundleSize [unit] = unitLengthSize + unit.data.length := by
  simp [bundleSize]

theorem length_lt_bundleSize {unit : PendingUnit Header} {units : List (PendingUnit Header)}
    (h : unit ∈ units) : unit.data.length < bundleSize units := by
  obtain ⟨before, after, rfl⟩ := List.append_of_mem h
  simp only [bundleSize, List.map_append, List.map_cons, List.sum_append, List.sum_cons,
    unitLengthSize]
  omega

theorem flatten_cut (p : Packing Header) (waiting units : List (PendingUnit Header)) :
    (p.cut waiting units).flatten = waiting ++ units := by
  induction units generalizing waiting with
  | nil => cases waiting <;> simp [cut]
  | cons unit units ih =>
    simp only [cut]
    split_ifs
    · simp [ih]
    · simp [ih]

theorem ne_nil_of_mem_cut {p : Packing Header} {waiting units group : List (PendingUnit Header)}
    (h : group ∈ p.cut waiting units) : group ≠ [] := by
  induction units generalizing waiting with
  | nil => cases waiting <;> simp_all [cut]
  | cons unit units ih =>
    simp only [cut] at h
    split_ifs at h with hc
    · exact ih h
    · rcases List.mem_cons.mp h with rfl | h
      · intro hn
        exact hc (.inl (by simp [hn]))
      · exact ih h

/-- Units share a group only as far as the limit allows. -/
theorem fits_of_mem_cut {p : Packing Header} {waiting units group : List (PendingUnit Header)}
    (hw : 2 ≤ waiting.length → p.Fits waiting) (h : group ∈ p.cut waiting units)
    (hl : 2 ≤ group.length) : p.Fits group := by
  induction units generalizing waiting with
  | nil =>
    simp only [cut] at h
    split_ifs at h
    · exact absurd h List.not_mem_nil
    · obtain rfl := List.mem_singleton.mp h
      exact hw hl
  | cons unit units ih =>
    simp only [cut] at h
    split_ifs at h with hc
    · refine ih (fun h2 => ?_) h
      rcases hc with he | hf
      · obtain rfl := List.isEmpty_iff.mp he
        simp at h2
      · exact hf
    · rcases List.mem_cons.mp h with rfl | h
      · exact hw hl
      · exact ih (by simp) h

/-- All that has gone out once the given units have followed. -/
def output (p : Packing Header) (a : Accumulator Header) (units : List (PendingUnit Header)) :
    List Bytes :=
  a.payloads.toList ++ (p.cut a.pending.toList units).flatMap p.group

theorem cut_cons_of_fits {p : Packing Header} {waiting : List (PendingUnit Header)}
    {unit : PendingUnit Header} (h : p.Fits (waiting ++ [unit]))
    (units : List (PendingUnit Header)) :
    p.cut waiting (unit :: units) = p.cut (waiting ++ [unit]) units := by
  simp only [cut, h, or_true, if_true]

theorem flatMap_cut_cons {p : Packing Header} {waiting : List (PendingUnit Header)}
    {unit : PendingUnit Header} (h : ¬ p.Fits (waiting ++ [unit]))
    (units : List (PendingUnit Header)) :
    (p.cut waiting (unit :: units)).flatMap p.group =
      p.group waiting ++ (p.cut [unit] units).flatMap p.group := by
  cases waiting with
  | nil => simp [cut, group]
  | cons first more => simp only [cut, h, List.isEmpty_cons, Bool.false_eq_true, or_self, if_false,
      List.flatMap_cons]

theorem flatMap_cut_of_lt {p : Packing Header} {unit : PendingUnit Header}
    (h : p.mtu < unit.data.length) (units : List (PendingUnit Header)) :
    (p.cut [unit] units).flatMap p.group =
      p.group [unit] ++ (p.cut [] units).flatMap p.group := by
  cases units with
  | nil => simp [cut]
  | cons next units =>
    -- An aggregate of both would be longer than the unit.
    have hf : ¬ p.Fits ([unit] ++ [next]) := by
      rintro ⟨-, hf⟩
      have hmem : unit ∈ [unit] ++ [next] := by simp
      have hlt := length_lt_bundleSize hmem
      omega
    rw [flatMap_cut_cons hf]
    simp [cut]

/-- The size that is kept decides as the size of the units would. -/
theorem add_eq {p : Packing Header} {a : Accumulator Header}
    (hs : a.pendingSize = bundleSize a.pending.toList) (unit : PendingUnit Header) :
    p.add a unit =
      if p.Fits (a.pending.toList ++ [unit]) then
        { a with
          pending := a.pending.push unit
          pendingSize := a.pendingSize + (unitLengthSize + unit.data.length) }
      else
        let waiting : Accumulator Header :=
          { p.flush a with
            pending := #[unit]
            pendingSize := unitLengthSize + unit.data.length }
        if p.mtu < unit.data.length then p.flush waiting else waiting := by
  have hfit : p.singly = false ∧
      p.framing.aggregationHeaderSize + a.pendingSize + (unitLengthSize + unit.data.length) ≤ p.mtu ↔
      p.Fits (a.pending.toList ++ [unit]) := by
    rw [Fits, bundleSize_append, bundleSize_singleton, hs, Nat.add_assoc]
  simp only [add, hfit]

theorem pendingSize_add {p : Packing Header} {a : Accumulator Header}
    (hs : a.pendingSize = bundleSize a.pending.toList) (unit : PendingUnit Header) :
    (p.add a unit).pendingSize = bundleSize (p.add a unit).pending.toList := by
  rw [add_eq hs]
  split_ifs
  · simp [bundleSize_append, bundleSize_singleton, hs]
  · rfl
  · simp [bundleSize_singleton]

theorem output_add {p : Packing Header} {a : Accumulator Header}
    (hs : a.pendingSize = bundleSize a.pending.toList) (unit : PendingUnit Header)
    (units : List (PendingUnit Header)) :
    p.output (p.add a unit) units = p.output a (unit :: units) := by
  rw [add_eq hs]
  -- The unit joins those that wait, goes out behind them at once, or waits for the next.
  split_ifs with hf hl
  · simp [output, cut_cons_of_fits hf]
  · simp [output, flush, flatMap_cut_cons hf, flatMap_cut_of_lt hl]
  · simp [output, flush, flatMap_cut_cons hf]

theorem pendingSize_push {p : Packing Header} {a : Accumulator Header}
    (hs : a.pendingSize = bundleSize a.pending.toList) (data : Bytes) :
    (p.push a data).pendingSize = bundleSize (p.push a data).pending.toList := by
  unfold push
  cases p.accept? data with
  | none => exact hs
  | some unit => exact pendingSize_add hs unit

theorem output_push {p : Packing Header} {a : Accumulator Header}
    (hs : a.pendingSize = bundleSize a.pending.toList) (data : Bytes)
    (units : List (PendingUnit Header)) :
    p.output (p.push a data) units = p.output a ((p.accept? data).toList ++ units) := by
  unfold push
  cases p.accept? data with
  | none => rfl
  | some unit => exact output_add hs unit units

theorem output_foldl_push {p : Packing Header} {a : Accumulator Header}
    (hs : a.pendingSize = bundleSize a.pending.toList) (units : List Bytes) :
    p.output (units.foldl p.push a) [] = p.output a (units.filterMap p.accept?) := by
  induction units generalizing a with
  | nil => rfl
  | cons data units ih =>
    rw [List.foldl_cons, ih (pendingSize_push hs data), output_push hs]
    cases hd : p.accept? data <;> simp [hd]

theorem payloads_eq (p : Packing Header) (units : List Bytes) :
    p.payloads units = (p.cut [] (units.filterMap p.accept?)).flatMap p.group := by
  have h := output_foldl_push (p := p) (a := {}) (by simp [bundleSize]) units
  have he : (p.flush (units.foldl p.push {})).payloads.toList = p.output (units.foldl p.push {}) [] := by
    cases hp : (units.foldl p.push {}).pending.toList <;> simp [flush, output, cut, group, hp]
  rw [payloads, he, h]
  simp [output]

end NalTransport.Packing
