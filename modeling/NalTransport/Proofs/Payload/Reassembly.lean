import NalTransport.Payload.Reassembly

/-! What payloads carry when they are read one after another. Payloads that
carry whole units by themselves do so among others, so that a stream can be
taken apart group by group. -/

namespace NalTransport.Reassembly

/-- Every payload can be read, and together they yield exactly these units and
leave none open. -/
def Carries (read? : Bytes → Option Carried) (payloads units : List Bytes) : Prop :=
  ∃ carried, payloads.mapM read? = some carried ∧
    ∀ done, carried.foldlM take? { finished := done } = some { finished := done ++ units }

theorem Carries.nil (read? : Bytes → Option Carried) : Carries read? [] [] :=
  ⟨[], rfl, fun done => by simp⟩

theorem Carries.append {read? : Bytes → Option Carried} {first second firstUnits units : List Bytes}
    (h : Carries read? first firstUnits) (h' : Carries read? second units) :
    Carries read? (first ++ second) (firstUnits ++ units) := by
  obtain ⟨carried, hread, htake⟩ := h
  obtain ⟨carried', hread', htake'⟩ := h'
  refine ⟨carried ++ carried', by simp [hread, hread'], fun done => ?_⟩
  simp [List.foldlM_append, htake, htake', List.append_assoc]

theorem Carries.flatMap {α : Type} {read? : Bytes → Option Carried} {payloads units : α → List Bytes}
    {groups : List α} (h : ∀ group ∈ groups, Carries read? (payloads group) (units group)) :
    Carries read? (groups.flatMap payloads) (groups.flatMap units) := by
  induction groups with
  | nil => exact .nil read?
  | cons group groups ih =>
    exact (h group List.mem_cons_self).append (ih fun g hg => h g (List.mem_cons_of_mem _ hg))

theorem Carries.whole {read? : Bytes → Option Carried} {payload : Bytes} {units : List Bytes}
    (h : read? payload = some (.whole units)) : Carries read? [payload] units :=
  ⟨[.whole units], by simp [h], fun done => by simp [take?]⟩

theorem Carries.units?_eq {read? : Bytes → Option Carried} {payloads units : List Bytes}
    (h : Carries read? payloads units) : units? read? payloads = some units := by
  obtain ⟨carried, hread, htake⟩ := h
  have hfold : carried.foldlM take? {} = some { finished := units } := by simpa using htake []
  simp [units?, hread, hfold]

theorem foldlM_take?_fragments {parts : List Bytes} (hne : parts ≠ []) (start : Nat)
    {count : Nat} (hc : start + parts.length = count) {header : Bytes} (unit : Bytes)
    (hu : start = 0 → unit = header) (done : List Bytes) :
    ((parts.zipIdx start).map fun (part, i) =>
        Carried.fragment (i == 0) (i + 1 == count) header part).foldlM take?
        { finished := done, unfinished := if start = 0 then none else some unit } =
      some { finished := done ++ [unit ++ parts.flatten] } := by
  -- Fragments in front of `start` have left `unit` behind; the first makes it of the header.
  induction parts generalizing start unit with
  | nil => exact absurd rfl hne
  | cons part parts ih =>
    have hopen : (if (start == 0) = true then some header
        else if start = 0 then none else some unit) = some unit := by
      by_cases hs : start = 0
      · simp [hs, hu hs]
      · simp [hs]
    have htake (last : Bool) :
        take? { finished := done, unfinished := if start = 0 then none else some unit }
            (.fragment (start == 0) last header part) =
          if last then some { finished := done ++ [unit ++ part] }
          else some { finished := done, unfinished := some (unit ++ part) } := by
      simp only [take?, hopen]
    rw [List.zipIdx_cons, List.map_cons, List.foldlM_cons, htake]
    cases parts with
    | nil =>
      have hlast : (start + 1 == count) = true := by simpa using hc
      simp [hlast]
    | cons next parts =>
      have hlast : (start + 1 == count) = false := by
        simp only [List.length_cons] at hc
        simp
        omega
      have hnext : start + 1 + (next :: parts).length = count := by
        simp only [List.length_cons] at hc ⊢
        omega
      have hi := ih (List.cons_ne_nil _ _) (start + 1) hnext (unit ++ part) fun h => by omega
      rw [if_neg (Nat.succ_ne_zero start)] at hi
      simp only [hlast, Bool.false_eq_true, if_false, Option.bind_eq_bind, Option.bind_some, hi,
        List.flatten_cons, List.append_assoc]

theorem Carries.fragments {read? : Bytes → Option Carried} {parts : List Bytes} {header : Bytes}
    {payload : Bytes → Bool → Bool → Bytes} (hne : parts ≠ [])
    (hread : ∀ part first last, read? (payload part first last) =
      some (.fragment first last header part)) :
    Carries read? (parts.zipIdx.map fun (part, i) => payload part (i == 0) (i + 1 == parts.length))
      [header ++ parts.flatten] := by
  refine ⟨parts.zipIdx.map fun (part, i) =>
    Carried.fragment (i == 0) (i + 1 == parts.length) header part, ?_, fun done => ?_⟩
  · simp only [List.mapM_map, Function.comp_def, hread]
    exact List.mapM_pure
  · exact foldlM_take?_fragments hne 0 (Nat.zero_add _) header (fun _ => rfl) done

end NalTransport.Reassembly
