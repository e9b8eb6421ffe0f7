import Mathlib
import NalTransport.Proofs.Codec
import NalTransport.Proofs.Packing.Grouping

/-! The groups in which units go out, described without the accumulator. A group
of several units stays within the limit, and the first unit of the next group
would have exceeded it. There is only one way to cut a list of units into such
groups, and units that cannot be sent have no part in it. -/

namespace NalTransport.Packing

variable {Header : Type}

/-- The size of a payload that carries all of these units. -/
def aggregateSize (p : Packing Header) (units : List Bytes) : Nat :=
  p.framing.aggregationHeaderSize + (units.map fun unit => unitLengthSize + unit.length).sum

/-- Each group fits into one payload, unless it is a unit by itself, and none has room for the
first unit of the next. -/
structure Greedy (p : Packing Header) (groups : List (List Bytes)) : Prop where
  ne_nil : ∀ group ∈ groups, group ≠ []
  fits : ∀ group ∈ groups, 2 ≤ group.length → p.aggregateSize group ≤ p.mtu
  full : groups.IsChain fun group next => ∀ unit ∈ next.head?,
    p.mtu < p.aggregateSize group + (unitLengthSize + unit.length)

/-- The headers of those units that have one. -/
def unitHeaders (p : Packing Header) (units : List Bytes) : List Header :=
  units.filterMap fun unit => (p.framing.unitHeader unit).toOption

/-- The payloads of one group, from the bytes of its units. -/
def payloadsOf (p : Packing Header) : List Bytes → List Bytes
  | [] => []
  | [unit] =>
    if unit.length ≤ p.mtu then [unit]
    else (p.unitHeaders [unit]).flatMap fun header => p.fragments { header, data := unit }
  | units =>
    [p.framing.aggregationHeader (p.unitHeaders units) ++
      units.flatMap fun unit => Bytes.ofWord16 (UInt16.ofNat unit.length) ++ unit]

theorem aggregateSize_append_cons (p : Packing Header) (group : List Bytes) (unit : Bytes)
    (more : List Bytes) :
    p.aggregateSize (group ++ unit :: more) =
      p.aggregateSize group + (unitLengthSize + unit.length) +
        (more.map fun unit => unitLengthSize + unit.length).sum := by
  simp only [aggregateSize, List.map_append, List.map_cons, List.sum_append, List.sum_cons]
  omega

namespace Greedy

variable {p : Packing Header}

theorem tail {group : List Bytes} {groups : List (List Bytes)} (h : p.Greedy (group :: groups)) :
    p.Greedy groups where
  ne_nil g hg := h.ne_nil g (List.mem_cons_of_mem _ hg)
  fits g hg := h.fits g (List.mem_cons_of_mem _ hg)
  full := h.full.tail

/-- A group that fits is not an extension of this one. -/
theorem eq_nil_of_append {group more : List Bytes} {groups : List (List Bytes)}
    (h : p.Greedy (group :: groups)) {rest : List Bytes} (hrest : groups.flatten = more ++ rest)
    (hfits : 2 ≤ (group ++ more).length → p.aggregateSize (group ++ more) ≤ p.mtu) :
    more = [] := by
  cases more with
  | nil => rfl
  | cons unit more =>
    exfalso
    cases groups with
    | nil => simp at hrest
    | cons next groups =>
      have hne := h.ne_nil next (by simp)
      have hhead : next.head? = some unit := by
        obtain ⟨first, next, rfl⟩ := List.exists_cons_of_ne_nil hne
        simp only [List.flatten_cons, List.cons_append, List.cons.injEq] at hrest
        rw [hrest.1, List.head?_cons]
      have hpos := List.length_pos_iff.mpr (h.ne_nil group List.mem_cons_self)
      have hfull := (List.isChain_cons.mp h.full).1 next rfl unit hhead
      have hle := p.aggregateSize_append_cons group unit more
      have := hfits (by simp only [List.length_append, List.length_cons]; omega)
      omega

theorem eq_of_flatten_eq {groups others : List (List Bytes)} (h : p.Greedy groups)
    (h' : p.Greedy others) (hf : groups.flatten = others.flatten) : groups = others := by
  induction groups generalizing others with
  | nil =>
    cases others with
    | nil => rfl
    | cons other others =>
      exact absurd (List.append_eq_nil_iff.mp hf.symm).1 (h'.ne_nil other List.mem_cons_self)
  | cons group groups ih =>
    cases others with
    | nil => exact absurd (List.append_eq_nil_iff.mp hf).1 (h.ne_nil group List.mem_cons_self)
    | cons other others =>
      have hgroup : group = other := by
        rw [List.flatten_cons, List.flatten_cons] at hf
        rcases List.append_eq_append_iff.mp hf with ⟨more, rfl, hrest⟩ | ⟨more, rfl, hrest⟩
        · have hmore := h.eq_nil_of_append hrest (h'.fits _ List.mem_cons_self)
          rw [hmore, List.append_nil]
        · have hmore := h'.eq_nil_of_append hrest (h.fits _ List.mem_cons_self)
          rw [hmore, List.append_nil]
      subst hgroup
      rw [List.flatten_cons, List.flatten_cons, List.append_right_inj] at hf
      rw [ih h.tail h'.tail hf]

end Greedy

theorem fits_iff {p : Packing Header} (hs : p.singly = false)
    (units : List (PendingUnit Header)) :
    p.Fits units ↔ p.aggregateSize (units.map (·.data)) ≤ p.mtu := by
  rw [Fits, aggregateSize, bundleSize, List.map_map]
  exact and_iff_right hs

theorem exists_cut_eq_cons (p : Packing Header) {waiting : List (PendingUnit Header)}
    (hw : waiting ≠ []) (units : List (PendingUnit Header)) :
    ∃ more groups, p.cut waiting units = (waiting ++ more) :: groups := by
  induction units generalizing waiting with
  | nil => exact ⟨[], [], by simp [cut, hw]⟩
  | cons unit units ih =>
    simp only [cut]
    split_ifs
    · have hw' : waiting ++ [unit] ≠ [] := by simp
      obtain ⟨more, groups, h⟩ := ih hw'
      exact ⟨unit :: more, groups, by simp [h]⟩
    · exact ⟨[], _, by rw [List.append_nil]⟩

theorem isChain_cut (p : Packing Header) (waiting units : List (PendingUnit Header)) :
    (p.cut waiting units).IsChain fun group next => ∀ unit ∈ next.head?,
      ¬ p.Fits (group ++ [unit]) := by
  induction units generalizing waiting with
  | nil =>
    simp only [cut]
    split_ifs
    · exact .nil
    · exact .singleton _
  | cons unit units ih =>
    simp only [cut]
    split_ifs with h
    · exact ih _
    · obtain ⟨more, groups, hcut⟩ := p.exists_cut_eq_cons (List.cons_ne_nil unit []) units
      have hi := ih [unit]
      rw [hcut] at hi ⊢
      refine List.isChain_cons_cons.mpr ⟨fun first hfirst => ?_, hi⟩
      obtain rfl : unit = first := by simpa using hfirst
      exact fun hf => h (.inr hf)

theorem greedy_cut {p : Packing Header} (hs : p.singly = false)
    (units : List (PendingUnit Header)) :
    p.Greedy ((p.cut [] units).map (·.map (·.data))) where
  ne_nil := by
    simp only [List.mem_map, forall_exists_index, and_imp, forall_apply_eq_imp_iff₂, ne_eq,
      List.map_eq_nil_iff]
    exact fun group h => ne_nil_of_mem_cut h
  fits := by
    simp only [List.mem_map, forall_exists_index, and_imp, forall_apply_eq_imp_iff₂,
      List.length_map]
    exact fun group h hl => (fits_iff hs group).mp (fits_of_mem_cut (by simp) h hl)
  full := by
    rw [List.isChain_map]
    refine (p.isChain_cut [] units).imp fun group next h unit hunit => ?_
    rw [List.head?_map, Option.mem_map] at hunit
    obtain ⟨first, hfirst, rfl⟩ := hunit
    have hlt := (fits_iff hs _).not.mp (h first hfirst)
    rw [List.map_append, List.map_singleton, aggregateSize_append_cons, List.map_nil,
      List.sum_nil] at hlt
    omega

theorem flatten_map_cut (p : Packing Header) (units : List (PendingUnit Header)) :
    ((p.cut [] units).map (·.map (·.data))).flatten = units.map (·.data) := by
  rw [← List.map_flatten, flatten_cut, List.nil_append]

theorem cut_of_singly {p : Packing Header} (hs : p.singly = true)
    (units : List (PendingUnit Header)) : p.cut [] units = units.map ([·]) := by
  have hf (units : List (PendingUnit Header)) : ¬ p.Fits units := fun h => by simp [h.1] at hs
  have hwait (unit : PendingUnit Header) (units : List (PendingUnit Header)) :
      p.cut [unit] units = [unit] :: units.map ([·]) := by
    induction units generalizing unit with
    | nil => rfl
    | cons next units ih => simp [cut, hf, ih]
  cases units with
  | nil => rfl
  | cons unit units => simpa [cut] using hwait unit units

theorem unitHeaders_map_data {p : Packing Header} {units : List (PendingUnit Header)}
    (h : ∀ unit ∈ units, p.accept? unit.data = some unit) :
    p.unitHeaders (units.map (·.data)) = units.map (·.header) := by
  induction units with
  | nil => rfl
  | cons unit units ih =>
    have hu := (accept?_eq_some_iff.mp (h unit List.mem_cons_self)).2.1
    have hheader : (p.framing.unitHeader unit.data).toOption = some unit.header := by
      rw [hu]
      rfl
    have hi := ih fun u hu => h u (List.mem_cons_of_mem _ hu)
    rw [unitHeaders] at hi ⊢
    simp only [List.map_cons, List.filterMap_cons, hheader, hi]

theorem group_eq {p : Packing Header} {units : List (PendingUnit Header)}
    (h : ∀ unit ∈ units, p.accept? unit.data = some unit) :
    p.group units = p.payloadsOf (units.map (·.data)) := by
  have hheaders := unitHeaders_map_data h
  match units with
  | [] => rfl
  | [unit] =>
    rw [List.map_singleton] at hheaders
    simp [group, alone, payloadsOf, hheaders]
  | first :: second :: units =>
    exact congrArg (fun headers => [p.framing.aggregationHeader headers ++ _]) hheaders.symm

theorem payloads_eq_flatMap (p : Packing Header) (units : List Bytes) :
    p.payloads units =
      ((p.cut [] (units.filterMap p.accept?)).map (·.map (·.data))).flatMap p.payloadsOf := by
  have haccept : ∀ unit ∈ units.filterMap p.accept?, p.accept? unit.data = some unit := by
    intro unit hunit
    obtain ⟨data, -, h⟩ := List.mem_filterMap.mp hunit
    obtain ⟨rfl, -⟩ := accept?_eq_some_iff.mp h
    exact h
  rw [payloads_eq, List.flatMap_map]
  refine List.flatMap_congr fun group hgroup => group_eq fun unit hunit => haccept unit ?_
  have hmem := List.mem_flatten_of_mem hgroup hunit
  rwa [flatten_cut, List.nil_append] at hmem

theorem filterMap_accept?_accepted (p : Packing Header) (units : List Bytes) :
    (p.accepted units).filterMap p.accept? = units.filterMap p.accept? := by
  simp only [accepted, ← isSome_accept?]
  rw [List.filterMap_filter]
  refine List.filterMap_congr fun data _ => ?_
  cases p.accept? data <;> rfl

theorem payloads_accepted (p : Packing Header) (units : List Bytes) :
    p.payloads units = p.payloads (p.accepted units) := by
  rw [payloads_eq, payloads_eq, filterMap_accept?_accepted]

theorem payloads_of_singly {p : Packing Header} (hs : p.singly = true) (units : List Bytes) :
    p.payloads units = (p.accepted units).flatMap fun unit => p.payloadsOf [unit] := by
  rw [payloads_eq_flatMap, cut_of_singly hs, ← map_data_accept?, List.map_map, List.flatMap_map,
    List.flatMap_map]
  rfl

theorem exists_greedy {p : Packing Header} (hs : p.singly = false) (units : List Bytes) :
    ∃ groups, p.Greedy groups ∧ groups.flatten = p.accepted units ∧
      p.payloads units = groups.flatMap p.payloadsOf := by
  refine ⟨_, greedy_cut hs (units.filterMap p.accept?), ?_, p.payloads_eq_flatMap units⟩
  rw [flatten_map_cut, map_data_accept?]

theorem payloads_of_greedy {p : Packing Header} (hs : p.singly = false)
    {groups : List (List Bytes)} {units : List Bytes} (h : p.Greedy groups)
    (hf : groups.flatten = p.accepted units) :
    p.payloads units = groups.flatMap p.payloadsOf := by
  obtain ⟨cuts, hcuts, hflat, hpayloads⟩ := exists_greedy hs units
  rw [h.eq_of_flatten_eq hcuts (hf.trans hflat.symm), hpayloads]

theorem payloadsOf_of_two_le {p : Packing Header} {group : List Bytes} (h : 2 ≤ group.length) :
    p.payloadsOf group =
      [p.framing.aggregationHeader (p.unitHeaders group) ++ Bundle.join group] := by
  rcases group with _ | ⟨first, _ | ⟨second, more⟩⟩
  · simp at h
  · simp at h
  · rfl

theorem payloadsOf_eq_nil {p : Packing Header} {unit : Bytes} (hl : p.mtu < unit.length)
    (hm : p.mtu ≤ p.framing.fragmentHeaderSize) : p.payloadsOf [unit] = [] := by
  have hroom : p.mtu - p.framing.fragmentHeaderSize = 0 := by omega
  simp [payloadsOf, Nat.not_le.mpr hl, fragments, hroom, Bytes.chunks_zero]

end NalTransport.Packing

namespace NalTransport.Codec

open Packing in
/-- What goes out is the only greedy grouping of the units that can be sent. -/
theorem greedy_payloads (c : Codec) (mtu : Nat) (units : List Bytes) :
    let p : Packing c.Header := { framing := c.framing, mtu }
    let sent := units.filter fun unit =>
      c.framing.unitHeaderSize ≤ unit.length ∧ unit.length ≤ maxUnitSize
    (∃! groups, p.Greedy groups ∧ groups.flatten = sent) ∧
      (∀ groups, p.Greedy groups → groups.flatten = sent →
        p.payloads units = groups.flatMap p.payloadsOf) ∧
      Packing.payloads { p with singly := true } units =
        sent.flatMap (fun unit => p.payloadsOf [unit]) ∧
      (∀ singly,
        Packing.payloads { p with singly } units = Packing.payloads { p with singly } sent) ∧
      ∀ unit, mtu < unit.length → mtu ≤ c.framing.fragmentHeaderSize →
        p.payloadsOf [unit] = [] := by
  intro p sent
  obtain ⟨groups, hgreedy, hflat, hpayloads⟩ := exists_greedy (p := p) rfl units
  have hunique : ∀ others, p.Greedy others → others.flatten = sent → others = groups :=
    fun others h hf => h.eq_of_flatten_eq hgreedy (hf.trans hflat.symm)
  refine ⟨⟨groups, ⟨hgreedy, hflat⟩, fun others h => hunique others h.1 h.2⟩, fun others h hf => ?_,
    payloads_of_singly (p := { p with singly := true }) rfl units,
    fun singly => payloads_accepted _ units, fun unit => payloadsOf_eq_nil (p := p)⟩
  rw [hunique others h hf, hpayloads]

/-- The first and the third unit fill an aggregate up to the limit, the second cannot be sent,
and the last is too long for any group. -/
theorem greedy_payloads_hevc :
    let p : Packing Hevc.Header := { framing := Hevc.framing, mtu := 11 }
    let units : List Bytes :=
      [[2, 1, 7], [5], [64, 1], [38, 1, 10, 11, 12, 13, 14, 15, 16, 17, 18, 19]]
    let groups : List (List Bytes) :=
      [[[2, 1, 7], [64, 1]], [[38, 1, 10, 11, 12, 13, 14, 15, 16, 17, 18, 19]]]
    p.Greedy groups ∧ p.payloads units = groups.flatMap p.payloadsOf ∧
      groups.flatMap p.payloadsOf =
        [[96, 1, 0, 3, 2, 1, 7, 0, 2, 64, 1], [98, 1, 147, 10, 11, 12, 13, 14, 15, 16, 17],
          [98, 1, 83, 18, 19]] := by
  intro p units groups
  have hgreedy : p.Greedy groups :=
    { ne_nil := by decide, fits := by decide, full := by decide }
  exact ⟨hgreedy, (greedy_payloads .hevc 11 units).2.1 groups hgreedy (by decide), by cbv⟩

end NalTransport.Codec
