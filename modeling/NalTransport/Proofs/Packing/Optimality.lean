import Mathlib
import NalTransport.Proofs.Packing.Fragments
import NalTransport.Proofs.Packing.Greedy

/-! No other way to group the units yields fewer payloads. A group yields as many
payloads as any unit of it would by itself, so that only where the groups end can
make a difference, and the greedy groups never end before those of another cut. A
larger limit admits the same groups and makes none of them dearer. -/

namespace NalTransport.Packing

variable {Header : Type}

/-- Units cut into groups, each of which fits into one payload unless it is a unit by itself. -/
structure Grouping (p : Packing Header) (units : List Bytes) (groups : List (List Bytes)) :
    Prop where
  ne_nil : ∀ group ∈ groups, group ≠ []
  fits : ∀ group ∈ groups, 2 ≤ group.length → p.aggregateSize group ≤ p.mtu
  flatten_eq : groups.flatten = units

theorem length_lt_aggregateSize (p : Packing Header) {unit : Bytes} {group : List Bytes}
    (h : unit ∈ group) : unit.length < p.aggregateSize group := by
  obtain ⟨before, after, rfl⟩ := List.append_of_mem h
  rw [aggregateSize_append_cons, unitLengthSize]
  omega

theorem aggregateSize_le_append (p : Packing Header) (front units : List Bytes) :
    p.aggregateSize units ≤ p.aggregateSize (front ++ units) := by
  simp only [aggregateSize, List.map_append, List.sum_append]
  omega

theorem length_payloadsOf_of_le {p : Packing Header} {unit : Bytes} (h : unit.length ≤ p.mtu) :
    (p.payloadsOf [unit]).length = 1 := by
  simp [payloadsOf, h]

theorem length_payloadsOf_of_two_le {p : Packing Header} {group : List Bytes}
    (h : 2 ≤ group.length) : (p.payloadsOf group).length = 1 := by
  rw [payloadsOf_of_two_le h, List.length_singleton]

/-- A unit that shares a payload would have one to itself. -/
theorem length_payloadsOf_of_mem {p : Packing Header} {group : List Bytes} {unit : Bytes}
    (hf : 2 ≤ group.length → p.aggregateSize group ≤ p.mtu) (h : unit ∈ group) :
    (p.payloadsOf group).length = (p.payloadsOf [unit]).length := by
  by_cases htwo : 2 ≤ group.length
  · have hfits := hf htwo
    have hlt := p.length_lt_aggregateSize h
    rw [length_payloadsOf_of_two_le htwo, length_payloadsOf_of_le (by omega)]
  · have hpos := List.length_pos_of_mem h
    have hone : group.length = 1 := by omega
    obtain ⟨only, rfl⟩ := List.length_eq_one_iff.mp hone
    rw [List.mem_singleton.mp h]

namespace Grouping

variable {p : Packing Header}

theorem tail {units group : List Bytes} {groups : List (List Bytes)}
    (h : p.Grouping units (group :: groups)) : p.Grouping groups.flatten groups where
  ne_nil g hg := h.ne_nil g (List.mem_cons_of_mem _ hg)
  fits g hg := h.fits g (List.mem_cons_of_mem _ hg)
  flatten_eq := rfl

theorem singletons (p : Packing Header) (units : List Bytes) :
    p.Grouping units (units.map ([·])) where
  ne_nil := by simp
  fits := by simp
  flatten_eq := by simp [← List.flatMap_def]

theorem of_mtu_le {units : List Bytes} {groups : List (List Bytes)} (h : p.Grouping units groups)
    {limit : Nat} (hle : p.mtu ≤ limit) : ({ p with mtu := limit }).Grouping units groups where
  ne_nil := h.ne_nil
  fits group hg htwo := (h.fits group hg htwo).trans hle
  flatten_eq := h.flatten_eq

end Grouping

namespace Greedy

variable {p : Packing Header}

theorem grouping {groups : List (List Bytes)} (h : p.Greedy groups) :
    p.Grouping groups.flatten groups where
  ne_nil := h.ne_nil
  fits := h.fits
  flatten_eq := rfl

/-- The first group reaches as far as any units that fit together. -/
theorem exists_eq_append {group taken rest : List Bytes} {groups : List (List Bytes)}
    (h : p.Greedy (group :: groups)) (hf : group ++ groups.flatten = taken ++ rest)
    (hfits : 2 ≤ taken.length → p.aggregateSize taken ≤ p.mtu) :
    ∃ more, group = taken ++ more ∧ rest = more ++ groups.flatten := by
  rcases List.append_eq_append_iff.mp hf with ⟨more, rfl, hrest⟩ | ⟨more, hgroup, hrest⟩
  · obtain rfl := h.eq_nil_of_append hrest hfits
    exact ⟨[], by simp, by simpa using hrest.symm⟩
  · exact ⟨more, hgroup, hrest⟩

/-- The units `ahead` are those that another grouping has still to send and the greedy one has
sent already. -/
theorem length_flatMap_le {groups others : List (List Bytes)} {ahead : List Bytes}
    (h : p.Greedy groups) (ho : p.Grouping (ahead ++ groups.flatten) others) :
    (groups.flatMap p.payloadsOf).length ≤ (others.flatMap p.payloadsOf).length := by
  induction others generalizing groups ahead with
  | nil =>
    have hflat : groups.flatten = [] := (List.append_eq_nil_iff.mp ho.flatten_eq.symm).2
    cases groups with
    | nil => exact Nat.le_refl _
    | cons group groups =>
      have hne := h.ne_nil group List.mem_cons_self
      exact absurd (List.append_eq_nil_iff.mp hflat).1 hne
  | cons other others ih =>
    have hflat := ho.flatten_eq
    rw [List.flatten_cons] at hflat
    simp only [List.flatMap_cons, List.length_append]
    rcases List.append_eq_append_iff.mp hflat with ⟨more, rfl, hrest⟩ | ⟨taken, rfl, hrest⟩
    · -- The other group holds only units that were sent before.
      have hi := ih h (hrest ▸ ho.tail)
      omega
    · cases taken with
      | nil =>
        have hothers : p.Grouping ([] ++ groups.flatten) others := hrest ▸ ho.tail
        have hi := ih h hothers
        omega
      | cons unit taken =>
        cases groups with
        | nil => simp at hrest
        | cons group groups =>
          have hfits := ho.fits _ List.mem_cons_self
          have hle := p.aggregateSize_le_append ahead (unit :: taken)
          have htaken : 2 ≤ (unit :: taken).length → p.aggregateSize (unit :: taken) ≤ p.mtu := by
            intro htwo
            have hother := hfits (by rw [List.length_append]; omega)
            omega
          obtain ⟨more, rfl, hmore⟩ := h.exists_eq_append hrest htaken
          -- Both groups hold `unit`, so that neither yields more payloads than the other.
          have hgroup := length_payloadsOf_of_mem (h.fits _ List.mem_cons_self)
            (List.mem_append_left more (List.mem_cons_self (a := unit) (l := taken)))
          have hother := length_payloadsOf_of_mem hfits
            (List.mem_append_right ahead (List.mem_cons_self (a := unit) (l := taken)))
          have hi := ih h.tail (hmore ▸ ho.tail)
          simp only [List.flatMap_cons, List.length_append]
          omega

end Greedy

theorem length_payloads_le {p : Packing Header} (hs : p.singly = false) {units : List Bytes}
    {groups : List (List Bytes)} (h : p.Grouping (p.accepted units) groups) :
    (p.payloads units).length ≤ (groups.flatMap p.payloadsOf).length := by
  obtain ⟨greedy, hgreedy, hflat, hpayloads⟩ := exists_greedy hs units
  have hgroups : p.Grouping ([] ++ greedy.flatten) groups := hflat ▸ h
  rw [hpayloads]
  exact hgreedy.length_flatMap_le hgroups

theorem ceilDiv_le_ceilDiv_of_le {n a b : Nat} (ha : 0 < a) (hab : a ≤ b) :
    n ⌈/⌉ b ≤ n ⌈/⌉ a := by
  have hb : 0 < b := by omega
  have hn : n ≤ a * (n ⌈/⌉ a) := le_smul_ceilDiv ha
  exact (ceilDiv_le_iff_le_mul hb).mpr (hn.trans (Nat.mul_le_mul_right _ hab))

theorem length_payloadsOf_singleton {p : Packing Header} {unit : Bytes}
    (hu : p.framing.unitHeaderSize ≤ unit.length) (hl : p.mtu < unit.length) :
    (p.payloadsOf [unit]).length =
      (unit.length - p.framing.unitHeaderSize) ⌈/⌉ (p.mtu - p.framing.fragmentHeaderSize) := by
  obtain ⟨header, hheader⟩ := p.framing.exists_unitHeader_iff.mpr hu
  have hheaders : p.unitHeaders [unit] = [header] := by
    simp [unitHeaders, hheader, Except.toOption]
  rw [payloadsOf, if_neg (Nat.not_le.mpr hl), hheaders, List.flatMap_singleton, length_fragments]

theorem length_payloadsOf_anti {p : Packing Header} {limit : Nat} {unit : Bytes}
    (hm : p.framing.fragmentHeaderSize < p.mtu) (hle : p.mtu ≤ limit)
    (hu : p.framing.unitHeaderSize ≤ unit.length) :
    (({ p with mtu := limit }).payloadsOf [unit]).length ≤ (p.payloadsOf [unit]).length := by
  have hh := p.framing.unitHeaderSize_le
  have hroom : 0 < p.mtu - p.framing.fragmentHeaderSize := by omega
  by_cases hfits : unit.length ≤ p.mtu
  · have hlimit := length_payloadsOf_of_le (p := { p with mtu := limit }) (hfits.trans hle)
    rw [hlimit, length_payloadsOf_of_le hfits]
  · have hpieces := length_payloadsOf_singleton hu (Nat.lt_of_not_le hfits)
    by_cases hlimit : unit.length ≤ limit
    · have hone := length_payloadsOf_of_le (p := { p with mtu := limit }) hlimit
      have hpos : ¬ (p.payloadsOf [unit]).length ≤ 0 := by
        rw [hpieces, ceilDiv_le_iff_le_mul hroom]
        omega
      omega
    · have hfewer := length_payloadsOf_singleton (p := { p with mtu := limit }) hu
        (Nat.lt_of_not_le hlimit)
      rw [hfewer, hpieces]
      exact ceilDiv_le_ceilDiv_of_le hroom (by simp only; omega)

theorem Grouping.length_flatMap_anti {p : Packing Header} {limit : Nat} {units : List Bytes}
    {groups : List (List Bytes)} (h : p.Grouping units groups)
    (hm : p.framing.fragmentHeaderSize < p.mtu) (hle : p.mtu ≤ limit)
    (hu : ∀ unit ∈ units, p.framing.unitHeaderSize ≤ unit.length) :
    (groups.flatMap ({ p with mtu := limit }).payloadsOf).length ≤
      (groups.flatMap p.payloadsOf).length := by
  rw [List.length_flatMap, List.length_flatMap]
  apply List.sum_le_sum
  intro group hgroup
  obtain ⟨unit, more, rfl⟩ := List.exists_cons_of_ne_nil (h.ne_nil group hgroup)
  have hmem : unit ∈ units :=
    h.flatten_eq ▸ List.mem_flatten_of_mem hgroup List.mem_cons_self
  have hlimit := length_payloadsOf_of_mem ((h.of_mtu_le hle).fits _ hgroup) List.mem_cons_self
  have hgroup := length_payloadsOf_of_mem (h.fits _ hgroup) List.mem_cons_self
  rw [hlimit, hgroup]
  exact length_payloadsOf_anti hm hle (hu unit hmem)

theorem length_payloads_anti {p : Packing Header} {limit : Nat}
    (hm : p.framing.fragmentHeaderSize < p.mtu) (hle : p.mtu ≤ limit) (units : List Bytes) :
    (({ p with mtu := limit }).payloads units).length ≤ (p.payloads units).length := by
  have hu : ∀ unit ∈ p.accepted units, p.framing.unitHeaderSize ≤ unit.length := by
    intro unit hunit
    have hsize := (List.mem_filter.mp hunit).2
    exact (decide_eq_true_iff.mp hsize).1
  by_cases hs : p.singly = true
  · have h := (Grouping.singletons p (p.accepted units)).length_flatMap_anti hm hle hu
    rw [List.flatMap_map, List.flatMap_map] at h
    rwa [payloads_of_singly (p := { p with mtu := limit }) hs, payloads_of_singly hs]
  · have hs' : p.singly = false := Bool.eq_false_iff.mpr hs
    obtain ⟨groups, hgreedy, hflat, hpayloads⟩ := exists_greedy hs' units
    have hgroups : p.Grouping (p.accepted units) groups := hflat ▸ hgreedy.grouping
    -- The old groups are still possible, and the greedy ones are no more than those.
    have hmin := length_payloads_le (p := { p with mtu := limit }) hs' (hgroups.of_mtu_le hle)
    rw [hpayloads]
    exact hmin.trans (hgroups.length_flatMap_anti hm hle hu)

end NalTransport.Packing

namespace NalTransport.Codec

/-- The payloads are as few as units can be sent in that keep their order. -/
theorem isLeast_length_payloads (c : Codec) (mtu : Nat) (units : List Bytes) :
    let p : Packing c.Header := { framing := c.framing, mtu }
    let sent := units.filter fun unit =>
      c.framing.unitHeaderSize ≤ unit.length ∧ unit.length ≤ maxUnitSize
    IsLeast {n | ∃ groups, p.Grouping sent groups ∧ n = (groups.flatMap p.payloadsOf).length}
      (p.payloads units).length := by
  intro p sent
  obtain ⟨groups, hgreedy, hflat, hpayloads⟩ := Packing.exists_greedy (p := p) rfl units
  have hgroups : p.Grouping (p.accepted units) groups := hflat ▸ hgreedy.grouping
  constructor
  · exact ⟨groups, hgroups, by rw [hpayloads]⟩
  · rintro n ⟨others, hothers, rfl⟩
    exact Packing.length_payloads_le rfl hothers

/-- More room never costs payloads, although it moves the ends of the groups. -/
theorem length_payloads_le_of_mtu_le (c : Codec) (units : List Bytes) (singly : Bool)
    {mtu limit : Nat} (hm : c.framing.fragmentHeaderSize < mtu) (hle : mtu ≤ limit) :
    (Packing.payloads { framing := c.framing, mtu := limit, singly } units).length ≤
      (Packing.payloads { framing := c.framing, mtu, singly } units).length :=
  Packing.length_payloads_anti (p := { framing := c.framing, mtu, singly }) hm hle units

/-- With more room a unit in two fragments and the one behind it share a payload. -/
theorem length_payloads_le_of_mtu_le_avc :
    let units : List Bytes := [[101, 1, 2, 3, 4], [65, 9]]
    Packing.payloads { framing := Avc.framing, mtu := 4 } units =
        [[124, 133, 1, 2], [124, 69, 3, 4], [65, 9]] ∧
      Packing.payloads { framing := Avc.framing, mtu := 12 } units =
        [[120, 0, 5, 101, 1, 2, 3, 4, 0, 2, 65, 9]] ∧
      (Packing.payloads { framing := Avc.framing, mtu := 12 } units).length ≤
        (Packing.payloads { framing := Avc.framing, mtu := 4 } units).length := by
  intro units
  have hm : Avc.framing.fragmentHeaderSize < 4 := by decide
  have hle : 4 ≤ 12 := by decide
  exact ⟨by cbv, by cbv, length_payloads_le_of_mtu_le avc units false hm hle⟩

end NalTransport.Codec
