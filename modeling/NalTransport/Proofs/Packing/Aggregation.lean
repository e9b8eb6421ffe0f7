import Mathlib
import NalTransport.Proofs.Packing.Greedy

/-! Aggregates describe the units in them. The reader finds the units in an aggregate
again, and in front of them one header that tells of all of their headers, whatever
the order in which they came. -/

namespace NalTransport

namespace Packing

variable {Header : Type} {p : Packing Header}

theorem aggregateSize_perm {units others : List Bytes} (hp : others.Perm units) :
    p.aggregateSize others = p.aggregateSize units := by
  rw [aggregateSize, aggregateSize, (hp.map _).sum_eq]

theorem Greedy.of_perm {groups : List (List Bytes)} {group others : List Bytes}
    (h : p.Greedy groups) (hg : group ∈ groups) (hp : others.Perm group) : p.Greedy [others] where
  ne_nil := by
    simp only [List.mem_singleton, forall_eq]
    rintro rfl
    exact h.ne_nil group hg (List.nil_perm.mp hp)
  fits := by
    simp only [List.mem_singleton, forall_eq]
    rw [aggregateSize_perm hp, hp.length_eq]
    exact h.fits group hg
  full := .singleton _

theorem length_of_mem_accepted {groups : List (List Bytes)} {units group : List Bytes}
    {unit : Bytes} (hf : groups.flatten = p.accepted units) (hg : group ∈ groups)
    (hunit : unit ∈ group) :
    p.framing.unitHeaderSize ≤ unit.length ∧ unit.length ≤ maxUnitSize := by
  have hmem : unit ∈ p.accepted units := hf ▸ List.mem_flatten_of_mem hg hunit
  simpa using (List.mem_filter.mp hmem).2

/-- A group goes out by itself as it does among others. -/
theorem payloads_of_mem_greedy (hs : p.singly = false) {groups : List (List Bytes)}
    {units group others : List Bytes} (h : p.Greedy groups) (hf : groups.flatten = p.accepted units)
    (hg : group ∈ groups) (hp : others.Perm group) : p.payloads others = p.payloadsOf others := by
  have haccepted : p.accepted others = others := by
    refine List.filter_eq_self.mpr fun unit hunit => ?_
    simpa using length_of_mem_accepted hf hg (hp.subset hunit)
  have hflat : [others].flatten = p.accepted others := by rw [haccepted, List.flatten_singleton]
  rw [payloads_of_greedy hs (h.of_perm hg hp) hflat, List.flatMap_singleton]

theorem forall₂_unitHeaders {units : List Bytes}
    (h : ∀ unit ∈ units, p.framing.unitHeaderSize ≤ unit.length) :
    List.Forall₂ (fun unit header => p.framing.unitHeader unit = .ok header) units
      (p.unitHeaders units) := by
  induction units with
  | nil => exact .nil
  | cons unit units ih =>
    obtain ⟨header, hu⟩ := p.framing.exists_unitHeader_iff.mpr (h unit List.mem_cons_self)
    have hheader : p.unitHeaders (unit :: units) = header :: p.unitHeaders units := by
      simp [unitHeaders, hu, Except.toOption]
    rw [hheader]
    exact .cons hu (ih fun u hu => h u (List.mem_cons_of_mem _ hu))

theorem exists_of_mem_unitHeaders {units : List Bytes} {header : Header}
    (h : header ∈ p.unitHeaders units) : ∃ unit, p.framing.unitHeader unit = .ok header := by
  obtain ⟨unit, -, hu⟩ := List.mem_filterMap.mp h
  refine ⟨unit, ?_⟩
  cases he : p.framing.unitHeader unit with
  | error e => simp [he, Except.toOption] at hu
  | ok other =>
    obtain rfl : other = header := by simpa [he, Except.toOption] using hu
    rfl

end Packing

namespace Codec

/-- An aggregate is read back with the units of its group, in their order, behind a header that
depends on their headers alone and not on the order. -/
theorem aggregates_describe (c : Codec) (mtu : Nat) (units : List Bytes) :
    let p : Packing c.Header := { framing := c.framing, mtu }
    (∃ groups, p.Greedy groups ∧ groups.flatten = p.accepted units) ∧
      ∀ groups, p.Greedy groups → groups.flatten = p.accepted units →
        p.payloads units = groups.flatMap p.payloads ∧
        ∀ group ∈ groups, 2 ≤ group.length → ∃ payload header headers,
          p.payloads group = [payload] ∧
          List.Forall₂ (fun unit header => c.framing.unitHeader unit = .ok header) group headers ∧
          c.Summarizes header headers ∧
          c.view payload =
            .ok { header, fragmentHeader? := none, fragmentData? := none, units := .ok group } ∧
          payload.length =
            c.framing.aggregationHeaderSize + (group.map fun unit => 2 + unit.length).sum ∧
          ∀ others, others.Perm group → ∃ other, p.payloads others = [other] ∧
            other.take c.framing.aggregationHeaderSize =
              payload.take c.framing.aggregationHeaderSize := by
  intro p
  refine ⟨?_, fun groups h hf => ⟨?_, fun group hg hl => ?_⟩⟩
  · obtain ⟨groups, hgreedy, hflat, -⟩ := Packing.exists_greedy (p := p) rfl units
    exact ⟨groups, hgreedy, hflat⟩
  · rw [Packing.payloads_of_greedy rfl h hf]
    exact List.flatMap_congr fun group hg =>
      (Packing.payloads_of_mem_greedy rfl h hf hg (.refl group)).symm
  · -- A reordered group is a group as well, and it makes one payload too.
    have hpayloads {others : List Bytes} (hp : others.Perm group) : p.payloads others =
        [c.framing.aggregationHeader (p.unitHeaders others) ++ Bundle.join others] := by
      rw [Packing.payloads_of_mem_greedy rfl h hf hg hp,
        Packing.payloadsOf_of_two_le (hp.length_eq ▸ hl)]
    have hheaders := Packing.forall₂_unitHeaders fun unit hunit =>
      (Packing.length_of_mem_accepted hf hg hunit).1
    have hframable : Bundle.Framable group := fun unit hunit =>
      (Packing.length_of_mem_accepted hf hg hunit).2
    have hne : p.unitHeaders group ≠ [] := List.ne_nil_of_length_pos (by
      rw [← hheaders.length_eq]
      omega)
    obtain ⟨header, hsummary, hview⟩ := exists_view_aggregate hne
      (fun header => Packing.exists_of_mem_unitHeaders) hframable
    refine ⟨_, header, _, hpayloads (.refl group), hheaders, hsummary, hview, ?_,
      fun others hp => ⟨_, hpayloads hp, ?_⟩⟩
    · rw [List.length_append, c.framing.length_aggregationHeader, Bundle.length_join]
      rfl
    · rw [List.take_left' (c.framing.length_aggregationHeader _),
        List.take_left' (c.framing.length_aggregationHeader _)]
      exact aggregationHeader_perm hne (hp.filterMap _)

/-- The second unit has the forbidden bit, and the first has the lower layer and temporal id. -/
theorem aggregates_describe_hevc :
    let p : Packing Hevc.Header := { framing := Hevc.framing, mtu := 10 }
    let group : List Bytes := [[64, 17], [195, 10]]
    let header : Hevc.Header :=
      { forbidden := true, unitType := 48, layerId := 2, temporalId := 1 }
    p.Greedy [group] ∧
      p.payloads group = [[224, 17, 0, 2, 64, 17, 0, 2, 195, 10]] ∧
      hevc.view [224, 17, 0, 2, 64, 17, 0, 2, 195, 10] =
        .ok { header, fragmentHeader? := none, fragmentData? := none, units := .ok group } ∧
      (∃ headers, List.Forall₂ (fun unit header => Hevc.Header.decode unit = .ok header) group
        headers ∧ header.Summarizes headers) ∧
      ∃ other, p.payloads [[195, 10], [64, 17]] = [other] ∧ other.take 2 = [224, 17] := by
  intro p group header
  have hgreedy : p.Greedy [group] := { ne_nil := by decide, fits := by decide, full := by decide }
  have hrun : p.payloads group = [[224, 17, 0, 2, 64, 17, 0, 2, 195, 10]] := by cbv
  have hdecode : hevc.view [224, 17, 0, 2, 64, 17, 0, 2, 195, 10] =
      .ok { header, fragmentHeader? := none, fragmentData? := none, units := .ok group } := by cbv
  obtain ⟨payload, found, headers, hpayload, hheaders, hsummary, hview, -, hperm⟩ :=
    ((aggregates_describe hevc 10 group).2 [group] hgreedy (by decide)).2 group (by decide)
      (by decide)
  obtain rfl : _ = payload := List.singleton_inj.mp (hrun.symm.trans hpayload)
  obtain rfl : header = found :=
    congrArg PayloadView.header (Except.ok.inj (hdecode.symm.trans hview))
  exact ⟨hgreedy, hrun, hdecode, ⟨headers, hheaders, hsummary⟩, hperm _ (.swap _ _ _)⟩

end Codec

end NalTransport
