import NalTransport.Proofs.Packing.Grouping
import NalTransport.Proofs.Payload.Bundle

/-! Every payload has bytes and stays within the limit, for every limit and all
units, whether they can be sent or not. -/

namespace NalTransport.Packing

variable {Header : Type}

theorem length_aggregate (p : Packing Header) (units : List (PendingUnit Header)) :
    (p.aggregate units).length = p.framing.aggregationHeaderSize + bundleSize units := by
  rw [aggregate, List.length_append, p.framing.length_aggregationHeader, Bundle.length_join,
    List.map_map]
  rfl

theorem length_of_mem_fragments {p : Packing Header} {unit : PendingUnit Header} {payload : Bytes}
    (h : payload ∈ p.fragments unit) : 0 < payload.length ∧ payload.length ≤ p.mtu := by
  obtain ⟨⟨part, i⟩, hmem, rfl⟩ := List.mem_map.mp h
  have hpart : 0 < part.length ∧ part.length ≤ p.mtu - p.framing.fragmentHeaderSize :=
    Bytes.length_of_mem_chunks (List.fst_mem_of_mem_zipIdx hmem)
  simp only [List.length_append, p.framing.length_fragmentHeader]
  omega

theorem length_of_mem_alone {p : Packing Header} {unit : PendingUnit Header} {payload : Bytes}
    (hu : 0 < unit.data.length) (h : payload ∈ p.alone unit) :
    0 < payload.length ∧ payload.length ≤ p.mtu := by
  rw [alone] at h
  split at h
  · obtain rfl := List.mem_singleton.mp h
    exact ⟨hu, ‹_›⟩
  · exact length_of_mem_fragments h

theorem length_of_mem_group {p : Packing Header} {units : List (PendingUnit Header)}
    {payload : Bytes} (hu : ∀ unit ∈ units, 0 < unit.data.length)
    (hf : 2 ≤ units.length → p.Fits units) (h : payload ∈ p.group units) :
    0 < payload.length ∧ payload.length ≤ p.mtu := by
  match units with
  | [] => exact absurd h List.not_mem_nil
  | [unit] => exact length_of_mem_alone (hu unit (List.mem_singleton_self unit)) h
  | first :: second :: units =>
    obtain rfl := List.mem_singleton.mp h
    have hfirst := length_lt_bundleSize (List.mem_cons_self (a := first) (l := second :: units))
    have hle := (hf (by simp)).2
    rw [length_aggregate]
    omega

theorem length_of_mem_payloads {p : Packing Header} {units : List Bytes} {payload : Bytes}
    (h : payload ∈ p.payloads units) : 0 < payload.length ∧ payload.length ≤ p.mtu := by
  rw [payloads_eq] at h
  obtain ⟨group, hgroup, hpayload⟩ := List.mem_flatMap.mp h
  refine length_of_mem_group (fun unit hunit => ?_) (fits_of_mem_cut (by simp) hgroup) hpayload
  have hmem : unit ∈ (p.cut [] (units.filterMap p.accept?)).flatten :=
    List.mem_flatten_of_mem hgroup hunit
  rw [flatten_cut, List.nil_append] at hmem
  obtain ⟨data, -, haccept⟩ := List.mem_filterMap.mp hmem
  obtain ⟨rfl, -, hmin, -⟩ := accept?_eq_some_iff.mp haccept
  exact Nat.lt_of_lt_of_le p.framing.unitHeaderSize_pos hmin

end NalTransport.Packing
