import Mathlib
import NalTransport.Proofs.Codec
import NalTransport.Proofs.Packing.PayloadSize

/-! The fragments of a unit that exceeds the limit. Their number is known before
they are made, all but the last are as long as the limit allows, and there are at
least two of them, because a fragment has a longer header than the unit. -/

namespace NalTransport

namespace Bytes

theorem length_of_mem_dropLast_chunks {size : Nat} {data part : Bytes} (hs : 0 < size)
    (h : part ∈ (chunks size data).dropLast) : part.length = size := by
  induction data using induct_drop hs with
  | nil => simp [chunks_nil] at h
  | drop data hd ih =>
    rw [chunks_of_pos hs hd] at h
    by_cases hrest : data.drop size = []
    · simp [hrest, chunks_nil] at h
    · have hne : chunks size (data.drop size) ≠ [] := by
        rw [chunks_of_pos hs hrest]
        exact List.cons_ne_nil _ _
      have hlt : size < data.length := by simpa using hrest
      rw [List.dropLast_cons_of_ne_nil hne] at h
      rcases List.mem_cons.mp h with rfl | h
      · rw [List.length_take]
        omega
      · exact ih h

end Bytes

namespace Packing

variable {Header : Type}

theorem map_length_fragments (p : Packing Header) (unit : PendingUnit Header) :
    (p.fragments unit).map List.length =
      (p.parts unit).map fun part => p.framing.fragmentHeaderSize + part.length := by
  rw [fragments_eq, List.map_map, ← List.zipIdx_map_fst 0 (p.parts unit), List.map_map]
  simp [Function.comp_def, p.framing.length_fragmentHeader]

theorem length_fragments (p : Packing Header) (unit : PendingUnit Header) :
    (p.fragments unit).length =
      (unit.data.length - p.framing.unitHeaderSize) ⌈/⌉ (p.mtu - p.framing.fragmentHeaderSize) := by
  rw [fragments_eq, List.length_map, List.length_zipIdx, parts, Bytes.length_chunks,
    List.length_drop, Nat.ceilDiv_eq_add_pred_div]

theorem two_le_length_fragments {p : Packing Header} {unit : PendingUnit Header}
    (hh : p.framing.unitHeaderSize < p.framing.fragmentHeaderSize)
    (hm : p.framing.fragmentHeaderSize < p.mtu) (hl : p.mtu < unit.data.length) :
    2 ≤ (p.fragments unit).length := by
  have hroom : 0 < p.mtu - p.framing.fragmentHeaderSize := by omega
  have hone : ¬ (p.fragments unit).length ≤ 1 := by
    rw [length_fragments, ceilDiv_le_iff_le_mul hroom]
    omega
  omega

theorem length_of_mem_dropLast_fragments {p : Packing Header} {unit : PendingUnit Header}
    (hm : p.framing.fragmentHeaderSize < p.mtu) {payload : Bytes}
    (h : payload ∈ (p.fragments unit).dropLast) : payload.length = p.mtu := by
  have hmem : payload.length ∈ (p.fragments unit).dropLast.map List.length :=
    List.mem_map_of_mem h
  rw [List.map_dropLast, map_length_fragments, ← List.map_dropLast] at hmem
  obtain ⟨part, hpart, hlen⟩ := List.mem_map.mp hmem
  have hfull := Bytes.length_of_mem_dropLast_chunks (Nat.sub_pos_of_lt hm) hpart
  omega

theorem lt_length_of_mem_fragments {p : Packing Header} {unit : PendingUnit Header}
    {payload : Bytes} (h : payload ∈ p.fragments unit) :
    p.framing.fragmentHeaderSize < payload.length := by
  have hmem : payload.length ∈ (p.fragments unit).map List.length := List.mem_map_of_mem h
  rw [map_length_fragments] at hmem
  obtain ⟨part, hpart, hlen⟩ := List.mem_map.mp hmem
  have hpos := (Bytes.length_of_mem_chunks hpart).1
  omega

theorem payloads_of_lt {p : Packing Header} {unit : PendingUnit Header}
    (ha : p.accept? unit.data = some unit) (hl : p.mtu < unit.data.length) :
    p.payloads [unit.data] = p.fragments unit := by
  have halone : p.alone unit = p.fragments unit := if_neg (Nat.not_le.mpr hl)
  simp [payloads_eq, cut, group, ha, halone]

end Packing

namespace Codec

theorem unitHeaderSize_lt (c : Codec) :
    c.framing.unitHeaderSize < c.framing.fragmentHeaderSize := by
  cases c <;> decide

theorem map_view_fragments {c : Codec} {mtu : Nat} {singly : Bool} {unit : PendingUnit c.Header}
    (hu : c.framing.unitHeader unit.data = .ok unit.header) :
    let p : Packing c.Header := { framing := c.framing, mtu, singly }
    (p.fragments unit).map c.view = (p.parts unit).zipIdx.map fun (part, i) =>
      .ok
        { header := c.retyped unit.header c.fragmentType
          fragmentHeader? := some
            { first := i == 0, last := i + 1 == (p.fragments unit).length
              unitType := c.unitType unit.header }
          fragmentData? := some part
          units := .ok [] } := by
  intro p
  have hcount : (p.fragments unit).length = (p.parts unit).length := by
    rw [p.fragments_eq, List.length_map, List.length_zipIdx]
  rw [hcount, p.fragments_eq, List.map_map]
  exact List.map_congr_left fun (part, i) _ => view_fragment hu _ _ part

theorem reserved_of_mem_fragments {mtu : Nat} {singly : Bool} {unit : PendingUnit Avc.Header}
    {payload : Bytes}
    (h : payload ∈ Packing.fragments { framing := Avc.framing, mtu, singly } unit) :
    ∀ b ∈ payload[1]?, b &&& Avc.Payload.reservedMask = 0 := by
  obtain ⟨⟨part, i⟩, -, rfl⟩ := List.mem_map.mp h
  exact Avc.Payload.reserved_of_fragmentHeader _ _ _ part

/-- A unit that exceeds the limit goes out in fragments that show their place, and all of them
together show the whole unit. -/
theorem fragments_oversized (c : Codec) {mtu : Nat} (singly : Bool) {unit : Bytes}
    (hm : c.framing.fragmentHeaderSize < mtu) (hl : mtu < unit.length)
    (hmax : unit.length ≤ maxUnitSize) :
    let payloads := Packing.payloads { framing := c.framing, mtu, singly } [unit]
    payloads.length =
        (unit.length - c.framing.unitHeaderSize) ⌈/⌉ (mtu - c.framing.fragmentHeaderSize) ∧
      2 ≤ payloads.length ∧
      (∀ payload ∈ payloads.dropLast, payload.length = mtu) ∧
      (∀ payload ∈ payloads,
        c.framing.fragmentHeaderSize + 1 ≤ payload.length ∧ payload.length ≤ mtu) ∧
      (∃ (header : c.Header) (parts : List Bytes), c.framing.unitHeader unit = .ok header ∧
        parts.flatten = unit.drop c.framing.unitHeaderSize ∧
        payloads.map c.view = parts.zipIdx.map fun (part, i) =>
          .ok
            { header := c.retyped header c.fragmentType
              fragmentHeader? := some
                { first := i == 0, last := i + 1 == payloads.length, unitType := c.unitType header }
              fragmentData? := some part
              units := .ok [] }) ∧
      (∀ payload ∈ payloads, ∀ view, c.view payload = .ok view →
        ∀ fragment ∈ view.fragmentHeader?, ¬ (fragment.first = true ∧ fragment.last = true)) ∧
      (c = avc → ∀ payload ∈ payloads, ∀ b ∈ payload[1]?, b &&& Avc.Payload.reservedMask = 0) := by
  intro payloads
  have hh := c.unitHeaderSize_lt
  have hsize : c.framing.unitHeaderSize ≤ unit.length := by omega
  obtain ⟨header, hu⟩ := c.framing.exists_unitHeader_iff.mpr hsize
  let p : Packing c.Header := { framing := c.framing, mtu, singly }
  let u : PendingUnit c.Header := { header, data := unit }
  have haccept : p.accept? u.data = some u :=
    Packing.accept?_eq_some_iff.mpr ⟨rfl, hu, hsize, hmax⟩
  have hpayloads : payloads = p.fragments u := Packing.payloads_of_lt haccept hl
  have htwo : 2 ≤ (p.fragments u).length := Packing.two_le_length_fragments hh hm hl
  have hview : (p.fragments u).map c.view = _ := map_view_fragments hu
  rw [hpayloads]
  refine ⟨p.length_fragments u, htwo, fun payload h => ?_, fun payload h => ?_,
    ⟨header, p.parts u, hu, Bytes.flatten_chunks (Nat.sub_pos_of_lt hm) _, hview⟩,
    fun payload h view hv fragment hf hboth => ?_, fun hc payload h => ?_⟩
  · exact Packing.length_of_mem_dropLast_fragments hm h
  · exact ⟨Packing.lt_length_of_mem_fragments h, (Packing.length_of_mem_fragments h).2⟩
  · have hmem : .ok view ∈ (p.fragments u).map c.view := hv ▸ List.mem_map_of_mem h
    rw [hview] at hmem
    obtain ⟨⟨part, i⟩, -, he⟩ := List.mem_map.mp hmem
    obtain rfl := Except.ok.inj he
    obtain rfl := Option.some.inj hf
    have hfirst : i = 0 := by simpa using hboth.1
    have hlast : i + 1 = (p.fragments u).length := by simpa using hboth.2
    omega
  · subst hc
    exact reserved_of_mem_fragments h

/-- The data fills the last fragment as well. -/
theorem fragments_oversized_full :
    let unit : Bytes := [229, 1, 2, 3, 4]
    let payloads := Packing.payloads { framing := Avc.framing, mtu := 4 } [unit]
    payloads = [[252, 133, 1, 2], [252, 69, 3, 4]] ∧ payloads.length = (5 - 1) ⌈/⌉ (4 - 2) ∧
      ∀ payload ∈ payloads, ∀ b ∈ payload[1]?, b &&& Avc.Payload.reservedMask = 0 := by
  intro unit payloads
  have hrun : Packing.payloads { framing := Avc.framing, mtu := 4 } [[229, 1, 2, 3, 4]] =
      [[252, 133, 1, 2], [252, 69, 3, 4]] := by cbv
  have hm : Avc.framing.fragmentHeaderSize < 4 := by decide
  have hl : 4 < unit.length := by decide
  obtain ⟨hlength, -, -, -, -, -, hreserved⟩ := fragments_oversized avc false hm hl (by decide)
  exact ⟨hrun, hlength, hreserved rfl⟩

end Codec

end NalTransport
