import Mathlib
import NalTransport.Proofs.Codec
import NalTransport.Proofs.Packing.Grouping
import NalTransport.Proofs.Payload.Reassembly

/-! A receiver gets back the units that were packed, in order, each once and as
it was. What is missing was dropped for its length, or because the limit leaves
no room for it, whatever its neighbours are. -/

namespace NalTransport.Packing

variable {Header : Type}

def delivers (p : Packing Header) (data : Bytes) : Bool :=
  p.framing.unitHeaderSize ≤ data.length ∧ data.length ≤ maxUnitSize ∧
    (data.length ≤ p.mtu ∨ p.framing.fragmentHeaderSize < p.mtu)

theorem delivers_of_accept? {p : Packing Header} {data : Bytes} {unit : PendingUnit Header}
    (h : p.accept? data = some unit) :
    p.delivers data = decide (data.length ≤ p.mtu ∨ p.framing.fragmentHeaderSize < p.mtu) := by
  obtain ⟨-, -, hmin, hmax⟩ := accept?_eq_some_iff.mp h
  simp [delivers, hmin, hmax]

theorem map_data_filterMap_accept? (p : Packing Header) (units : List Bytes) :
    ((units.filterMap p.accept?).map (·.data)).filter p.delivers = units.filter p.delivers := by
  rw [map_data_accept?, accepted, List.filter_filter]
  refine List.filter_congr fun data _ => ?_
  rw [Bool.eq_iff_iff]
  simp only [delivers, Bool.and_eq_true, decide_eq_true_iff]
  exact ⟨fun h => h.1, fun h => ⟨h, h.1, h.2.1⟩⟩

theorem carries_fragments {p : Packing Header} {read? : Bytes → Option Carried}
    {plain : Header → Prop} (hr : p.framing.ReadBack read? plain) {unit : PendingUnit Header}
    (hu : p.framing.unitHeader unit.data = .ok unit.header)
    (hm : p.framing.fragmentHeaderSize < p.mtu) (hl : p.mtu < unit.data.length) :
    Reassembly.Carries read? (p.fragments unit) [unit.data] := by
  have hle := p.framing.unitHeaderSize_le
  have hroom : 0 < p.mtu - p.framing.fragmentHeaderSize := by omega
  have hne : unit.data.drop p.framing.unitHeaderSize ≠ [] := by
    simp only [ne_eq, List.drop_eq_nil_iff]
    omega
  have hparts : p.parts unit ≠ [] := by
    rw [parts, Bytes.chunks_of_pos hroom hne]
    exact List.cons_ne_nil _ _
  have hflat : (p.parts unit).flatten = unit.data.drop p.framing.unitHeaderSize :=
    Bytes.flatten_chunks hroom _
  have h := Reassembly.Carries.fragments hparts
    fun part first last => hr.fragment first last part hu
  rwa [hflat, List.take_append_drop, ← fragments_eq] at h

theorem carries_alone {p : Packing Header} {read? : Bytes → Option Carried}
    {plain : Header → Prop} (hr : p.framing.ReadBack read? plain) {unit : PendingUnit Header}
    (ha : p.accept? unit.data = some unit) (hp : plain unit.header) :
    Reassembly.Carries read? (p.alone unit) ([unit.data].filter p.delivers) := by
  have hu := (accept?_eq_some_iff.mp ha).2.1
  rw [alone, List.filter_cons, List.filter_nil, delivers_of_accept? ha]
  by_cases hl : unit.data.length ≤ p.mtu
  · simpa [hl] using Reassembly.Carries.whole (hr.unit hu hp)
  · by_cases hm : p.framing.fragmentHeaderSize < p.mtu
    · simpa [hl, hm] using carries_fragments hr hu hm (by omega)
    · have hroom : p.mtu - p.framing.fragmentHeaderSize = 0 := by omega
      simpa [hl, hm, fragments, hroom, Bytes.chunks_zero] using Reassembly.Carries.nil read?

theorem carries_aggregate {p : Packing Header} {read? : Bytes → Option Carried}
    {plain : Header → Prop} (hr : p.framing.ReadBack read? plain)
    {units : List (PendingUnit Header)} (ha : ∀ unit ∈ units, p.accept? unit.data = some unit)
    (hf : p.Fits units) :
    Reassembly.Carries read? [p.aggregate units] ((units.map (·.data)).filter p.delivers) := by
  have hd : ∀ data ∈ units.map (·.data), p.delivers data = true := by
    intro data hdata
    obtain ⟨unit, hunit, rfl⟩ := List.mem_map.mp hdata
    have hlt := length_lt_bundleSize hunit
    have hle := hf.2
    rw [delivers_of_accept? (ha unit hunit), decide_eq_true_iff]
    exact .inl (by omega)
  have hmax : ∀ data ∈ units.map (·.data), data.length ≤ maxUnitSize := by
    intro data hdata
    obtain ⟨unit, hunit, rfl⟩ := List.mem_map.mp hdata
    exact (accept?_eq_some_iff.mp (ha unit hunit)).2.2.2
  rw [List.filter_eq_self.mpr hd]
  exact .whole (hr.aggregate _ hmax)

theorem carries_group {p : Packing Header} {read? : Bytes → Option Carried}
    {plain : Header → Prop} (hr : p.framing.ReadBack read? plain)
    {units : List (PendingUnit Header)}
    (ha : ∀ unit ∈ units, p.accept? unit.data = some unit ∧ plain unit.header)
    (hf : 2 ≤ units.length → p.Fits units) :
    Reassembly.Carries read? (p.group units) ((units.map (·.data)).filter p.delivers) := by
  match units with
  | [] => exact .nil read?
  | [unit] =>
    have hunit := ha unit (List.mem_singleton_self unit)
    exact carries_alone hr hunit.1 hunit.2
  | first :: second :: units =>
    exact carries_aggregate hr (fun unit hunit => (ha unit hunit).1) (hf (by simp))

theorem flatMap_filter_delivers (p : Packing Header) (groups : List (List (PendingUnit Header))) :
    groups.flatMap (fun group => (group.map (·.data)).filter p.delivers) =
      (groups.flatten.map (·.data)).filter p.delivers := by
  rw [List.map_flatten, List.filter_flatten, List.map_map, List.flatMap_def]
  rfl

theorem carries_payloads {p : Packing Header} {read? : Bytes → Option Carried}
    {plain : Header → Prop} (hr : p.framing.ReadBack read? plain) {units : List Bytes}
    (hp : ∀ data ∈ units, ∀ header, p.framing.unitHeader data = .ok header → plain header) :
    Reassembly.Carries read? (p.payloads units) (units.filter p.delivers) := by
  have ha : ∀ unit ∈ units.filterMap p.accept?,
      p.accept? unit.data = some unit ∧ plain unit.header := by
    intro unit hunit
    obtain ⟨data, hdata, haccept⟩ := List.mem_filterMap.mp hunit
    obtain ⟨rfl, hu, -⟩ := accept?_eq_some_iff.mp haccept
    exact ⟨haccept, hp _ hdata _ hu⟩
  have hflat : (p.cut [] (units.filterMap p.accept?)).flatten = units.filterMap p.accept? := by
    rw [flatten_cut, List.nil_append]
  rw [payloads_eq, ← map_data_filterMap_accept?, ← hflat, ← flatMap_filter_delivers, hflat]
  apply Reassembly.Carries.flatMap
  intro group hgroup
  refine carries_group hr (fun unit hunit => ha unit ?_) (fits_of_mem_cut (by simp) hgroup)
  rw [← hflat]
  exact List.mem_flatten_of_mem hgroup hunit

end NalTransport.Packing

namespace NalTransport.Codec

/-- Nothing else is lost, and nothing is sent twice, out of order or changed, whatever the limit. -/
theorem units?_payloads (c : Codec) (mtu : Nat) (singly : Bool) {units : List Bytes}
    (hp : ∀ data ∈ units, c.PlainUnit data) :
    Reassembly.units? c.carried?
        (Packing.payloads { framing := c.framing, mtu, singly } units) =
      some (units.filter fun data =>
        c.framing.unitHeaderSize ≤ data.length ∧ data.length ≤ maxUnitSize ∧
          (data.length ≤ mtu ∨ c.framing.fragmentHeaderSize < mtu)) :=
  (Packing.carries_payloads (p := { framing := c.framing, mtu, singly }) c.readBack hp).units?_eq

/-- Two units share a payload, one that is too short is dropped between them, and one that
is too long for the rest goes out in two fragments. -/
theorem units?_payloads_hevc :
    let units : List Bytes :=
      [[2, 1, 7], [5], [64, 1], [38, 1, 10, 11, 12, 13, 14, 15, 16, 17, 18, 19]]
    Packing.payloads { framing := Hevc.framing, mtu := 11 } units =
        [[96, 1, 0, 3, 2, 1, 7, 0, 2, 64, 1], [98, 1, 147, 10, 11, 12, 13, 14, 15, 16, 17],
          [98, 1, 83, 18, 19]] ∧
      Reassembly.units? Hevc.Payload.carried?
          (Packing.payloads { framing := Hevc.framing, mtu := 11 } units) =
        some [[2, 1, 7], [64, 1], [38, 1, 10, 11, 12, 13, 14, 15, 16, 17, 18, 19]] := by
  intro units
  have hp : ∀ data ∈ units, hevc.PlainUnit data := by decide
  exact ⟨by cbv, units?_payloads .hevc 11 false hp⟩

end NalTransport.Codec

