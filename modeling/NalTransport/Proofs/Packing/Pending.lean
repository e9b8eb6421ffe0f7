import Mathlib
import NalTransport.Proofs.Codec
import NalTransport.Proofs.Packing.Grouping

/-! What an accumulator holds between one unit and the next. The size that it keeps is
that of the units that wait, each of them can be sent, and several wait only as long as
one payload has room for all of them. What has gone out is never taken back. -/

namespace NalTransport.Packing

variable {Header : Type} {p : Packing Header} {a : Accumulator Header}

structure Sound (p : Packing Header) (a : Accumulator Header) : Prop where
  size : a.pendingSize = bundleSize a.pending.toList
  accepted : ∀ unit ∈ a.pending.toList, p.accept? unit.data = some unit
  fits : 2 ≤ a.pending.size → p.Fits a.pending.toList
  length_le : ∀ unit ∈ a.pending.toList, unit.data.length ≤ p.mtu

theorem sound_flush (a : Accumulator Header) : p.Sound (p.flush a) where
  size := rfl
  accepted := List.forall_mem_nil _
  fits h := absurd h (by simp [flush])
  length_le := List.forall_mem_nil _

theorem Sound.add (h : p.Sound a) {unit : PendingUnit Header}
    (hu : p.accept? unit.data = some unit) : p.Sound (p.add a unit) := by
  have hsize := pendingSize_add (p := p) h.size unit
  rw [add_eq h.size] at hsize ⊢
  split_ifs at hsize ⊢ with hf hl
  · refine ⟨hsize, ?_, fun _ => by simpa using hf, fun u hmem => ?_⟩
    · rw [Array.toList_push, List.forall_mem_append]
      exact ⟨h.accepted, List.forall_mem_singleton.mpr hu⟩
    · -- An aggregate of all of them is longer than each.
      rw [Array.toList_push] at hmem
      have hlt := length_lt_bundleSize hmem
      have hle := hf.2
      omega
  · exact sound_flush _
  · exact ⟨hsize, List.forall_mem_singleton.mpr hu, fun h2 => absurd h2 (by simp),
      List.forall_mem_singleton.mpr (Nat.le_of_not_lt hl)⟩

theorem Sound.push (h : p.Sound a) (data : Bytes) : p.Sound (p.push a data) := by
  unfold Packing.push
  cases hd : p.accept? data with
  | none => exact h
  | some unit =>
    obtain ⟨rfl, -⟩ := accept?_eq_some_iff.mp hd
    exact h.add hd

theorem Sound.foldl_push (h : p.Sound a) (units : List Bytes) :
    p.Sound (units.foldl p.push a) := by
  induction units generalizing a with
  | nil => exact h
  | cons data units ih => exact ih (h.push data)

theorem payloads_prefix_flush (p : Packing Header) (a : Accumulator Header) :
    a.payloads.toList <+: (p.flush a).payloads.toList := by
  rw [flush, Array.toList_appendList]
  exact List.prefix_append _ _

theorem payloads_prefix_push (p : Packing Header) (a : Accumulator Header) (data : Bytes) :
    a.payloads.toList <+: (p.push a data).payloads.toList := by
  unfold push
  cases p.accept? data with
  | none => exact List.prefix_rfl
  | some unit =>
    have hflush := p.payloads_prefix_flush a
    have hflush' := p.payloads_prefix_flush
      { p.flush a with pending := #[unit], pendingSize := unitLengthSize + unit.data.length }
    simp only [add]
    split_ifs
    · exact List.prefix_rfl
    · exact hflush.trans hflush'
    · exact hflush

theorem payloads_prefix_foldl_push (p : Packing Header) (a : Accumulator Header)
    (units : List Bytes) : a.payloads.toList <+: (units.foldl p.push a).payloads.toList := by
  induction units generalizing a with
  | nil => exact List.prefix_rfl
  | cons data units ih => exact (p.payloads_prefix_push a data).trans (ih _)

end NalTransport.Packing

namespace NalTransport.Codec

/-- A unit that exceeds the limit is never among those that wait. One that waits by itself may
be too long for an aggregate. -/
theorem pending_foldl_push (c : Codec) (mtu : Nat) (singly : Bool) (units : List Bytes) :
    let p : Packing c.Header := { framing := c.framing, mtu, singly }
    let a := units.foldl p.push {}
    a.pendingSize = (a.pending.toList.map fun unit => 2 + unit.data.length).sum ∧
      (∀ unit ∈ a.pending.toList,
        c.framing.unitHeaderSize ≤ unit.data.length ∧ unit.data.length ≤ 65535 ∧
          c.framing.unitHeader unit.data = .ok unit.header ∧ unit.data.length ≤ mtu) ∧
      (2 ≤ a.pending.size →
        singly = false ∧ c.framing.aggregationHeaderSize + a.pendingSize ≤ mtu) ∧
      (∀ more : List Bytes, a.payloads.toList <+: (more.foldl p.push a).payloads.toList) ∧
      ∀ b, (p.flush b).pending = #[] ∧ (p.flush b).pendingSize = 0 ∧
        b.payloads.toList <+: (p.flush b).payloads.toList := by
  intro p a
  have h : p.Sound a := (Packing.sound_flush {}).foldl_push units
  refine ⟨h.size, fun unit hunit => ?_, fun h2 => ?_, p.payloads_prefix_foldl_push a,
    fun b => ⟨rfl, rfl, p.payloads_prefix_flush b⟩⟩
  · obtain ⟨-, hheader, hmin, hmax⟩ := Packing.accept?_eq_some_iff.mp (h.accepted unit hunit)
    exact ⟨hmin, hmax, hheader, h.length_le unit hunit⟩
  · obtain ⟨hs, hle⟩ := h.fits h2
    exact ⟨hs, h.size ▸ hle⟩

/-- Two fragments have gone out, and two units wait that fill an aggregate up to the limit. The
one between them has no whole header. -/
theorem pending_foldl_push_hevc :
    let p : Packing Hevc.Header := { framing := Hevc.framing, mtu := 11 }
    let a := List.foldl p.push {}
      [[38, 1, 10, 11, 12, 13, 14, 15, 16, 17, 18, 19], [2, 1, 7], [5], [64, 1]]
    a.pending.toList.map (·.data) = [[2, 1, 7], [64, 1]] ∧ a.pendingSize = 9 ∧
      a.payloads.size = 2 ∧
      (∀ unit ∈ a.pending.toList, Hevc.Header.decode unit.data = .ok unit.header) ∧
      2 ≤ a.pending.size ∧ 2 + a.pendingSize ≤ 11 := by
  intro p a
  obtain ⟨-, hunits, hfits, -⟩ := pending_foldl_push .hevc 11 false
    [[38, 1, 10, 11, 12, 13, 14, 15, 16, 17, 18, 19], [2, 1, 7], [5], [64, 1]]
  have hwait : 2 ≤ a.pending.size := by cbv
  exact ⟨by cbv, by cbv, by cbv, fun unit hunit => (hunits unit hunit).2.2.1, hwait, (hfits hwait).2⟩

end NalTransport.Codec
