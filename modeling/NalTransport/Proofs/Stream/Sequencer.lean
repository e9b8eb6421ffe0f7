import Mathlib.Data.List.Nodup
import NalTransport.Stream.Sequencer

/-! Last number and roll-overs together count the draws. The numbers are this
count modulo its period, so that they repeat after a whole period only. -/

namespace NalTransport.Sequencer

def position (s : Sequencer) : Nat := s.rollOvers * 65536 + s.last.toNat

theorem last_and_rollOvers (s : Sequencer) :
    s.last.toNat = s.position % 65536 ∧ s.rollOvers = s.position / 65536 := by
  have hlast := s.last.toNat_lt
  simp only [position]
  omega

theorem position_draw (s : Sequencer) : s.draw.2.position = s.position + 1 := by
  have hlast := s.last.toNat_lt
  have hnumber : (s.last + 1).toNat = (s.last.toNat + 1) % 65536 := UInt16.toNat_add s.last 1
  have hzero : s.last + 1 = 0 ↔ (s.last + 1).toNat = 0 := by
    rw [← UInt16.toNat_inj]
    rfl
  simp only [draw, position, hzero, hnumber]
  split <;> omega

theorem draw_fst_eq (s : Sequencer) : s.draw.1 = UInt16.ofNat (s.position + 1) := by
  have hlast := (last_and_rollOvers s.draw.2).1
  rw [position_draw] at hlast
  apply UInt16.toNat_inj.mp
  exact hlast.trans UInt16.toNat_ofNat'.symm

theorem position_drawMany (s : Sequencer) (n : Nat) :
    (s.drawMany n).2.position = s.position + n := by
  induction n generalizing s with
  | zero => rw [drawMany_zero, Nat.add_zero]
  | succ n ih =>
    rw [drawMany_succ, ih, position_draw]
    omega

theorem position_start (start : UInt16) : position { last := start } = start.toNat := by
  simp only [position, Nat.zero_mul, Nat.zero_add]

theorem rollOvers_drawMany (start : UInt16) (n : Nat) :
    (drawMany { last := start } n).2.rollOvers = (start.toNat + n) / 65536 ∧
      (drawMany { last := start } n).2.rollOvers * 65536 +
        (drawMany { last := start } n).2.last.toNat = start.toNat + n := by
  have hposition := position_drawMany { last := start } n
  rw [position_start] at hposition
  have hrollOvers := (last_and_rollOvers (drawMany { last := start } n).2).2
  rw [hposition] at hrollOvers
  exact ⟨hrollOvers, hposition⟩

theorem drawMany_fst_eq (s : Sequencer) (n : Nat) :
    (s.drawMany n).1 = (List.range' 1 n).map fun k => UInt16.ofNat (s.position + k) := by
  induction n generalizing s with
  | zero => rfl
  | succ n ih =>
    have hshift (k : Nat) : s.position + 1 + k = s.position + (1 + k) := Nat.add_assoc _ _ _
    rw [drawMany_succ, ih, draw_fst_eq, position_draw, List.range'_succ, List.map_cons,
      ← List.map_add_range', List.map_map]
    simp only [hshift, Function.comp_def]

theorem drawMany_add (s : Sequencer) (m n : Nat) :
    s.drawMany (m + n) =
      ((s.drawMany m).1 ++ ((s.drawMany m).2.drawMany n).1, ((s.drawMany m).2.drawMany n).2) := by
  induction m generalizing s with
  | zero => simp [drawMany_zero]
  | succ m ih => rw [Nat.add_right_comm, drawMany_succ, ih, drawMany_succ, List.cons_append]

theorem isChain_drawMany (s : Sequencer) (n : Nat) :
    (s.drawMany n).1.IsChain fun number next => next = number + 1 := by
  induction n generalizing s with
  | zero => exact .nil
  | succ n ih =>
    have hrest := ih s.draw.2
    rw [drawMany_succ]
    cases n with
    | zero => exact .singleton _
    | succ n =>
      rw [drawMany_succ] at hrest ⊢
      exact .cons_cons rfl hrest

theorem nodup_drawMany (s : Sequencer) {n : Nat} (h : n ≤ 65536) : (s.drawMany n).1.Nodup := by
  rw [drawMany_fst_eq]
  refine List.Nodup.map_on (fun j hj k hk he => ?_) List.nodup_range'
  have hmod := congrArg UInt16.toNat he
  rw [UInt16.toNat_ofNat', UInt16.toNat_ofNat'] at hmod
  obtain ⟨_, hj, rfl⟩ := List.mem_range'.mp hj
  obtain ⟨_, hk, rfl⟩ := List.mem_range'.mp hk
  omega

theorem nodup_of_infix_drawMany {s : Sequencer} {n : Nat} {window : List UInt16}
    (h : window <:+: (s.drawMany n).1) (hl : window.length ≤ 65536) : window.Nodup := by
  obtain ⟨before, after, happend⟩ := h
  have hn : before.length + (window.length + after.length) = n := by
    rw [← length_drawMany s n, ← happend]
    simp only [List.length_append]
    omega
  rw [← hn, drawMany_add, drawMany_add, List.append_assoc] at happend
  have hrest := (List.append_inj happend (length_drawMany _ _).symm).2
  have hwindow := (List.append_inj hrest (length_drawMany _ _).symm).1
  rw [hwindow]
  exact nodup_drawMany _ hl

end NalTransport.Sequencer
