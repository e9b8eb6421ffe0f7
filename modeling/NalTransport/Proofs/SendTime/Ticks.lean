import Mathlib.Algebra.Order.Floor.Div
import Mathlib.Algebra.Order.Group.Unbundled.Int
import Mathlib.Algebra.Ring.Nat
import Mathlib.GroupTheory.GroupAction.Ring
import Mathlib.Order.Monotone.Basic

/-! Ticks of a clock, counted in nanoseconds that have passed. A count is rounded down,
which loses nothing as long as ticks are no longer than nanoseconds, and a counter that
starts again after a period still measures what is shorter than one. -/

namespace NalTransport

/-- Whole ticks of a clock that makes `rate` of them in a second. -/
def wholeTicks (rate nanoseconds : Nat) : Nat := nanoseconds * rate / 1000000000

theorem wholeTicks_one (n : Nat) : wholeTicks 1 n = n / 1000000000 := by
  rw [wholeTicks, Nat.mul_one]

theorem wholeTicks_mul_div {rate k : Nat} (hk : 0 < k) (n : Nat) :
    wholeTicks (rate * k) n / k = wholeTicks rate n := by
  rw [wholeTicks, ← Nat.mul_assoc, Nat.div_div_eq_div_mul, Nat.mul_div_mul_right _ _ hk, wholeTicks]

theorem wholeTicks_eq_add (rate n : Nat) :
    wholeTicks rate n = n / 1000000000 * rate + wholeTicks rate (n % 1000000000) := by
  have hsplit : n * rate = 1000000000 * (n / 1000000000 * rate) + n % 1000000000 * rate := by
    rw [← Nat.mul_assoc, ← Nat.add_mul, Nat.div_add_mod]
  rw [wholeTicks, hsplit, Nat.mul_add_div (by decide), wholeTicks]

theorem wholeTicks_lt {rate n : Nat} (hr : 0 < rate) (hn : n < 1000000000) :
    wholeTicks rate n < rate :=
  Nat.div_lt_of_lt_mul (Nat.mul_lt_mul_of_pos_right hn hr)

theorem wholeTicks_div {rate : Nat} (hr : 0 < rate) (n : Nat) :
    wholeTicks rate n / rate = n / 1000000000 := by
  have h : wholeTicks (1 * rate) n / rate = wholeTicks 1 n := wholeTicks_mul_div hr n
  rwa [Nat.one_mul, wholeTicks_one] at h

theorem wholeTicks_mod {rate : Nat} (hr : 0 < rate) (n : Nat) :
    wholeTicks rate n % rate = wholeTicks rate (n % 1000000000) := by
  have hlt := wholeTicks_lt hr (Nat.mod_lt n (by decide : 0 < 1000000000))
  rw [wholeTicks_eq_add, Nat.mul_add_mod_of_lt hlt]

theorem wholeTicks_mono (rate : Nat) : Monotone (wholeTicks rate) :=
  fun _ _ h => Nat.div_le_div_right (Nat.mul_le_mul_right rate h)

theorem wholeTicks_add_bounds (rate m n : Nat) :
    wholeTicks rate m + wholeTicks rate n ≤ wholeTicks rate (m + n) ∧
      wholeTicks rate (m + n) ≤ wholeTicks rate m + wholeTicks rate n + 1 := by
  have hspan : (m + n) * rate = m * rate + n * rate := Nat.add_mul m n rate
  simp only [wholeTicks, hspan]
  constructor <;> omega

theorem sum_wholeTicks_le (rate : Nat) (spans : List Nat) :
    (spans.map (wholeTicks rate)).sum ≤ wholeTicks rate spans.sum := by
  induction spans with
  | nil => exact Nat.zero_le _
  | cons span spans ih =>
    rw [List.map_cons, List.sum_cons, List.sum_cons]
    exact (Nat.add_le_add_left ih _).trans (wholeTicks_add_bounds rate span spans.sum).1

/-- Only the joints between spans can cost a tick, of which there is one less than spans. -/
theorem wholeTicks_sum_lt (rate : Nat) {spans : List Nat} (hne : spans ≠ []) :
    wholeTicks rate spans.sum < (spans.map (wholeTicks rate)).sum + spans.length := by
  obtain ⟨span, spans, rfl⟩ := List.exists_cons_of_ne_nil hne
  rw [List.map_cons, List.sum_cons, List.sum_cons, List.length_cons]
  clear hne
  induction spans generalizing span with
  | nil => exact Nat.lt_succ_self _
  | cons next spans ih =>
    have hjoint := (wholeTicks_add_bounds rate span (next + spans.sum)).2
    have hrest := ih next
    rw [List.map_cons, List.sum_cons, List.sum_cons, List.length_cons]
    omega

theorem wholeTicks_strictMono {rate : Nat} (h : 1000000000 ≤ rate) :
    StrictMono (wholeTicks rate) := by
  intro m n hmn
  have hmul : (m + 1) * rate ≤ n * rate := Nat.mul_le_mul_right rate hmn
  rw [Nat.add_mul] at hmul
  simp only [wholeTicks]
  omega

theorem ceilDiv_wholeTicks {rate : Nat} (h : 1000000000 ≤ rate) (n : Nat) :
    (wholeTicks rate n * 1000000000) ⌈/⌉ rate = n := by
  have hr : 0 < rate := by omega
  have hle : wholeTicks rate n * 1000000000 ≤ n * rate := Nat.div_mul_le_self _ _
  have hlt : n * rate < wholeTicks rate n * 1000000000 + 1000000000 := by
    rw [wholeTicks]
    omega
  refine eq_of_forall_ge_iff fun m => ?_
  rw [ceilDiv_le_iff_le_mul hr, Nat.mul_comm rate]
  constructor
  · -- A nanosecond less would be short of the count by a whole tick.
    intro hm
    by_contra hmn
    have hstep : (m + 1) * rate ≤ n * rate := Nat.mul_le_mul_right rate (Nat.lt_of_not_le hmn)
    rw [Nat.add_mul] at hstep
    omega
  · exact fun hnm => hle.trans (Nat.mul_le_mul_right rate hnm)

theorem abs_wholeTicks_sub_lt (rate m n : Nat) :
    |((wholeTicks rate n : Int) - wholeTicks rate m) * 1000000000 - ((n : Int) - m) * rate| <
      1000000000 := by
  have hspan : ((n : Int) - m) * rate = n * rate - m * rate := Int.sub_mul _ _ _
  rw [hspan, abs_lt]
  simp only [wholeTicks]
  push_cast
  constructor <;> omega

theorem wholeTicks_lt_add {rate period m n : Nat} (hp : 0 < period) (h : m ≤ n)
    (hd : (n - m) * rate ≤ (period - 1) * 1000000000) :
    wholeTicks rate n < wholeTicks rate m + period := by
  have hspan : (n - m) * rate = n * rate - m * rate := Nat.sub_mul n m rate
  have hmul : m * rate ≤ n * rate := Nat.mul_le_mul_right rate h
  simp only [wholeTicks]
  omega

theorem sub_mod_of_lt_add {a b period : Nat} (h : a ≤ b) (hlt : b < a + period) :
    (((b % period : Nat) : Int) - (a % period : Nat)) % period = b - a := by
  rw [Int.natCast_emod, Int.natCast_emod, ← Int.sub_emod]
  exact Int.emod_eq_of_lt (by omega) (by omega)

/-- Two readings of a counter that starts again after `period` ticks are as far apart as the
clock has gone, to less than a tick. -/
theorem abs_elapsed_lt {rate period m n : Nat} (hp : 0 < period) (h : m ≤ n)
    (hd : (n - m) * rate ≤ (period - 1) * 1000000000) :
    |(((wholeTicks rate n % period : Nat) : Int) - (wholeTicks rate m % period : Nat)) % period *
      1000000000 - ((n : Int) - m) * rate| < 1000000000 := by
  rw [sub_mod_of_lt_add (wholeTicks_mono rate h) (wholeTicks_lt_add hp h hd)]
  exact abs_wholeTicks_sub_lt rate m n

end NalTransport
