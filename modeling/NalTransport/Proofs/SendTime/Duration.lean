import Mathlib.Algebra.Order.BigOperators.Group.List
import NalTransport.Proofs.SendTime.Ticks
import NalTransport.Stream.Sender

/-! Spans of time as senders are given them, and the ticks of the media clock in them.
Words of 128 bits have room for every step of the count, and frame by frame it falls behind
by less than a tick a frame. -/

namespace NalTransport

structure Duration where
  seconds : UInt64
  nanoseconds : Fin 1000000000

namespace Duration

/-- All of it in nanoseconds. -/
def total (d : Duration) : Nat := d.seconds.toNat * 1000000000 + d.nanoseconds

/-- The total as a sum in words of 128 bits, which could wrap. -/
def totalWord (d : Duration) : BitVec 128 :=
  d.seconds.toBitVec.setWidth 128 * 1000000000 + BitVec.ofNat 128 d.nanoseconds

/-- Ticks in it, again in words of 128 bits. -/
def tickWord (rate : UInt32) (d : Duration) : BitVec 128 :=
  d.totalWord * rate.toBitVec.setWidth 128 / 1000000000

/-- Ticks cut down to 32 bits, or the largest of such words if they do not fit in one. -/
def wordTicks (rate : UInt32) (d : Duration) : UInt32 :=
  if d.tickWord rate ≤ 4294967295 then .ofBitVec ((d.tickWord rate).setWidth 32) else 4294967295

theorem total_lt (d : Duration) : d.total < 2 ^ 64 * 1000000000 := by
  have hs := d.seconds.toNat_lt
  have hn := d.nanoseconds.isLt
  rw [total]
  omega

theorem total_mul_lt (d : Duration) (rate : UInt32) : d.total * rate.toNat < 2 ^ 128 :=
  calc d.total * rate.toNat
      < 2 ^ 64 * 1000000000 * 2 ^ 32 := Nat.mul_lt_mul'' d.total_lt rate.toNat_lt
    _ < 2 ^ 128 := by decide

theorem toNat_totalWord (d : Duration) : d.totalWord.toNat = d.total := by
  have hlt := d.total_lt
  have hs := d.seconds.toNat_lt
  have hn := d.nanoseconds.isLt
  have hseconds : (d.seconds.toBitVec.setWidth 128).toNat = d.seconds.toNat :=
    (BitVec.toNat_setWidth _ _).trans (Nat.mod_eq_of_lt (by rw [UInt64.toNat_toBitVec]; omega))
  rw [total] at hlt ⊢
  rw [totalWord, BitVec.toNat_add, BitVec.toNat_mul, hseconds, BitVec.toNat_ofNat]
  simp only [BitVec.reduceToNat]
  omega

theorem toNat_tickWord (rate : UInt32) (d : Duration) :
    (d.tickWord rate).toNat = wholeTicks rate.toNat d.total := by
  have hrate : (rate.toBitVec.setWidth 128).toNat = rate.toNat :=
    BitVec.toNat_setWidth_of_le (by decide)
  rw [tickWord, BitVec.toNat_udiv, BitVec.toNat_mul, hrate, d.toNat_totalWord,
    Nat.mod_eq_of_lt (d.total_mul_lt rate)]
  rfl

theorem toNat_wordTicks (rate : UInt32) (d : Duration) :
    (d.wordTicks rate).toNat = min (wholeTicks rate.toNat d.total) 4294967295 := by
  have hfits : d.tickWord rate ≤ 4294967295 ↔ wholeTicks rate.toNat d.total ≤ 4294967295 := by
    rw [BitVec.le_def, toNat_tickWord]
    rfl
  rw [wordTicks]
  by_cases hle : wholeTicks rate.toNat d.total ≤ 4294967295
  · rw [if_pos (hfits.mpr hle), Nat.min_eq_left hle, UInt32.toNat_ofBitVec, BitVec.toNat_setWidth,
      toNat_tickWord]
    exact Nat.mod_eq_of_lt (by omega)
  · rw [if_neg (hfits.not.mpr hle), Nat.min_eq_right (Nat.le_of_not_le hle)]
    rfl

end Duration

theorem toNat_ticks (rate : UInt32) (n : Nat) :
    (ticks rate n).toNat = min (wholeTicks rate.toNat n) 4294967295 := by
  rw [ticks, UInt32.toNat_ofNat', wholeTicks]
  omega

theorem toNat_ticks_of_lt {rate : UInt32} {n : Nat} (h : (ticks rate n).toNat < 4294967295) :
    (ticks rate n).toNat = wholeTicks rate.toNat n := by
  rw [toNat_ticks] at h ⊢
  omega

theorem ticks_mono (rate : UInt32) {m n : Nat} (h : m ≤ n) : ticks rate m ≤ ticks rate n := by
  rw [UInt32.le_iff_toNat_le, toNat_ticks, toNat_ticks]
  exact min_le_min_right _ (wholeTicks_mono rate.toNat h)

/-- Where the clamp leaves the whole alone, it leaves every part of it alone. -/
theorem map_toNat_ticks {rate : UInt32} {spans : List Nat}
    (h : (ticks rate spans.sum).toNat < 4294967295) :
    spans.map (fun n => (ticks rate n).toNat) = spans.map (wholeTicks rate.toNat) := by
  refine List.map_congr_left fun n hn => toNat_ticks_of_lt (lt_of_le_of_lt ?_ h)
  exact UInt32.le_iff_toNat_le.mp (ticks_mono rate (List.le_sum_of_mem hn))

theorem sum_ticks_bounds {rate : UInt32} {spans : List Nat} (hne : spans ≠ [])
    (h : (ticks rate spans.sum).toNat < 4294967295) :
    (spans.map fun n => (ticks rate n).toNat).sum ≤ (ticks rate spans.sum).toNat ∧
      (ticks rate spans.sum).toNat <
        (spans.map fun n => (ticks rate n).toNat).sum + spans.length := by
  rw [map_toNat_ticks h, toNat_ticks_of_lt h]
  exact ⟨sum_wholeTicks_le rate.toNat spans, wholeTicks_sum_lt rate.toNat hne⟩

namespace Sender

variable {Memory : Type}

/-- The ticks that a sender counts are exact up to the largest word, and those of the parts of
a span fall short of the whole by less than a tick for each. -/
theorem samplesFor_exact (s : Sender Memory) :
    let rate := s.config.clockRate
    (∀ d : Duration, d.total * rate.toNat < 2 ^ 128 ∧ s.samplesFor d.total = d.wordTicks rate ∧
      (s.samplesFor d.total).toNat = min (d.total * rate.toNat / 10 ^ 9) (2 ^ 32 - 1)) ∧
    (∀ d d' : Duration, d.total ≤ d'.total → s.samplesFor d.total ≤ s.samplesFor d'.total) ∧
    ∀ (parts : List Duration) (whole : Duration), parts ≠ [] →
      (parts.map Duration.total).sum = whole.total →
      (s.samplesFor whole.total).toNat < 2 ^ 32 - 1 →
      let sum := (parts.map fun d => (s.samplesFor d.total).toNat).sum
      sum ≤ (s.samplesFor whole.total).toNat ∧
        (s.samplesFor whole.total).toNat ≤ sum + (parts.length - 1) := by
  intro rate
  refine ⟨fun d => ⟨d.total_mul_lt rate, ?_, toNat_ticks rate d.total⟩,
    fun d d' => ticks_mono rate, fun parts whole hne hsum hlt => ?_⟩
  · exact UInt32.toNat_inj.mp ((toNat_ticks rate d.total).trans (d.toNat_wordTicks rate).symm)
  · have hspans : parts.map Duration.total ≠ [] := List.map_eq_nil_iff.not.mpr hne
    have hbounds := sum_ticks_bounds hspans (hsum.symm ▸ hlt)
    rw [List.map_map, List.length_map, hsum] at hbounds
    refine ⟨hbounds.1, ?_⟩
    rw [← Nat.add_sub_assoc (List.length_pos_iff.mpr hne)]
    exact Nat.le_sub_one_of_lt hbounds.2

/-- Three frames at thirty a second are two ticks behind, which is as far as three can be. -/
theorem samplesFor_exact_thirds :
    let s : Sender Unit :=
      { config := { ssrc := 7 }, payloader := .avc false false, memory := (), timestamp := 0 }
    let frame : Duration := { seconds := 0, nanoseconds := 33333333 }
    let parts := [frame, frame, frame]
    let whole : Duration := { seconds := 0, nanoseconds := 99999999 }
    let longest : Duration := { seconds := 18446744073709551615, nanoseconds := 999999999 }
    (parts.map Duration.total).sum = whole.total ∧
      (parts.map fun d => (s.samplesFor d.total).toNat).sum = 8997 ∧
      (s.samplesFor whole.total).toNat = 8999 ∧ 8999 ≤ 8997 + (parts.length - 1) ∧
      s.samplesFor whole.total ≤ s.samplesFor longest.total ∧
      longest.wordTicks 90000 = 4294967295 := by
  intro s frame parts whole longest
  have hsum : (parts.map Duration.total).sum = whole.total := by decide
  have hparts : (parts.map fun d => (s.samplesFor d.total).toNat).sum = 8997 := by decide
  have hwhole : (s.samplesFor whole.total).toNat = 8999 := by decide
  obtain ⟨hexact, hmono, hdrift⟩ := samplesFor_exact s
  have hbehind := (hdrift parts whole (List.cons_ne_nil _ _) hsum (by rw [hwhole]; decide)).2
  rw [hparts, hwhole] at hbehind
  exact ⟨hsum, hparts, hwhole, hbehind, hmono whole longest (by decide),
    (hexact longest).2.1.symm.trans (by decide)⟩

end Sender

end NalTransport
