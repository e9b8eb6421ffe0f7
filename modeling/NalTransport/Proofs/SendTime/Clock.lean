import NalTransport.Proofs.SendTime.Ticks
import NalTransport.SendTime.Clock

/-! The short forms of an instant as counts of ticks. The NTP time counts ticks of 2⁻³²
seconds from the start of 1900 and starts again with each era, the send time counts ticks
of 2⁻¹⁸ seconds and starts again every 64 seconds, of which the offset is a multiple. -/

namespace NalTransport

theorem toNat_sendTimeOfNtp (ntp : UInt64) :
    (sendTimeOfNtp ntp).toNat = ntp.toNat / 2 ^ 14 % 2 ^ 24 := by
  have hones : (0xffffff : UInt64).toNat = 2 ^ 24 - 1 := rfl
  have hplaces : (14 : UInt64).toNat % 64 = 14 := rfl
  have hmask : ((ntp >>> 14) &&& 0xffffff).toNat = ntp.toNat / 2 ^ 14 % 2 ^ 24 := by
    rw [UInt64.toNat_and, UInt64.toNat_shiftRight, hones, hplaces, Nat.and_two_pow_sub_one_eq_mod,
      Nat.shiftRight_eq_div_pow]
  rw [sendTimeOfNtp, UInt64.toNat_toUInt32, hmask]
  omega

namespace Instant

theorem toNat_ntp (t : Instant) :
    t.ntp.toNat = (ntpOffset * 2 ^ 32 + wholeTicks (2 ^ 32) t.toNat) % 2 ^ 64 := by
  let seconds := t.toNat / 1000000000 + ntpOffset
  let fraction := wholeTicks (2 ^ 32) (t.toNat % 1000000000)
  have hntp : t.ntp = UInt64.ofNat seconds <<< 32 ||| UInt64.ofNat fraction := rfl
  have hlt : fraction < 2 ^ 32 :=
    wholeTicks_lt (Nat.two_pow_pos 32) (Nat.mod_lt _ (by decide))
  have hseconds : (UInt64.ofNat seconds <<< 32).toNat = 2 ^ 32 * (seconds % 2 ^ 32) := by
    rw [UInt64.toNat_shiftLeft, UInt64.toNat_ofNat']
    simp only [UInt64.reduceToNat, Nat.reduceMod, Nat.shiftLeft_eq]
    omega
  have hfraction : (UInt64.ofNat fraction).toNat = fraction := by
    rw [UInt64.toNat_ofNat']
    omega
  -- The fraction keeps below the seconds, so that the two halves add up.
  rw [hntp, UInt64.toNat_or, hseconds, hfraction, ← Nat.two_pow_add_eq_or_of_lt hlt,
    wholeTicks_eq_add]
  omega

theorem toNat_sendTime (t : Instant) :
    t.sendTime.toNat = wholeTicks (2 ^ 18) t.toNat % 2 ^ 24 := by
  have hrate : 2 ^ 32 = 2 ^ 18 * 2 ^ 14 := rfl
  have hticks : wholeTicks (2 ^ 32) t.toNat / 2 ^ 14 = wholeTicks (2 ^ 18) t.toNat := by
    rw [hrate, wholeTicks_mul_div (Nat.two_pow_pos 14)]
  rw [sendTime, toNat_sendTimeOfNtp, toNat_ntp, ← hticks, ntpOffset]
  omega

/-- The send time is exact to its last bit, also behind the end of an era, and what it lost to
its period does not show in the time between two instants that are less than a period apart. -/
theorem sendTimeOfNtp_ntp :
    (∀ t : Instant, (sendTimeOfNtp t.ntp).toNat = t.toNat * 2 ^ 18 / 10 ^ 9 % 2 ^ 24) ∧
      ∀ t₁ t₂ : Instant, t₁.toNat ≤ t₂.toNat →
        (t₂.toNat - t₁.toNat) * 2 ^ 18 ≤ (2 ^ 24 - 1) * 10 ^ 9 →
        let elapsed : Int :=
          ((sendTimeOfNtp t₂.ntp).toNat - (sendTimeOfNtp t₁.ntp).toNat) % 2 ^ 24
        |elapsed * 10 ^ 9 - (t₂.toNat - t₁.toNat) * 2 ^ 18| < 10 ^ 9 := by
  refine ⟨toNat_sendTime, fun t₁ t₂ h hd => ?_⟩
  have helapsed := abs_elapsed_lt (Nat.two_pow_pos 24) h hd
  rw [← toNat_sendTime, ← toNat_sendTime] at helapsed
  exact helapsed

theorem sendTimeOfNtp_ntp_eraEnd :
    let t₁ : Instant := 2085978495900000000
    let t₂ : Instant := 2085978496500000000
    (sendTimeOfNtp t₁.ntp).toNat = 16751001 ∧ (sendTimeOfNtp t₂.ntp).toNat = 131072 ∧
      t₁.toNat ≤ t₂.toNat ∧ (t₂.toNat - t₁.toNat) * 2 ^ 18 ≤ (2 ^ 24 - 1) * 10 ^ 9 ∧
      |((131072 - 16751001) % 2 ^ 24 * 10 ^ 9 - 600000000 * 2 ^ 18 : Int)| < 10 ^ 9 := by
  intro t₁ t₂
  have h₁ : (sendTimeOfNtp t₁.ntp).toNat = 16751001 := by decide
  have h₂ : (sendTimeOfNtp t₂.ntp).toNat = 131072 := by decide
  have hle : t₁.toNat ≤ t₂.toNat := by decide
  have hd : (t₂.toNat - t₁.toNat) * 2 ^ 18 ≤ (2 ^ 24 - 1) * 10 ^ 9 := by decide
  have hspan : (t₂.toNat : Int) - t₁.toNat = 600000000 := by decide
  have h := sendTimeOfNtp_ntp.2 t₁ t₂ hle hd
  rw [h₁, h₂, hspan] at h
  exact ⟨h₁, h₂, hle, hd, h⟩

theorem toNat_ntp_of_lt {t : Instant} (h : t.toNat / 1000000000 + ntpOffset < 2 ^ 32) :
    t.ntp.toNat = ntpOffset * 2 ^ 32 + wholeTicks (2 ^ 32) t.toNat := by
  have hseconds := wholeTicks_div (Nat.two_pow_pos 32) t.toNat
  rw [toNat_ntp]
  exact Nat.mod_eq_of_lt (by omega)

theorem ntp_lt_ntp {t₁ t₂ : Instant} (h : t₁.toNat < t₂.toNat)
    (hera : t₂.toNat / 1000000000 + ntpOffset < 2 ^ 32) : t₁.ntp < t₂.ntp := by
  have hticks := wholeTicks_strictMono (by decide : 1000000000 ≤ 2 ^ 32) h
  have hera' : t₁.toNat / 1000000000 + ntpOffset < 2 ^ 32 := by omega
  rw [UInt64.lt_iff_toNat_lt, toNat_ntp_of_lt hera, toNat_ntp_of_lt hera']
  exact Nat.add_lt_add_left hticks _

theorem ntp_div {t : Instant} (h : t.toNat / 1000000000 + ntpOffset < 2 ^ 32) :
    t.ntp.toNat / 2 ^ 32 = t.toNat / 1000000000 + ntpOffset := by
  rw [toNat_ntp_of_lt h, Nat.mul_comm, Nat.mul_add_div (Nat.two_pow_pos 32),
    wholeTicks_div (Nat.two_pow_pos 32), Nat.add_comm]

theorem ceilDiv_ntp_mod (t : Instant) :
    (t.ntp.toNat % 2 ^ 32 * 1000000000) ⌈/⌉ 2 ^ 32 = t.toNat % 1000000000 := by
  have hfraction : t.ntp.toNat % 2 ^ 32 = wholeTicks (2 ^ 32) (t.toNat % 1000000000) := by
    rw [← wholeTicks_mod (Nat.two_pow_pos 32), toNat_ntp]
    omega
  rw [hfraction]
  exact ceilDiv_wholeTicks (by decide) _

theorem toNat_div_add_ntpOffset_lt {t : Int} (h : t / 10 ^ 9 + 0x83aa7e80 < 2 ^ 32) :
    t.toNat / 1000000000 + ntpOffset < 2 ^ 32 := by
  rw [ntpOffset]
  omega

theorem ediv_emod_of_ntp {t : Int} (h0 : 0 ≤ t) (h : t / 10 ^ 9 + 0x83aa7e80 < 2 ^ 32) :
    let v := (Instant.ntp t).toNat
    t / 10 ^ 9 = (v / 2 ^ 32 : Nat) - 0x83aa7e80 ∧
      t % 10 ^ 9 = ((v % 2 ^ 32 * 10 ^ 9) ⌈/⌉ 2 ^ 32 : Nat) := by
  intro v
  have hseconds : v / 2 ^ 32 = t.toNat / 1000000000 + ntpOffset :=
    ntp_div (toNat_div_add_ntpOffset_lt h)
  have hnanoseconds : (v % 2 ^ 32 * 10 ^ 9) ⌈/⌉ 2 ^ 32 = t.toNat % 1000000000 := ceilDiv_ntp_mod t
  rw [hseconds, hnanoseconds, ntpOffset]
  constructor <;> omega

/-- Before the end of the era, instants have their NTP times in their own order, and each comes
back from its NTP time to the nanosecond. -/
theorem ntp_lossless :
    (∀ t₁ t₂ : Instant, 0 ≤ t₁ → t₁ < t₂ → t₂ / 10 ^ 9 + 0x83aa7e80 < 2 ^ 32 → t₁.ntp < t₂.ntp) ∧
      ∀ t : Instant, 0 ≤ t → t / 10 ^ 9 + 0x83aa7e80 < 2 ^ 32 →
        let v := t.ntp.toNat
        t / 10 ^ 9 = (v / 2 ^ 32 : Nat) - 0x83aa7e80 ∧
          t % 10 ^ 9 = ((v % 2 ^ 32 * 10 ^ 9) ⌈/⌉ 2 ^ 32 : Nat) := by
  refine ⟨fun t₁ t₂ h0 h hlt => ?_, fun t => ediv_emod_of_ntp⟩
  exact ntp_lt_ntp ((Int.toNat_lt_toNat (h0.trans_lt h)).mpr h) (toNat_div_add_ntpOffset_lt hlt)

theorem ntp_lossless_eraEnd :
    let t₁ : Instant := 2085978495999999998
    let t₂ : Instant := 2085978495999999999
    let v := t₂.ntp.toNat
    t₂ / 10 ^ 9 + 0x83aa7e80 < 2 ^ 32 ∧ t₁.ntp < t₂.ntp ∧ v = 18446744073709551611 ∧
      (2085978495 : Int) = (v / 2 ^ 32 : Nat) - 0x83aa7e80 ∧
      (999999999 : Int) = ((v % 2 ^ 32 * 10 ^ 9) ⌈/⌉ 2 ^ 32 : Nat) := by
  intro t₁ t₂ v
  have hera : t₂ / 10 ^ 9 + 0x83aa7e80 < 2 ^ 32 := by decide
  have hlt : t₁.ntp < t₂.ntp := ntp_lossless.1 t₁ t₂ (by decide) (by decide) hera
  obtain ⟨hseconds, hnanoseconds⟩ := ntp_lossless.2 t₂ (by decide) hera
  exact ⟨hera, hlt, by decide, hseconds, hnanoseconds⟩

end Instant

end NalTransport
