/-! Instants and their two short forms: the 64-bit NTP time and the 24-bit
absolute send time, six bits of seconds and eighteen of their fractions. -/

namespace NalTransport

/-- Nanoseconds since the start of 1970, negative before it. -/
abbrev Instant := Int

/-- Seconds from the start of 1900, where NTP counts from, to that of 1970. -/
def ntpOffset : Nat := 2208988800

/-- Whole seconds in the upper half and their fraction in the lower. Instants
before 1970 count as its start, and seconds beyond 32 bits lose the excess. -/
def Instant.ntp (t : Instant) : UInt64 :=
  let seconds := t.toNat / 1000000000 + ntpOffset
  let fraction := t.toNat % 1000000000 * 4294967296 / 1000000000
  UInt64.ofNat seconds <<< 32 ||| UInt64.ofNat fraction

def sendTimeOfNtp (ntp : UInt64) : UInt32 := ((ntp >>> 14) &&& 0xffffff).toUInt32

def Instant.sendTime (t : Instant) : UInt32 := sendTimeOfNtp t.ntp

/-- Ticks of a media clock in a number of nanoseconds, at most the largest word. -/
def ticks (clockRate : UInt32) (nanoseconds : Nat) : UInt32 :=
  UInt32.ofNat (min (nanoseconds * clockRate.toNat / 1000000000) 4294967295)

end NalTransport
