import NalTransport.Bytes

/-! Start codes: two or more zero bytes and a one. They are found in one pass
that counts the zeros of the run it is in. -/

namespace NalTransport.AnnexB

/-- Where the first zero stands, and how many bytes the code has. -/
structure StartCode where
  start : Nat
  length : Nat
  deriving DecidableEq

def StartCode.stop (c : StartCode) : Nat := c.start + c.length

/-- The search at index `i`, with `zeros` zero bytes directly in front of it. -/
def searchFrom (i zeros : Nat) : Bytes → Option StartCode
  | [] => none
  | b :: rest =>
    if b = 0 then searchFrom (i + 1) (zeros + 1) rest
    else if b = 1 ∧ 2 ≤ zeros then some ⟨i - zeros, zeros + 1⟩
    else searchFrom (i + 1) 0 rest

/-- The first start code at or behind the index `start`. -/
def nextStartCode (data : Bytes) (start : Nat) : Option StartCode :=
  searchFrom start 0 (data.drop start)

theorem searchFrom_stop_le {data : Bytes} {i zeros : Nat} {c : StartCode}
    (h : searchFrom i zeros data = some c) (hz : zeros ≤ i) :
    i < c.stop ∧ c.stop ≤ i + data.length := by
  induction data generalizing i zeros with
  | nil => simp [searchFrom] at h
  | cons b rest ih =>
    simp only [searchFrom] at h
    simp only [List.length_cons]
    split at h
    · have := ih h (by omega)
      omega
    · split at h
      · cases h
        simp only [StartCode.stop]
        omega
      · have := ih h (by omega)
        omega

theorem nextStartCode_stop {data : Bytes} {c : StartCode} (h : nextStartCode data 0 = some c) :
    0 < c.stop ∧ c.stop ≤ data.length := by
  have := searchFrom_stop_le h (Nat.le_refl 0)
  simpa using this

end NalTransport.AnnexB
