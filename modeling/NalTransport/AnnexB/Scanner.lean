import NalTransport.AnnexB.StartCode

/-! Reading the NAL units of a byte stream one after another. Bytes in front of
the first start code belong to no unit, a stream without start codes is one
unit, and what follows the last start code is a unit even when empty. -/

namespace NalTransport.AnnexB

/-- What is left to read, nothing once the last unit was taken. -/
structure Scanner where
  rest : Option Bytes

namespace Scanner

def ofBytes (data : Bytes) : Scanner :=
  match nextStartCode data 0 with
  | none => ⟨some data⟩
  | some c => ⟨some (data.drop c.stop)⟩

def next? (s : Scanner) : Option (Bytes × Scanner) :=
  match s.rest with
  | none => none
  | some rest =>
    match nextStartCode rest 0 with
    | none => some (rest, ⟨none⟩)
    | some c => some (rest.take c.start, ⟨some (rest.drop c.stop)⟩)

def remaining (s : Scanner) : Nat :=
  match s.rest with
  | none => 0
  | some rest => rest.length + 1

theorem remaining_of_next? {s t : Scanner} {unit : Bytes} (h : s.next? = some (unit, t)) :
    t.remaining < s.remaining := by
  obtain ⟨rest⟩ := s
  cases rest with
  | none => simp [next?] at h
  | some rest =>
    simp only [next?] at h
    split at h
    · cases h
      simp [remaining]
    · next c hc =>
      have := nextStartCode_stop hc
      cases h
      simp only [remaining, List.length_drop]
      omega

def unitsOnto (done : List Bytes) (s : Scanner) : List Bytes :=
  match _h : s.next? with
  | none => done.reverse
  | some (unit, rest) => unitsOnto (unit :: done) rest
termination_by s.remaining
decreasing_by exact remaining_of_next? _h

theorem unitsOnto_append (done more : List Bytes) (s : Scanner) :
    unitsOnto (done ++ more) s = more.reverse ++ unitsOnto done s := by
  fun_induction unitsOnto done s with
  | case1 done s h =>
    rw [unitsOnto]
    split
    · exact List.reverse_append
    · next h' => simp [h] at h'
  | case2 done s unit rest h ih =>
    rw [unitsOnto]
    split
    · next h' => simp [h] at h'
    · next h' =>
      cases h.symm.trans h'
      exact ih

theorem unitsOnto_of_next?_none {s : Scanner} (h : s.next? = none) : unitsOnto [] s = [] := by
  rw [unitsOnto]
  split
  · rfl
  · next h' => simp [h] at h'

theorem unitsOnto_of_next?_some {s t : Scanner} {unit : Bytes} (h : s.next? = some (unit, t)) :
    unitsOnto [] s = unit :: unitsOnto [] t := by
  rw [unitsOnto]
  split
  · next h' => simp [h] at h'
  · next h' =>
    cases h.symm.trans h'
    exact unitsOnto_append [] [unit] t

end Scanner

def units (data : Bytes) : List Bytes := Scanner.unitsOnto [] (Scanner.ofBytes data)

end NalTransport.AnnexB
