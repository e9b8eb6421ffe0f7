import Mathlib.Data.List.Basic
import NalTransport.Bytes
import NalTransport.WireError

/-! Reading bytes by position, one access after another. A position, range or
difference out of bounds is a fault, and so is a loop that takes more rounds than
it was given; to refuse the bytes is something else. A reading that gives the
result of a decoder has no fault, whatever the bytes are. -/

namespace NalTransport

/-- Why a reading has no value: the bytes are not as they should be, or it went wrong itself. -/
inductive Stop where
  | refused (e : WireError)
  | outOfBounds
  | unfinished
  deriving DecidableEq

abbrev Access (α : Type) := Except Stop α

/-- The errors that reading may end with. -/
def WireError.IsReadError : WireError → Prop
  | truncated .. | paddingCountZero => True
  | _ => False

namespace Access

variable {α β σ : Type}

def refuse (e : WireError) : Access α := .error (.refused e)

/-- What is read by matching on the bytes, without a position. -/
def ofResult (result : Except WireError α) : Access α := result.mapError .refused

def byteAt (data : Bytes) (i : Nat) : Access UInt8 :=
  match data[i]? with
  | some b => .ok b
  | none => .error .outOfBounds

def word16At (data : Bytes) (i : Nat) : Access UInt16 := do
  let hi ← byteAt data i
  let lo ← byteAt data (i + 1)
  return Bytes.word16 hi lo

def word32At (data : Bytes) (i : Nat) : Access UInt32 := do
  let a ← byteAt data i
  let b ← byteAt data (i + 1)
  let c ← byteAt data (i + 2)
  let d ← byteAt data (i + 3)
  return Bytes.word32 a b c d

/-- The bytes from `start` on that stand before `stop`. -/
def slice (data : Bytes) (start stop : Nat) : Access Bytes :=
  if start ≤ stop ∧ stop ≤ data.length then .ok ((data.take stop).drop start)
  else .error .outOfBounds

/-- The first byte, if there is one. -/
def first? (data : Bytes) : Access (Option UInt8) :=
  if data.isEmpty then .ok none else some <$> byteAt data 0

/-- The bytes from `start` on, if there are so many before them. -/
def sliceFrom? (data : Bytes) (start : Nat) : Access (Option Bytes) :=
  if start ≤ data.length then some <$> slice data start data.length else .ok none

def sub (n k : Nat) : Access Nat :=
  if k ≤ n then .ok (n - k) else .error .outOfBounds

/-- A loop of so many rounds at most. A round ends it or leaves a state for the next. -/
def rounds (round : σ → Access (α ⊕ σ)) : Nat → σ → Access α
  | 0, _ => .error .unfinished
  | n + 1, s => do
    match ← round s with
    | .inl a => return a
    | .inr s => rounds round n s

@[simp]
theorem ok_bind (a : α) (f : α → Access β) : (Except.ok a >>= f) = f a := rfl

theorem byteAt_append (front rest : Bytes) (i : Nat) :
    byteAt (front ++ rest) (front.length + i) = byteAt rest i := by
  rw [byteAt, List.getElem?_append_right (Nat.le_add_right _ _), Nat.add_sub_cancel_left]
  rfl

theorem word16At_append (front rest : Bytes) (i : Nat) :
    word16At (front ++ rest) (front.length + i) = word16At rest i := by
  simp only [word16At, Nat.add_assoc, byteAt_append]

theorem word32At_append (front rest : Bytes) (i : Nat) :
    word32At (front ++ rest) (front.length + i) = word32At rest i := by
  simp only [word32At, Nat.add_assoc, byteAt_append]

theorem slice_append (front rest : Bytes) (start stop : Nat) :
    slice (front ++ rest) (front.length + start) (front.length + stop) = slice rest start stop := by
  simp only [slice, List.length_append, Nat.add_le_add_iff_left, List.take_length_add_append,
    List.drop_length_add_append]

theorem exists_cons_of_lt {data : Bytes} {n : Nat} (h : n < data.length) :
    ∃ b rest, data = b :: rest ∧ n ≤ rest.length := by
  cases data with
  | nil => exact absurd h (Nat.not_lt_zero n)
  | cons b rest => exact ⟨b, rest, rfl, Nat.le_of_lt_succ h⟩

theorem exists_cons4_of_le {data : Bytes} {n : Nat} (h : 4 * (n + 1) ≤ data.length) :
    ∃ a b c d rest, data = a :: b :: c :: d :: rest ∧ 4 * n ≤ rest.length := by
  obtain ⟨a, b, c, d, rest, htake, hrest⟩ := Bytes.exists_cons4 (List.length_take_of_le h)
  have hsplit := List.take_append_drop (4 * (n + 1)) data
  rw [htake] at hsplit
  refine ⟨a, b, c, d, rest ++ data.drop (4 * (n + 1)), hsplit.symm, ?_⟩
  rw [List.length_append, hrest]
  exact Nat.le_add_right _ _

theorem length_take_lt_iff {data : Bytes} {size : Nat} :
    (data.take size).length < size ↔ data.length < size := by
  rw [List.length_take]
  omega

theorem slice_zero {data : Bytes} {stop : Nat} (h : stop ≤ data.length) :
    slice data 0 stop = .ok (data.take stop) :=
  if_pos ⟨Nat.zero_le _, h⟩

theorem slice_length {data : Bytes} {start : Nat} (h : start ≤ data.length) :
    slice data start data.length = .ok (data.drop start) := by
  rw [slice, if_pos ⟨h, Nat.le_refl _⟩, List.take_length]

theorem sliceFrom?_one (data : Bytes) : sliceFrom? data 1 = .ok data.tail? := by
  cases data with
  | nil => rfl
  | cons b rest =>
    have hle : 1 ≤ (b :: rest).length := Nat.le_add_left 1 rest.length
    rw [sliceFrom?, if_pos hle, slice_length hle]
    rfl

theorem sub_of_le {n k : Nat} (h : k ≤ n) : sub n k = .ok (n - k) := if_pos h

/-- The reading ends with this result and so without a fault; if it refuses the bytes, then with
an error that belongs to reading. -/
structure Gives (x : Access α) (result : Except WireError α) : Prop where
  eq : x = ofResult result
  isReadError : ∀ e, result = .error e → e.IsReadError

namespace Gives

theorem ofResult {result : Except WireError α} (h : ∀ e, result = .error e → e.IsReadError) :
    (Access.ofResult result).Gives result := ⟨rfl, h⟩

theorem ok (a : α) : Gives (.ok a) (.ok a) := ⟨rfl, by simp⟩

theorem refuse {e : WireError} (h : e.IsReadError) :
    (Access.refuse e : Access α).Gives (.error e) :=
  ⟨rfl, by simpa using h⟩

theorem truncated (part : Part) (needed actual : Nat) :
    (Access.refuse (.truncated part needed actual) : Access α).Gives
      (.error (.truncated part needed actual)) :=
  refuse trivial

theorem bind {x : Access α} {result : Except WireError α} {f : α → Access β}
    {g : α → Except WireError β} (h : x.Gives result)
    (hf : ∀ a, result = .ok a → (f a).Gives (g a)) : (x >>= f).Gives (result >>= g) := by
  obtain ⟨rfl, he⟩ := h
  cases result with
  | error e => exact refuse (he e rfl)
  | ok a => exact hf a rfl

/-- What a round may do in a state from which the loop has this result. To go on, it has to
leave a smaller state with the same result. -/
inductive Round (size : σ → Nat) (result : σ → Except WireError α) (s : σ) :
    Access (α ⊕ σ) → Prop where
  | refuse {e : WireError} : e.IsReadError → result s = .error e →
      Round size result s (Access.refuse e)
  | done {a : α} : result s = .ok a → Round size result s (.ok (.inl a))
  | next {s' : σ} : size s' < size s → result s' = result s → Round size result s (.ok (.inr s'))

/-- The size of its first state bounds the rounds of a loop. -/
theorem rounds {round : σ → Access (α ⊕ σ)} {size : σ → Nat} {result : σ → Except WireError α}
    (h : ∀ s, Round size result s (round s)) {n : Nat} {s : σ} (hn : size s < n) :
    (Access.rounds round n s).Gives (result s) := by
  -- The rounds that are left are more than the size of the state at any time.
  induction n generalizing s with
  | zero => exact absurd hn (Nat.not_lt_zero _)
  | succ n ih =>
    have hs := h s
    rw [Access.rounds]
    generalize round s = step at hs
    cases hs with
    | refuse he hr =>
      rw [hr]
      exact refuse he
    | done hr =>
      rw [hr]
      exact ok _
    | next hlt hr =>
      rw [← hr]
      exact ih (by omega)

theorem Round.size_lt {size : σ → Nat} {result : σ → Except WireError α} {s s' : σ}
    (h : Round size result s (.ok (.inr s'))) : size s' < size s := by
  cases h
  assumption

end Gives

end Access

end NalTransport
