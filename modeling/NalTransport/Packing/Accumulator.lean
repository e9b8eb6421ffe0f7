import NalTransport.Framing
import NalTransport.Payload.Bundle

/-! Units into payloads of limited size. A unit waits as long as it can share an
aggregate with its neighbours; one that waited alone goes out as it is, or in
fragments if it exceeds the limit. Units that cannot be sent are dropped. -/

namespace NalTransport

/-- How units are packed: their codec, the size of a payload at most, and
whether every unit has to go alone. -/
structure Packing (Header : Type) where
  framing : Framing Header
  mtu : Nat
  singly : Bool := false

structure PendingUnit (Header : Type) where
  header : Header
  data : Bytes

/-- Units that wait, the bytes they would take in an aggregate, and the payloads
sent before them. -/
structure Accumulator (Header : Type) where
  pending : Array (PendingUnit Header) := #[]
  pendingSize : Nat := 0
  payloads : Array Bytes := #[]

namespace Packing

variable {Header : Type}

/-- The fragments of a unit; none if the limit leaves no room for its data. -/
def fragments (p : Packing Header) (unit : PendingUnit Header) : List Bytes :=
  let room := p.mtu - p.framing.fragmentHeaderSize
  let data := unit.data.drop p.framing.unitHeaderSize
  let count := (data.length + room - 1) / room
  (Bytes.chunks room data).zipIdx.map fun (part, i) =>
    p.framing.fragmentHeader unit.header (i == 0) (i + 1 == count) ++ part

def alone (p : Packing Header) (unit : PendingUnit Header) : List Bytes :=
  if unit.data.length ≤ p.mtu then [unit.data] else p.fragments unit

def aggregate (p : Packing Header) (units : List (PendingUnit Header)) : Bytes :=
  p.framing.aggregationHeader (units.map (·.header)) ++ Bundle.join (units.map (·.data))

def group (p : Packing Header) : List (PendingUnit Header) → List Bytes
  | [] => []
  | [unit] => p.alone unit
  | units => [p.aggregate units]

def flush (p : Packing Header) (a : Accumulator Header) : Accumulator Header :=
  { payloads := a.payloads ++ p.group a.pending.toList }

/-- The unit with its header, unless it is too short or too long to be sent. -/
def accept? (p : Packing Header) (data : Bytes) : Option (PendingUnit Header) :=
  if data = [] ∨ maxUnitSize < data.length then none
  else
    match p.framing.unitHeader data with
    | .ok header => some { header, data }
    | .error _ => none

/-- A unit that exceeds the limit does not wait for others. -/
def add (p : Packing Header) (a : Accumulator Header) (unit : PendingUnit Header) :
    Accumulator Header :=
  let size := unitLengthSize + unit.data.length
  if p.singly = false ∧ p.framing.aggregationHeaderSize + a.pendingSize + size ≤ p.mtu then
    { a with pending := a.pending.push unit, pendingSize := a.pendingSize + size }
  else
    let a := { p.flush a with pending := #[unit], pendingSize := size }
    if p.mtu < unit.data.length then p.flush a else a

def push (p : Packing Header) (a : Accumulator Header) (data : Bytes) : Accumulator Header :=
  match p.accept? data with
  | none => a
  | some unit => p.add a unit

def payloads (p : Packing Header) (units : List Bytes) : List Bytes :=
  (p.flush (units.foldl p.push {})).payloads.toList

/-- The pieces of a unit's data, one for each fragment. -/
def parts (p : Packing Header) (unit : PendingUnit Header) : List Bytes :=
  Bytes.chunks (p.mtu - p.framing.fragmentHeaderSize) (unit.data.drop p.framing.unitHeaderSize)

/-- The number of the pieces is known before they are cut. -/
theorem fragments_eq (p : Packing Header) (unit : PendingUnit Header) :
    p.fragments unit = (p.parts unit).zipIdx.map fun (part, i) =>
      p.framing.fragmentHeader unit.header (i == 0) (i + 1 == (p.parts unit).length) ++ part := by
  rw [parts, Bytes.length_chunks]
  rfl

theorem accept?_eq_some_iff {p : Packing Header} {data : Bytes} {unit : PendingUnit Header} :
    p.accept? data = some unit ↔
      unit.data = data ∧ p.framing.unitHeader data = .ok unit.header ∧
        p.framing.unitHeaderSize ≤ data.length ∧ data.length ≤ maxUnitSize := by
  obtain ⟨header, bytes⟩ := unit
  have hpos := p.framing.unitHeaderSize_pos
  have hsize : (∃ header, p.framing.unitHeader data = .ok header) ↔
      p.framing.unitHeaderSize ≤ data.length := p.framing.exists_unitHeader_iff
  cases hu : p.framing.unitHeader data with
  | error e => simp [accept?, hu]
  | ok h =>
    have hle := hsize.mp ⟨h, hu⟩
    have hne : data ≠ [] := List.ne_nil_of_length_pos (by omega)
    simp only [accept?, hu, hne, false_or, hle, true_and]
    grind

theorem isSome_accept? (p : Packing Header) (data : Bytes) :
    (p.accept? data).isSome =
      decide (p.framing.unitHeaderSize ≤ data.length ∧ data.length ≤ maxUnitSize) := by
  rw [Bool.eq_iff_iff, Option.isSome_iff_exists, decide_eq_true_iff]
  constructor
  · rintro ⟨unit, h⟩
    exact (accept?_eq_some_iff.mp h).2.2
  · intro h
    obtain ⟨header, hu⟩ := p.framing.exists_unitHeader_iff.mpr h.1
    exact ⟨⟨header, data⟩, accept?_eq_some_iff.mpr ⟨rfl, hu, h⟩⟩

end Packing

end NalTransport
