import NalTransport.Avc.Payload
import NalTransport.Hevc.Payload
import NalTransport.Proofs.Bounds.Access

/-! Payloads and the units in them read by position. Each round of the loop over
an aggregate takes a unit's length off the body, even if the unit is empty. -/

namespace NalTransport

namespace Bundle

open Access

/-- A round takes one unit off the body and puts it behind those before it. -/
def readUnit : List Bytes × Bytes → Access (List Bytes ⊕ List Bytes × Bytes)
  | (units, body) =>
    if body.isEmpty then .ok (.inl units)
    else if body.length < unitLengthSize then
      refuse (.truncated .aggregatedUnit unitLengthSize body.length)
    else do
      let length ← word16At body 0
      let size := length.toNat
      let rest ← slice body unitLengthSize body.length
      if rest.length < size then refuse (.truncated .aggregatedUnit size rest.length)
      else
        let unit ← slice rest 0 size
        let more ← slice rest size rest.length
        return .inr (units ++ [unit], more)

def read (body : Bytes) : Access (List Bytes) := rounds readUnit (body.length + 1) ([], body)

theorem readUnit_round (s : List Bytes × Bytes) :
    Gives.Round (·.2.length) (fun s => splitOnto s.1.reverse s.2) s (readUnit s) := by
  obtain ⟨units, body⟩ := s
  match body with
  | [] => exact .done (by simp [splitOnto])
  | [b] => exact .refuse trivial (by simp [splitOnto, unitLengthSize])
  | hi :: lo :: rest =>
    have hword : word16At (hi :: lo :: rest) 0 = .ok (Bytes.word16 hi lo) := rfl
    have hrest : slice (hi :: lo :: rest) unitLengthSize (hi :: lo :: rest).length = .ok rest :=
      slice_length (by simp [unitLengthSize])
    have hlong : ¬ (hi :: lo :: rest).length < unitLengthSize := by simp [unitLengthSize]
    simp only [readUnit, List.isEmpty_cons, Bool.false_eq_true, if_false, if_neg hlong, hword,
      hrest, ok_bind]
    split
    · next hl => exact .refuse trivial (by simp only [splitOnto, length_take_lt_iff, if_pos hl])
    · next hl =>
      have hle := Nat.not_lt.mp hl
      rw [slice_zero hle, slice_length hle]
      refine .next ?_ ?_
      · simp only [List.length_drop, List.length_cons]
        omega
      · simp only [splitOnto, length_take_lt_iff, if_neg hl, List.reverse_append,
          List.reverse_singleton, List.singleton_append]

theorem read_gives (body : Bytes) : (read body).Gives (split body) :=
  Gives.rounds readUnit_round (Nat.lt_succ_self _)

end Bundle

namespace Access

variable {Header Payload : Type}

/-- A payload cut behind a header of this size. -/
def behindHeader (header : Except WireError Header) (size : Nat)
    (payload : Header → Bytes → Payload) (bytes : Bytes) : Access Payload := do
  let header ← ofResult header
  let body ← slice bytes size bytes.length
  return payload header body

/-- The header and the data of a fragment, if the body is one. -/
def fragmentHeaderIf (isFragment : Bool) (typeMask : UInt8) (body : Bytes) :
    Access (Option FragmentHeader) :=
  if isFragment then (·.map (FragmentHeader.ofByte typeMask)) <$> first? body else .ok none

def fragmentDataIf (isFragment : Bool) (body : Bytes) : Access (Option Bytes) :=
  if isFragment then sliceFrom? body 1 else .ok none

def unitsIf (isAggregate : Bool) (body : Bytes) : Access (List Bytes) :=
  if isAggregate then Bundle.read body else .ok []

theorem behindHeader_gives {header : Except WireError Header} {size : Nat}
    {payload : Header → Bytes → Payload} {bytes : Bytes}
    (he : ∀ e, header = .error e → e.IsReadError)
    (hok : header.isOk = decide (size ≤ bytes.length)) :
    (behindHeader header size payload bytes).Gives
      (header.map fun header => payload header (bytes.drop size)) := by
  have hbind : header.map (fun header => payload header (bytes.drop size)) =
      header >>= fun header => .ok (payload header (bytes.drop size)) :=
    map_eq_pure_bind _ header
  rw [hbind]
  refine (Gives.ofResult he).bind fun header hh => ?_
  have hle : size ≤ bytes.length := of_decide_eq_true (by rw [← hok, hh]; rfl)
  rw [slice_length hle]
  exact .ok _

theorem fragmentHeaderIf_eq (isFragment : Bool) (typeMask : UInt8) (body : Bytes) :
    fragmentHeaderIf isFragment typeMask body =
      .ok (if isFragment then (FragmentHeader.decode typeMask body).toOption else none) := by
  cases isFragment
  · rfl
  · cases body <;> rfl

theorem fragmentDataIf_eq (isFragment : Bool) (body : Bytes) :
    fragmentDataIf isFragment body = .ok (if isFragment then body.tail? else none) := by
  cases isFragment
  · rfl
  · exact sliceFrom?_one body

theorem unitsIf_gives (isAggregate : Bool) (body : Bytes) :
    (unitsIf isAggregate body).Gives (if isAggregate then Bundle.split body else .ok []) := by
  cases isAggregate
  · exact .ok []
  · exact Bundle.read_gives body

end Access

namespace Avc.Payload

open Access

def read (bytes : Bytes) : Access Payload :=
  behindHeader (Header.decode bytes) Header.size .mk bytes

/-- All that can be read off the payload, its header apart. -/
def readBody (p : Payload) : Access (Option FragmentHeader × Option Bytes × List Bytes) := do
  let header ← fragmentHeaderIf (PayloadType.layout p.header.unitType = .fragmentation)
    Header.typeMask p.body
  let data ← fragmentDataIf (p.header.unitType = PayloadType.fuA) p.body
  let units ← unitsIf (p.header.unitType = PayloadType.stapA) p.body
  return (header, data, units)

theorem read_gives (bytes : Bytes) : (read bytes).Gives (decode bytes) := by
  refine behindHeader_gives (fun e he => ?_) (Header.isOk_decode bytes)
  cases bytes with
  | nil =>
    obtain rfl := Except.error.inj he
    trivial
  | cons b rest => cases he

theorem readBody_gives (p : Payload) :
    p.readBody.Gives (p.units.map fun units => (p.fragmentHeader?, p.fragmentData?, units)) := by
  have h := unitsIf_gives (p.header.unitType = PayloadType.stapA) p.body
  simp only [decide_eq_true_eq] at h
  rw [readBody, fragmentHeaderIf_eq, fragmentDataIf_eq]
  simp only [decide_eq_true_eq]
  exact h.bind fun units _ => .ok _

end Avc.Payload

namespace Hevc.Payload

open Access

def read (bytes : Bytes) : Access Payload :=
  behindHeader (Header.decode bytes) Header.size .mk bytes

def readBody (p : Payload) : Access (Option FragmentHeader × Option Bytes × List Bytes) := do
  let header ← fragmentHeaderIf (p.layout = .fragmentation) PayloadType.mask p.body
  let data ← fragmentDataIf (p.layout = .fragmentation) p.body
  let units ← unitsIf (p.layout = .aggregation) p.body
  return (header, data, units)

theorem read_gives (bytes : Bytes) : (read bytes).Gives (decode bytes) := by
  refine behindHeader_gives (fun e he => ?_) (Header.isOk_decode bytes)
  match bytes with
  | [] | [_] =>
    obtain rfl := Except.error.inj he
    trivial
  | b0 :: b1 :: rest => cases he

theorem readBody_gives (p : Payload) :
    p.readBody.Gives (p.units.map fun units => (p.fragmentHeader?, p.fragmentData?, units)) := by
  have h := unitsIf_gives (p.layout = .aggregation) p.body
  simp only [decide_eq_true_eq] at h
  rw [readBody, fragmentHeaderIf_eq, fragmentDataIf_eq]
  simp only [decide_eq_true_eq]
  exact h.bind fun units _ => .ok _

end Hevc.Payload

end NalTransport
