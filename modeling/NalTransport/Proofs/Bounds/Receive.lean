import NalTransport.Proofs.Bounds.Packet
import NalTransport.Proofs.Bounds.Payload
import NalTransport.SendTime.Element

/-! What a receiver does with bytes, none of which it can trust: no length that
they announce leads it outside of them or keeps it in a loop. -/

namespace NalTransport

namespace SendTime

open Access

/-- A round drops a padding byte or takes one element off the block. -/
def readElement (id : UInt8) : Bytes → Access (Option UInt32 ⊕ Bytes)
  | [] => .ok (.inl none)
  | head :: rest =>
    if head = 0 then .ok (.inr rest)
    else
      let n := (head % 16).toNat + 1
      if head / 16 = 15 ∨ rest.length < n then .ok (.inl none)
      else if head / 16 = id ∧ n = sendTimeLength then do
        let a ← byteAt rest 0
        let b ← byteAt rest 1
        let c ← byteAt rest 2
        return .inl (some (Bytes.word32 0 a b c))
      else do
        let more ← slice rest n rest.length
        return .inr more

def inBlock? (id : UInt8) (block : Bytes) : Option UInt32 :=
  match elementData id sendTimeLength block with
  | some [a, b, c] => some (Bytes.word32 0 a b c)
  | _ => none

theorem inBlock?_zero_cons (id : UInt8) (rest : Bytes) :
    inBlock? id (0 :: rest) = inBlock? id rest := by
  simp only [inBlock?, elementData, if_true]

theorem readElement_round (id : UInt8) (block : Bytes) :
    Gives.Round List.length (fun block => .ok (inBlock? id block)) block
      (readElement id block) := by
  match block with
  | [] => exact .done (by rw [inBlock?, elementData])
  | head :: rest =>
    simp only [readElement]
    split_ifs with hzero hend hfound
    · exact .next (Nat.lt_succ_self _) (by rw [hzero, inBlock?_zero_cons])
    · refine .done ?_
      simp only [inBlock?, elementData, hzero, length_take_lt_iff, hend, if_false, if_true]
    · obtain ⟨rfl, hn⟩ := hfound
      rw [hn] at hend
      obtain ⟨-, hle⟩ := not_or.mp hend
      obtain ⟨a, rest, rfl, h2⟩ := exists_cons_of_lt (n := 2) (Nat.not_lt.mp hle)
      obtain ⟨b, rest, rfl, h1⟩ := exists_cons_of_lt h2
      obtain ⟨c, rest, rfl, -⟩ := exists_cons_of_lt h1
      refine .done ?_
      simp only [inBlock?, elementData, hzero, hn, length_take_lt_iff, hend, if_false, if_true,
        and_self]
      rfl
    · obtain ⟨-, hle⟩ := not_or.mp hend
      rw [slice_length (Nat.not_lt.mp hle)]
      refine .next ?_ ?_
      · simp only [List.length_drop, List.length_cons]
        omega
      · simp only [inBlock?, elementData, hzero, length_take_lt_iff, hend, hfound, if_false]

end SendTime

namespace Packet.Header

open Access

def readSendTime (h : Header) (id : UInt8) : Access (Option UInt32) :=
  if h.extended ∧ h.profile = oneByteProfile then
    rounds (SendTime.readElement id) (h.extension.length + 1) h.extension
  else .ok none

theorem readSendTime_gives (h : Header) (id : UInt8) :
    (h.readSendTime id).Gives (.ok (h.sendTime? id)) := by
  unfold readSendTime sendTime?
  split_ifs
  · exact Gives.rounds (SendTime.readElement_round id) (Nat.lt_succ_self _)
  · exact .ok none

end Packet.Header

/-- No access of a reading is out of bounds, and a round of either loop that goes on leaves fewer
bytes than it found. -/
theorem receive_in_bounds (raw : Bytes) :
    (Packet.Header.read raw).Gives (Packet.Header.decode raw) ∧
      (Packet.Trailer.read raw).Gives (Packet.Trailer.decode raw) ∧
      (Packet.read raw).Gives (Packet.decode raw) ∧
      (Avc.Payload.read raw).Gives (Avc.Payload.decode raw) ∧
      (∀ p : Avc.Payload, p.readBody.Gives
        (p.units.map fun units => (p.fragmentHeader?, p.fragmentData?, units))) ∧
      (Hevc.Payload.read raw).Gives (Hevc.Payload.decode raw) ∧
      (∀ p : Hevc.Payload, p.readBody.Gives
        (p.units.map fun units => (p.fragmentHeader?, p.fragmentData?, units))) ∧
      (Bundle.read raw).Gives (Bundle.split raw) ∧
      (∀ (h : Packet.Header) id, (h.readSendTime id).Gives (.ok (h.sendTime? id))) ∧
      (∀ s next, Bundle.readUnit s = .ok (.inr next) → next.2.length < s.2.length) ∧
      ∀ id block next, SendTime.readElement id block = .ok (.inr next) →
        next.length < block.length := by
  refine ⟨Packet.Header.read_gives raw, Packet.Trailer.read_gives raw, Packet.read_gives raw,
    Avc.Payload.read_gives raw, Avc.Payload.readBody_gives, Hevc.Payload.read_gives raw,
    Hevc.Payload.readBody_gives, Bundle.read_gives raw, Packet.Header.readSendTime_gives,
    fun s next h => ?_, fun id block next h => ?_⟩
  · have hround := Bundle.readUnit_round s
    rw [h] at hround
    exact hround.size_lt
  · have hround := SendTime.readElement_round id block
    rw [h] at hround
    exact hround.size_lt

/-- The padding count is larger than the body, and the second unit of the aggregate announces
more bytes than there are. -/
theorem receive_in_bounds_hostile :
    let raw : Bytes := [0xa0, 96, 0, 1, 0, 0, 0, 2, 0, 0, 0, 3, 7, 9]
    (Packet.read raw).Gives (Packet.decode raw) ∧
      Packet.read raw = .error (.refused (.truncated .padding 9 2)) ∧
      Bundle.readUnit ([], [0, 1, 9, 0, 3]) = .ok (.inr ([[9]], [0, 3])) ∧
      [0, 3].length < [0, 1, 9, 0, 3].length ∧
      Bundle.readUnit ([[9]], [0, 3]) = .error (.refused (.truncated .aggregatedUnit 3 0)) := by
  intro raw
  obtain ⟨-, -, hpacket, -, -, -, -, -, -, hunits, -⟩ := receive_in_bounds raw
  have hround : Bundle.readUnit ([], [0, 1, 9, 0, 3]) = .ok (.inr ([[9]], [0, 3])) := rfl
  exact ⟨hpacket, rfl, hround, hunits _ _ hround, rfl⟩

end NalTransport
