import NalTransport.Proofs.SendTime.Stamp
import NalTransport.Stream.Sender

/-! The packets that a sender makes of payloads. They keep to the space that it
holds free for headers, and they are in the form that the wire holds. -/

namespace NalTransport

namespace Sender

variable {Memory : Type} {s : Sender Memory}

theorem fault_header (number : UInt16) (last : Bool) : (s.header number last).fault = none := by
  rw [header]
  split
  · exact Packet.Header.fault_stamp (Nat.zero_le _) _ _
  · rfl

theorem padded_header (number : UInt16) (last : Bool) :
    (s.header number last).padded = false := by
  rw [header]
  split <;> rfl

theorem size_header_le (number : UInt16) (last : Bool) :
    (s.header number last).size ≤ s.overhead := by
  rw [header, overhead]
  by_cases hid : s.sendTimeId = 0
  · simp [hid, Packet.Header.size, Packet.Header.extensionSize]
  · cases last with
    | false => simp [hid, Packet.Header.size, Packet.Header.extensionSize]
    | true => simp [hid, Packet.Header.size_stamp, Packet.Header.fixedSize, sendTimeBlockSize]

theorem wireForm_header (ht : s.config.payloadType < 128) (number : UInt16) (last : Bool) :
    (s.header number last).wireForm = s.header number last := by
  have htype : s.config.payloadType % 128 = s.config.payloadType := by
    apply UInt8.toNat_inj.mp
    rw [UInt8.toNat_mod]
    exact Nat.mod_eq_of_lt (UInt8.lt_iff_toNat_lt.mp ht)
  rw [header]
  split
  · simp [Packet.Header.wireForm, Packet.Header.stamp, htype, Packet.Header.rtpVersion]
  · simp [Packet.Header.wireForm, htype, Packet.Header.rtpVersion]

theorem map_packets {α : Type} (f : Packet → α) (g : Bytes × UInt16 → α)
    (h : ∀ payload number last, f { header := s.header number last, payload } = g (payload, number))
    (payloads : List Bytes) (numbers : List UInt16) :
    (s.packets payloads numbers).map f = (payloads.zip numbers).map g := by
  calc (s.packets payloads numbers).map f
      = ((payloads.zip numbers).zipIdx.map Prod.fst).map g := by
        rw [packets, List.map_map, List.map_map]
        exact List.map_congr_left fun _ _ => h _ _ _
    _ = (payloads.zip numbers).map g := by rw [List.zipIdx_map_fst]

theorem map_payload_packets (payloads : List Bytes) {numbers : List UInt16}
    (h : payloads.length ≤ numbers.length) :
    (s.packets payloads numbers).map (·.payload) = payloads := by
  rw [map_packets _ Prod.fst fun _ _ _ => rfl]
  exact List.map_fst_zip h

theorem map_sequenceNumber_packets {payloads : List Bytes} {numbers : List UInt16}
    (h : numbers.length ≤ payloads.length) :
    (s.packets payloads numbers).map (·.header.sequenceNumber) = numbers := by
  have hnumber (number : UInt16) (last : Bool) :
      (s.header number last).sequenceNumber = number := by
    rw [header]
    split <;> rfl
  rw [map_packets _ Prod.snd fun _ number last => hnumber number last]
  exact List.map_snd_zip h

theorem exists_of_mem_packets {payloads : List Bytes} {numbers : List UInt16} {packet : Packet}
    (h : packet ∈ s.packets payloads numbers) :
    ∃ number last payload, payload ∈ payloads ∧
      packet = { header := s.header number last, payload } := by
  obtain ⟨⟨⟨payload, number⟩, i⟩, hmem, rfl⟩ := List.mem_map.mp h
  have hpair : (payload, number) ∈ payloads.zip numbers := List.fst_mem_of_mem_zipIdx hmem
  exact ⟨number, _, payload, (List.of_mem_zip hpair).1, rfl⟩

def payloadsFor (s : Sender Memory) (accessUnit : Bytes) : List Bytes :=
  if accessUnit = [] then []
  else (s.payloader.payloads s.memory (s.config.mtu - s.overhead) accessUnit).1

theorem payloadsFor_ofFraming {Header : Type} {s : Sender Unit} {framing : Framing Header}
    {singly dropFiller : Bool} (hs : s.payloader = .ofFraming framing singly dropFiller)
    (accessUnit : Bytes) :
    s.payloadsFor accessUnit =
      if accessUnit = [] then []
      else Packing.accessUnitPayloads { framing, mtu := s.config.mtu - s.overhead, singly }
        dropFiller accessUnit := by
  rw [payloadsFor, hs]
  rfl

theorem map_payload_packetize (sequencer : Sequencer) (accessUnit : Bytes) (samples : UInt32) :
    (s.packetize sequencer accessUnit samples).1.map (·.payload) = s.payloadsFor accessUnit := by
  rw [packetize, payloadsFor]
  split
  · rfl
  · exact map_payload_packets _ (Nat.le_of_eq (Sequencer.length_drawMany _ _).symm)

theorem drawMany_packetize (s : Sender Memory) (sequencer : Sequencer) (accessUnit : Bytes)
    (samples : UInt32) :
    sequencer.drawMany (s.packetize sequencer accessUnit samples).1.length =
      ((s.packetize sequencer accessUnit samples).1.map (·.header.sequenceNumber),
        (s.packetize sequencer accessUnit samples).2.2) := by
  by_cases hempty : accessUnit = []
  · rw [packetize, if_pos hempty]
    rfl
  · have hlen := Sequencer.length_drawMany sequencer
      (s.payloader.payloads s.memory (s.config.mtu - s.overhead) accessUnit).1.length
    have hnumbers := map_sequenceNumber_packets (s := s) (Nat.le_of_eq hlen)
    have hcount := congrArg List.length hnumbers
    rw [List.length_map, hlen] at hcount
    rw [packetize, if_neg hempty]
    simp only [hnumbers, hcount]

theorem exists_of_mem_packetize {sequencer : Sequencer} {accessUnit : Bytes} {samples : UInt32}
    {packet : Packet} (h : packet ∈ (s.packetize sequencer accessUnit samples).1) :
    ∃ number last payload, payload ∈ s.payloadsFor accessUnit ∧
      packet = { header := s.header number last, payload } := by
  rw [packetize] at h
  rw [payloadsFor]
  split at h
  · exact absurd h List.not_mem_nil
  · simpa only [if_neg ‹_›] using exists_of_mem_packets h

theorem encode_packet (s : Sender Memory) (number : UInt16) (last : Bool) (payload : Bytes) :
    Packet.encode { header := s.header number last, payload } =
      .ok ((s.header number last).bytes ++ payload) := by
  have hp := padded_header (s := s) number last
  refine Packet.encode_eq_ok_iff.mpr ⟨fault_header number last, fun h => ?_, ?_⟩
  · simp [hp] at h
  · simp [Packet.ending, hp]

theorem size_packet_le (s : Sender Memory) (number : UInt16) (last : Bool) (payload : Bytes) :
    Packet.size { header := s.header number last, payload } ≤ s.overhead + payload.length := by
  have hp := padded_header (s := s) number last
  have hsize := size_header_le (s := s) number last
  simp only [Packet.size, Packet.paddingSize, hp, Bool.false_eq_true, if_false]
  omega

theorem exists_encode_decode (ht : s.config.payloadType < 128) {sequencer : Sequencer}
    {accessUnit : Bytes} {samples : UInt32} {packet : Packet}
    (h : packet ∈ (s.packetize sequencer accessUnit samples).1) :
    ∃ wire, packet.encode = .ok wire ∧ Packet.decode wire = .ok packet := by
  obtain ⟨number, last, payload, -, rfl⟩ := exists_of_mem_packetize h
  have hwire : Packet.wireForm { header := s.header number last, payload } =
      { header := s.header number last, payload } := by
    simp [Packet.wireForm, wireForm_header ht, padded_header]
  have hencode := s.encode_packet number last payload
  have hdecode := Packet.decode_of_encode_eq_ok hencode
  rw [hwire] at hdecode
  exact ⟨_, hencode, hdecode⟩

end Sender

end NalTransport
