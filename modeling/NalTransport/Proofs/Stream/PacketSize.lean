import Mathlib
import NalTransport.AnnexB.Stream
import NalTransport.Proofs.Codec
import NalTransport.Proofs.Packing.PayloadSize
import NalTransport.Proofs.Stream.Run
import NalTransport.Proofs.Stream.Sender

/-! No payload is larger than the limit that the packing was given, and so no
packet is larger than that of the sender, also the one with the send time. -/

namespace NalTransport

theorem Sender.length_of_mem_payloadsFor {Header : Type} {s : Sender Unit}
    {framing : Framing Header} {singly dropFiller : Bool}
    (hs : s.payloader = .ofFraming framing singly dropFiller) {accessUnit payload : Bytes}
    (h : payload ∈ s.payloadsFor accessUnit) : s.overhead + payload.length ≤ s.config.mtu := by
  rw [payloadsFor_ofFraming hs] at h
  split at h
  · exact absurd h List.not_mem_nil
  · have hlen := Packing.length_of_mem_payloads h
    have hle : payload.length ≤ s.config.mtu - s.overhead := hlen.2
    omega

/-- A payload has bytes, so that there is none where headers alone exceed the limit. -/
theorem Sender.length_wire_le {Header : Type} {s : Sender Unit} {framing : Framing Header}
    {singly dropFiller : Bool} (hs : s.payloader = .ofFraming framing singly dropFiller)
    {sequencer : Sequencer} {accessUnit : Bytes} {samples : UInt32} {packet : Packet}
    (h : packet ∈ (s.packetize sequencer accessUnit samples).1) :
    ∃ wire, packet.encode = .ok wire ∧ wire.length = packet.size ∧ wire.length ≤ s.config.mtu := by
  obtain ⟨number, last, payload, hpayload, rfl⟩ := exists_of_mem_packetize h
  have hencode := s.encode_packet number last payload
  have hlen := Packet.length_of_encode_eq_ok hencode
  have hsize := s.size_packet_le number last payload
  have hmtu := length_of_mem_payloadsFor hs hpayload
  exact ⟨_, hencode, hlen, by omega⟩

/-- The limits hold for all values of both, and whatever is asked of the sender. -/
theorem Codec.size_le_mtu (c : Codec) :
    (∀ (mtu : Nat) (singly : Bool) (units : List Bytes),
      ∀ payload ∈ Packing.payloads { framing := c.framing, mtu, singly } units,
        payload ≠ [] ∧ payload.length ≤ mtu) ∧
    ∀ (s : Session Unit) (singly dropFiller : Bool),
      s.sender.payloader = .ofFraming c.framing singly dropFiller →
      ∀ (requests : List Request), ∀ reply ∈ (s.run requests).1, ∀ packet ∈ reply.sent,
        ∃ wire, packet.encode = .ok wire ∧ wire.length = packet.size ∧
          wire.length ≤ s.sender.config.mtu := by
  refine ⟨fun mtu singly units payload h => ?_, ?_⟩
  · have hlen := Packing.length_of_mem_payloads h
    exact ⟨List.ne_nil_of_length_pos hlen.1, hlen.2⟩
  · intro s singly dropFiller hs requests reply hreply packet hpacket
    obtain ⟨t, request, ht, rfl⟩ := Session.exists_of_mem_run hreply
    obtain ⟨accessUnit, samples, hmem⟩ := Session.exists_of_mem_sent_step hpacket
    rw [← ht.config]
    exact Sender.length_wire_le (ht.payloader.trans hs) hmem

/-- A unit of six bytes needs two packets while a send time takes its share of the limit. -/
theorem Codec.size_le_mtu_stamped :
    let s : Session Unit :=
      { sender :=
          { config := { mtu := 25, ssrc := 7 }
            payloader := .hevc false false, memory := (), timestamp := 0 }
        sequencer := { last := 65534 } }
    let accessUnit := AnnexB.stream [(3, [38, 1, 5, 6, 7, 8])]
    let requests : List Request := [.packetize accessUnit 3000, .enableSendTime 14,
      .setClock 1000000000, .packetize accessUnit 3000]
    (s.run requests).1.map (fun reply => reply.sent.map Packet.size) = [[18], [], [], [17, 25]] ∧
      ∀ reply ∈ (s.run requests).1, ∀ packet ∈ reply.sent,
        ∃ wire, packet.encode = .ok wire ∧ wire.length = packet.size ∧ wire.length ≤ 25 := by
  intro s accessUnit requests
  refine ⟨by cbv, ?_⟩
  exact (size_le_mtu .hevc).2 s false false rfl requests

end NalTransport
