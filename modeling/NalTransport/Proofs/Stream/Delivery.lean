import NalTransport.Proofs.AnnexB.Units
import NalTransport.Proofs.Packing.Delivery
import NalTransport.Proofs.Stream.Run
import NalTransport.Proofs.Stream.Sender

/-! From the byte stream of an access unit to the units that a receiver puts
together: scanner, packing, packets and their wire form, and all the way back. -/

namespace NalTransport

theorem Packet.exists_mapM_wires {packets : List Packet}
    (h : ∀ packet ∈ packets, ∃ wire, packet.encode = .ok wire ∧ decode wire = .ok packet) :
    ∃ wires, packets.mapM encode = .ok wires ∧ wires.mapM decode = .ok packets := by
  induction packets with
  | nil => exact ⟨[], rfl, rfl⟩
  | cons packet packets ih =>
    obtain ⟨wire, hencode, hdecode⟩ := h packet List.mem_cons_self
    obtain ⟨wires, hencodes, hdecodes⟩ := ih fun p hp => h p (List.mem_cons_of_mem _ hp)
    refine ⟨wire :: wires, ?_, ?_⟩
    · rw [List.mapM_cons, hencode, hencodes]
      rfl
    · rw [List.mapM_cons, hdecode, hdecodes]
      rfl

/-- A receiver reads the packets of the reply off their bytes and finds these units in them. -/
def Reply.Delivers (c : Codec) (reply : Reply) (units : List Bytes) : Prop :=
  ∃ packets wires, reply = .packets packets ∧ packets.mapM Packet.encode = .ok wires ∧
    wires.mapM Packet.decode = .ok packets ∧
    Reassembly.units? c.carried? (packets.map (·.payload)) = some units

namespace Codec

/-- Neither the scanner nor the packing loses a unit like this one. -/
def Sendable (c : Codec) (unit : Bytes) : Prop :=
  c.framing.unitHeaderSize ≤ unit.length ∧ unit.length ≤ maxUnitSize ∧ c.PlainUnit unit ∧
    ¬ AnnexB.HasCode unit ∧ unit.getLast? ≠ some 0

instance (c : Codec) (unit : Bytes) : Decidable (c.Sendable unit) :=
  inferInstanceAs (Decidable (_ ∧ _))

def isDelimiterOrFiller (c : Codec) (unit : Bytes) : Bool :=
  match c.framing.unitHeader unit with
  | .ok header => c.framing.isDelimiterOrFiller header
  | .error _ => false

theorem isDelimiterOrFiller_eq (c : Codec) (mtu : Nat) (singly : Bool) (unit : Bytes) :
    Packing.isDelimiterOrFiller { framing := c.framing, mtu, singly } unit =
      c.isDelimiterOrFiller unit := by
  simp only [Packing.isDelimiterOrFiller, isDelimiterOrFiller]
  cases c.framing.unitHeader unit <;> rfl

theorem delivers_of_sendable {c : Codec} {unit : Bytes} (h : c.Sendable unit) {mtu : Nat}
    (hm : c.framing.fragmentHeaderSize < mtu) (singly : Bool) :
    Packing.delivers { framing := c.framing, mtu, singly } unit = true := by
  simp [Packing.delivers, h.1, h.2.1, hm]

theorem units?_payloads_sendable {c : Codec} {mtu : Nat} (hm : c.framing.fragmentHeaderSize < mtu)
    (singly : Bool) {units : List Bytes} (hu : ∀ data ∈ units, c.Sendable data) :
    Reassembly.units? c.carried? (Packing.payloads { framing := c.framing, mtu, singly } units) =
      some units := by
  have hcarries := Packing.carries_payloads (p := { framing := c.framing, mtu, singly }) c.readBack
    fun data hdata => (hu data hdata).2.2.1
  have hall : units.filter (Packing.delivers { framing := c.framing, mtu, singly }) = units :=
    List.filter_eq_self.mpr fun data hdata => delivers_of_sendable (hu data hdata) hm singly
  rw [hall] at hcarries
  exact hcarries.units?_eq

theorem units?_payloadsFor {c : Codec} {s : Sender Unit} {singly dropFiller : Bool}
    (hs : s.payloader = .ofFraming c.framing singly dropFiller)
    (hroom : s.overhead + c.framing.fragmentHeaderSize < s.config.mtu) {units : List (Nat × Bytes)}
    (hu : ∀ unit ∈ units, 2 ≤ unit.1 ∧ c.Sendable unit.2) :
    Reassembly.units? c.carried? (s.payloadsFor (AnnexB.stream units)) =
      some ((units.map (·.2)).filter fun unit => !(dropFiller && c.isDelimiterOrFiller unit)) := by
  have hsend : ∀ data ∈ units.map (·.2), c.Sendable data := by
    intro data hdata
    obtain ⟨unit, hunit, rfl⟩ := List.mem_map.mp hdata
    exact (hu unit hunit).2
  rw [Sender.payloadsFor_ofFraming hs]
  by_cases hne : units = []
  · rw [hne]
    rfl
  · have hsep := AnnexB.Separable.of_forall fun data hdata => (hsend data hdata).2.2.2
    rw [if_neg (AnnexB.stream_eq_nil_iff.not.mpr hne), Packing.accessUnitPayloads,
      AnnexB.units_stream hne hsep fun unit hunit => (hu unit hunit).1]
    simp only [isDelimiterOrFiller_eq]
    exact units?_payloads_sendable (by omega) singly fun data hdata =>
      hsend data (List.mem_of_mem_filter hdata)

theorem delivers_packetize {c : Codec} {s : Sender Unit} {singly dropFiller : Bool}
    (hs : s.payloader = .ofFraming c.framing singly dropFiller) (ht : s.config.payloadType < 128)
    (hroom : s.overhead + c.framing.fragmentHeaderSize < s.config.mtu) {units : List (Nat × Bytes)}
    (hu : ∀ unit ∈ units, 2 ≤ unit.1 ∧ c.Sendable unit.2) (sequencer : Sequencer)
    (samples : UInt32) :
    (Reply.packets (s.packetize sequencer (AnnexB.stream units) samples).1).Delivers c
      ((units.map (·.2)).filter fun unit => !(dropFiller && c.isDelimiterOrFiller unit)) := by
  obtain ⟨wires, hencode, hdecode⟩ := Packet.exists_mapM_wires
    fun packet hpacket => Sender.exists_encode_decode ht hpacket
  refine ⟨_, wires, rfl, hencode, hdecode, ?_⟩
  rw [Sender.map_payload_packetize]
  exact units?_payloadsFor hs hroom hu

/-- Whatever else is asked of the sender between them, all access units arrive, as long as the
limit leaves room for a byte of a fragment with each id that a send time can get. -/
theorem delivers_run (c : Codec) {s : Session Unit} {singly dropFiller : Bool}
    {requests : List Request} (hs : s.sender.payloader = .ofFraming c.framing singly dropFiller)
    (ht : s.sender.config.payloadType < 128)
    (hroom : ∀ id, id = s.sender.sendTimeId ∨ id ≤ maxElementId ∧ .enableSendTime id ∈ requests →
      Packet.Header.fixedSize + (if id = 0 then 0 else sendTimeBlockSize) +
        c.framing.fragmentHeaderSize + 1 ≤ s.sender.config.mtu) :
    List.Forall₂ (fun request reply => ∀ units samples,
        request = .packetize (AnnexB.stream units) samples →
        (∀ unit ∈ units, 2 ≤ unit.1 ∧ c.Sendable unit.2) →
        reply.Delivers c
          ((units.map (·.2)).filter fun unit => !(dropFiller && c.isDelimiterOrFiller unit)))
      requests (s.run requests).1 := by
  refine (s.forall₂_run_follows requests).imp ?_
  rintro request reply ⟨t, hfollows, rfl⟩ units samples rfl hu
  have hover : t.sender.overhead =
      Packet.Header.fixedSize + if t.sender.sendTimeId = 0 then 0 else sendTimeBlockSize := by
    rw [Sender.overhead]
    split_ifs <;> rfl
  have hfree := hroom _ hfollows.sendTimeId
  rw [← hfollows.config] at ht hfree
  exact delivers_packetize (hfollows.payloader.trans hs) ht (by omega) hu _ _

/-- A delimiter is left out, two units share a packet, one goes out in fragments, and the last
packet has a send time. -/
theorem delivers_run_stamped :
    let s : Session Unit :=
      { sender :=
          { config := { mtu := 34, payloadType := 127, ssrc := 7 }
            payloader := .hevc false true, memory := (), timestamp := 4294967295 }
        sequencer := { last := 65535 } }
    let units : List (Nat × Bytes) := [(2, [70, 1, 80]), (3, [2, 1, 7]), (2, [64, 1, 5]),
      (4, [38, 1, 0, 0, 2, 10, 11, 12, 13, 14, 15, 16, 17, 18, 19, 20])]
    let requests : List Request := [.enableSendTime 14, .packetize (AnnexB.stream units) 3000]
    ∃ reply, (s.run requests).1 = [.done, reply] ∧
      reply.sent.map Packet.size = [24, 26, 26] ∧
      reply.Delivers .hevc [[2, 1, 7], [64, 1, 5],
        [38, 1, 0, 0, 2, 10, 11, 12, 13, 14, 15, 16, 17, 18, 19, 20]] := by
  intro s units requests
  have hs : s.sender.payloader = .ofFraming hevc.framing false true := rfl
  have hroom : ∀ id, id = s.sender.sendTimeId ∨ id ≤ maxElementId ∧ .enableSendTime id ∈ requests →
      Packet.Header.fixedSize + (if id = 0 then 0 else sendTimeBlockSize) +
        hevc.framing.fragmentHeaderSize + 1 ≤ s.sender.config.mtu := by
    rintro id -
    split_ifs <;> decide
  have hrun := delivers_run .hevc hs (by decide) hroom
  have hreply := (List.forall₂_cons.mp (List.forall₂_cons.mp hrun).2).1
  exact ⟨_, rfl, by cbv, hreply units 3000 rfl (by decide)⟩

end Codec

end NalTransport
