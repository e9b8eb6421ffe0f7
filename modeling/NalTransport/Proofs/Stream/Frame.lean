import Mathlib.Data.List.SplitBy
import NalTransport.Proofs.SendTime.Stamp
import NalTransport.Proofs.Stream.Run
import NalTransport.Proofs.Stream.Sender

/-! Packets of an access unit as they stand in the stream. The marker is on the
last packet of each access unit and on no other, so that the stream falls apart
behind its markers, and the send time goes with the marker. -/

namespace NalTransport

namespace Request

/-- The id of send times behind a request that found `id`; one that is refused has no effect. -/
def idAfter (id : UInt8) : Request → UInt8
  | enableSendTime new => if maxElementId < new then id else new
  | packetize _ _ | skipSamples _ | setClock _ | drawNumber => id

def clockAfter (clock : Instant) : Request → Instant
  | setClock now => now
  | packetize _ _ | skipSamples _ | enableSendTime _ | drawNumber => clock

end Request

/-- Packets with the payloads of one access unit, sent by a sender with this setup when the
clock stood at `now`; `id` is that of send times, or zero. -/
structure Sender.Config.Frames (config : Sender.Config) (id : UInt8) (now : Instant)
    (payloads : List Bytes) (packets : List Packet) : Prop where
  payloads_eq : packets.map (·.payload) = payloads
  fixed : ∀ packet ∈ packets, packet.header.version = 2 ∧
    packet.header.payloadType = config.payloadType ∧ packet.header.ssrc = config.ssrc ∧
      packet.header.csrcs = [] ∧ packet.header.padded = false ∧ packet.trailer = {}
  extended_iff : ∀ i packet, packets[i]? = some packet →
    (packet.header.extended = true ↔ i + 1 = packets.length ∧ 1 ≤ id ∧ id ≤ 14)
  sendTime : ∀ packet ∈ packets, packet.header.extended = true → ∀ other,
    packet.header.sendTime? other = if other = id then some now.sendTime else none
  received : ∀ packet ∈ packets, ∃ wire read, packet.encode = .ok wire ∧
    Packet.decode wire = .ok read ∧ ∀ id, read.header.sendTime? id = packet.header.sendTime? id

namespace Sender

variable {Memory : Type} {s : Sender Memory}

theorem fixed_header (number : UInt16) (last : Bool) :
    (s.header number last).version = 2 ∧ (s.header number last).payloadType = s.config.payloadType ∧
      (s.header number last).ssrc = s.config.ssrc ∧ (s.header number last).csrcs = [] ∧
        (s.header number last).marker = last := by
  rw [header]
  split <;> exact ⟨rfl, rfl, rfl, rfl, rfl⟩

theorem extended_header (number : UInt16) (last : Bool) :
    (s.header number last).extended = true ↔ last = true ∧ s.sendTimeId ≠ 0 := by
  rw [header]
  split
  · next h => simp [Packet.Header.stamp, h]
  · next h => simp [h]

theorem sendTime?_header (hid : s.sendTimeId ≤ maxElementId) {number : UInt16} {last : Bool}
    (h : (s.header number last).extended = true) (other : UInt8) :
    (s.header number last).sendTime? other =
      if other = s.sendTimeId then some s.clock.sendTime else none := by
  have hlast := extended_header number last |>.mp h
  have hpos : 1 ≤ s.sendTimeId := UInt8.pos_iff_ne_zero.mpr hlast.2
  rw [header, if_pos hlast]
  exact Packet.Header.sendTime?_stamp ⟨hpos, hid⟩ _ _ other

theorem exists_of_getElem?_packetize {sequencer : Sequencer} {accessUnit : Bytes}
    {samples : UInt32} {i : Nat} {packet : Packet}
    (h : (s.packetize sequencer accessUnit samples).1[i]? = some packet) :
    ∃ number payload, packet =
      { header := s.header number (i + 1 == (s.packetize sequencer accessUnit samples).1.length)
        payload } := by
  have hcount := congrArg List.length (s.map_payload_packetize sequencer accessUnit samples)
  rw [List.length_map] at hcount
  rw [hcount, payloadsFor]
  rw [packetize] at h
  split at h
  · simp at h
  · next hne =>
    simp only [packets, List.getElem?_map, Option.map_eq_some_iff] at h
    obtain ⟨⟨⟨payload, number⟩, j⟩, hj, rfl⟩ := h
    obtain ⟨-, rfl⟩ : _ ∧ i = j := by simpa [List.getElem?_zipIdx] using hj
    exact ⟨number, payload, by rw [if_neg hne]⟩

theorem frames_packetize (hid : s.sendTimeId ≤ maxElementId) (sequencer : Sequencer)
    (accessUnit : Bytes) (samples : UInt32) :
    s.config.Frames s.sendTimeId s.clock (s.payloadsFor accessUnit)
      (s.packetize sequencer accessUnit samples).1 where
  payloads_eq := map_payload_packetize sequencer accessUnit samples
  fixed packet h := by
    obtain ⟨number, last, payload, -, rfl⟩ := exists_of_mem_packetize h
    obtain ⟨hversion, htype, hssrc, hcsrcs, -⟩ := fixed_header (s := s) number last
    exact ⟨hversion, htype, hssrc, hcsrcs, padded_header number last, rfl⟩
  extended_iff i packet h := by
    obtain ⟨number, payload, rfl⟩ := exists_of_getElem?_packetize h
    have hrange : s.sendTimeId ≠ 0 ↔ 1 ≤ s.sendTimeId ∧ s.sendTimeId ≤ 14 :=
      ⟨fun hne => ⟨UInt8.pos_iff_ne_zero.mpr hne, hid⟩, fun hle => UInt8.pos_iff_ne_zero.mp hle.1⟩
    rw [extended_header, hrange, beq_iff_eq]
  sendTime packet h hx other := by
    obtain ⟨number, last, payload, -, rfl⟩ := exists_of_mem_packetize h
    exact sendTime?_header hid hx other
  received packet h := by
    obtain ⟨number, last, payload, -, rfl⟩ := exists_of_mem_packetize h
    have hencode := s.encode_packet number last payload
    exact ⟨_, _, hencode, Packet.decode_of_encode_eq_ok hencode,
      Packet.Header.sendTime?_wireForm (s.header number last)⟩

theorem marker_packetize {sequencer : Sequencer} {accessUnit : Bytes} {samples : UInt32} {i : Nat}
    {packet : Packet} (h : (s.packetize sequencer accessUnit samples).1[i]? = some packet) :
    packet.header.marker = (i + 1 == (s.packetize sequencer accessUnit samples).1.length) := by
  obtain ⟨number, payload, rfl⟩ := exists_of_getElem?_packetize h
  exact (fixed_header number _).2.2.2.2

end Sender

/-- A stream cut behind each marker. -/
def Packet.cutAtMarkers (stream : List Packet) : List (List Packet) :=
  stream.splitBy fun packet _ => !packet.header.marker

theorem Packet.cutAtMarkers_append {packets : List Packet}
    (h : ∀ i packet, packets[i]? = some packet →
      packet.header.marker = (i + 1 == packets.length)) (rest : List Packet) :
    cutAtMarkers (packets ++ rest) =
      (if packets = [] then [] else [packets]) ++ cutAtMarkers rest := by
  have hlast : ∀ packet ∈ packets.getLast?, ∀ next ∈ rest.head?,
      (!packet.header.marker) = false := by
    intro packet hpacket next _
    rw [Option.mem_def, List.getLast?_eq_getElem?] at hpacket
    have hpos := (List.getElem?_eq_some_iff.mp hpacket).1
    have hend : packets.length - 1 + 1 = packets.length := by omega
    rw [h _ _ hpacket, hend, beq_self_eq_true, Bool.not_true]
  have hinner : packets.IsChain fun packet _ => (!packet.header.marker) = true := by
    rw [List.isChain_iff_getElem]
    intro i hi
    have hne : i + 1 ≠ packets.length := by omega
    rw [h i _ (List.getElem?_eq_getElem _), beq_eq_false_iff_ne.mpr hne, Bool.not_false]
  rw [cutAtMarkers, List.splitBy_append hlast]
  split
  · next he => rw [he, List.splitBy_nil]; rfl
  · next hne => rw [List.splitBy_of_isChain hne hinner]; rfl

namespace Session

variable {Memory : Type}

theorem marker_sent_step {s : Session Memory} {request : Request} {i : Nat} {packet : Packet}
    (h : (s.step request).1.sent[i]? = some packet) :
    packet.header.marker = (i + 1 == (s.step request).1.sent.length) := by
  cases request with
  | packetize accessUnit samples => exact Sender.marker_packetize h
  | enableSendTime id =>
    rw [step_enableSendTime] at h
    split at h <;> simp [Reply.sent] at h
  | skipSamples samples => simp [step, Reply.sent] at h
  | setClock now => simp [step, Reply.sent] at h
  | drawNumber => simp [step, Reply.sent] at h

theorem cutAtMarkers_run (s : Session Memory) (requests : List Request) :
    Packet.cutAtMarkers ((s.run requests).1.flatMap Reply.sent) =
      ((s.run requests).1.map Reply.sent).filter (· ≠ []) := by
  induction requests generalizing s with
  | nil => rfl
  | cons request requests ih =>
    rw [run_cons, List.flatMap_cons, List.map_cons,
      Packet.cutAtMarkers_append fun _ _ => marker_sent_step, ih, List.filter_cons]
    by_cases h : (s.step request).1.sent = [] <;> simp [h]

theorem settings_step (s : Session Memory) (request : Request) :
    (s.step request).2.sender.sendTimeId = request.idAfter s.sender.sendTimeId ∧
      (s.step request).2.sender.clock = request.clockAfter s.sender.clock := by
  cases request with
  | packetize accessUnit samples =>
    obtain ⟨memory, timestamp, h⟩ := s.sender.exists_packetize_eq s.sequencer accessUnit samples
    have hsender : (s.step (.packetize accessUnit samples)).2.sender =
        { s.sender with memory, timestamp } := h
    rw [hsender]
    exact ⟨rfl, rfl⟩
  | skipSamples samples => exact ⟨rfl, rfl⟩
  | enableSendTime id =>
    rw [step_enableSendTime, Request.idAfter]
    split <;> exact ⟨rfl, rfl⟩
  | setClock now => exact ⟨rfl, rfl⟩
  | drawNumber => exact ⟨rfl, rfl⟩

theorem settings_run (s : Session Memory) (requests : List Request) :
    (s.run requests).2.sender.config = s.sender.config ∧
      (s.run requests).2.sender.payloader = s.sender.payloader ∧
      (s.run requests).2.sender.sendTimeId = requests.foldl Request.idAfter s.sender.sendTimeId ∧
      (s.run requests).2.sender.clock = requests.foldl Request.clockAfter s.sender.clock := by
  induction requests generalizing s with
  | nil => exact ⟨rfl, rfl, rfl, rfl⟩
  | cons request requests ih =>
    obtain ⟨hconfig, hpayloader, -⟩ := s.setup_step request
    obtain ⟨hid, hclock⟩ := s.settings_step request
    rw [run_cons, List.foldl_cons, List.foldl_cons, ← hconfig, ← hpayloader, ← hid, ← hclock]
    exact ih (s.step request).2

theorem foldl_idAfter_le {id : UInt8} (h : id ≤ maxElementId) (requests : List Request) :
    requests.foldl Request.idAfter id ≤ maxElementId := by
  induction requests generalizing id with
  | nil => exact h
  | cons request requests ih =>
    apply ih
    cases request with
    | enableSendTime new =>
      rw [Request.idAfter]
      split
      · exact h
      · exact UInt8.not_lt.mp ‹_›
    | packetize accessUnit samples => exact h
    | skipSamples samples => exact h
    | setClock now => exact h
    | drawNumber => exact h

/-- A sender starts with id zero, and no request takes it beyond the largest. -/
theorem frames_run {s : Session Memory} (hid : s.sender.sendTimeId ≤ maxElementId)
    (requests : List Request) :
    (∀ before accessUnit samples after,
      requests = before ++ .packetize accessUnit samples :: after →
      let id := before.foldl Request.idAfter s.sender.sendTimeId
      let mtu := s.sender.config.mtu - if id = 0 then 12 else 20
      let memory := (s.run before).2.sender.memory
      ∃ packets, (s.run requests).1[before.length]? = some (.packets packets) ∧
        s.sender.config.Frames id (before.foldl Request.clockAfter s.sender.clock)
          (if accessUnit = [] then [] else (s.sender.payloader.payloads memory mtu accessUnit).1)
          packets) ∧
      Packet.cutAtMarkers ((s.run requests).1.flatMap Reply.sent) =
        ((s.run requests).1.map Reply.sent).filter (· ≠ []) := by
  refine ⟨?_, s.cutAtMarkers_run requests⟩
  rintro before accessUnit samples after rfl id mtu memory
  obtain ⟨hconfig, hpayloader, hidrun, hclock⟩ := s.settings_run before
  have hle : (s.run before).2.sender.sendTimeId ≤ maxElementId := by
    rw [hidrun]
    exact foldl_idAfter_le hid before
  have hmtu : (s.run before).2.sender.config.mtu - (s.run before).2.sender.overhead = mtu := by
    rw [Sender.overhead, hconfig, hidrun]
    split <;> simp_all [mtu, id, Packet.Header.fixedSize, sendTimeBlockSize]
  have hframes := Sender.frames_packetize hle (s.run before).2.sequencer accessUnit samples
  rw [Sender.payloadsFor, hmtu, hconfig, hpayloader, hidrun, hclock] at hframes
  exact ⟨_, s.getElem?_run before _ after, hframes⟩

theorem frames_run_stamped :
    let halves : Payloader (List Nat) :=
      { codecName := "halves"
        payloads := fun mtus mtu accessUnit =>
          ([accessUnit.take mtu, accessUnit.drop mtu], mtus ++ [mtu]) }
    let s : Session (List Nat) :=
      { sender :=
          { config := { mtu := 22, payloadType := 200, ssrc := 7 }
            payloader := halves, memory := [], timestamp := 0 }
        sequencer := { last := 65535 } }
    let before : List Request := [.packetize [1, 2, 3] 4, .enableSendTime 3, .packetize [] 5,
      .setClock 1500000000, .enableSendTime 15]
    let requests := before ++ [.packetize [4, 5, 6] 7, .enableSendTime 0, .packetize [8] 9]
    (∃ packets, (s.run requests).1[5]? = some (.packets packets) ∧
        s.sender.config.Frames 3 1500000000 [[4, 5], [6]] packets) ∧
      (Packet.cutAtMarkers ((s.run requests).1.flatMap Reply.sent)).map List.length = [2, 2, 2] := by
  intro halves s before requests
  obtain ⟨hframes, hcut⟩ := frames_run (s := s) (by decide) requests
  obtain ⟨packets, hreply, hpackets⟩ := hframes before [4, 5, 6] 7 _ rfl
  refine ⟨⟨packets, hreply, hpackets⟩, ?_⟩
  rw [hcut]
  rfl

end Session

end NalTransport
