import Mathlib.Algebra.Ring.Nat
import NalTransport.Proofs.Stream.Run
import NalTransport.Proofs.Stream.Sender

/-! Timestamps over whole runs. They move on by what is sent or skipped and by
nothing else, and a request that is idle might as well not have been made. -/

namespace NalTransport

namespace Request

/-- By how much the timestamp moves on. An access unit takes its time also if no
packet comes of it, but one without bytes is none. -/
def duration : Request → Nat
  | packetize accessUnit samples => if accessUnit = [] then 0 else samples.toNat
  | skipSamples samples => samples.toNat
  | enableSendTime _ | setClock _ | drawNumber => 0

/-- Nothing to send, or an id that is refused. -/
def idle : Request → Bool
  | packetize accessUnit _ => accessUnit.isEmpty
  | enableSendTime id => maxElementId < id
  | skipSamples _ | setClock _ | drawNumber => false

end Request

theorem Sender.timestamp_of_mem_packetize {Memory : Type} {s : Sender Memory}
    {sequencer : Sequencer} {accessUnit : Bytes} {samples : UInt32} {packet : Packet}
    (h : packet ∈ (s.packetize sequencer accessUnit samples).1) :
    packet.header.timestamp = s.timestamp := by
  obtain ⟨number, last, payload, -, rfl⟩ := exists_of_mem_packetize h
  simp only [header]
  split <;> rfl

namespace Session

variable {Memory : Type}

theorem timestamp_step (s : Session Memory) (request : Request) :
    (s.step request).2.sender.timestamp = s.sender.timestamp + UInt32.ofNat request.duration := by
  cases request with
  | packetize accessUnit samples =>
    simp only [step, Sender.packetize, Request.duration]
    split
    · simp
    · simp
  | skipSamples samples => simp [step, Sender.skipSamples, Request.duration]
  | enableSendTime id =>
    rw [step_enableSendTime]
    split <;> simp [Request.duration]
  | setClock now => simp [step, Request.duration]
  | drawNumber => simp [step, Request.duration]

theorem timestamp_run (s : Session Memory) (requests : List Request) :
    (s.run requests).2.sender.timestamp.toNat =
      (s.sender.timestamp.toNat + (requests.map Request.duration).sum) % 4294967296 := by
  induction requests generalizing s with
  | nil =>
    have := s.sender.timestamp.toNat_lt
    simp only [run, List.map_nil, List.sum_nil]
    omega
  | cons request requests ih =>
    rw [run_cons, ih, timestamp_step, List.map_cons, List.sum_cons, UInt32.toNat_add,
      UInt32.toNat_ofNat']
    omega

theorem step_of_idle {request : Request} (h : request.idle = true) (s : Session Memory) :
    (s.step request).2 = s := by
  cases request with
  | packetize accessUnit samples =>
    obtain rfl := List.isEmpty_iff.mp h
    rfl
  | enableSendTime id => rw [step_enableSendTime, if_pos (of_decide_eq_true h)]
  | skipSamples samples => cases h
  | setClock now => cases h
  | drawNumber => cases h

theorem run_eraseIdx {requests : List Request} {i : Nat} {request : Request}
    (hi : requests[i]? = some request) (h : request.idle = true) (s : Session Memory) :
    s.run (requests.eraseIdx i) = ((s.run requests).1.eraseIdx i, (s.run requests).2) := by
  induction requests generalizing i s with
  | nil => simp at hi
  | cons first requests ih =>
    cases i with
    | zero =>
      obtain rfl : first = request := by simpa using hi
      simp only [run_cons, List.eraseIdx_cons_zero, step_of_idle h]
    | succ i => simp only [run_cons, List.eraseIdx_cons_succ, ih hi]

theorem run_filter_idle (s : Session Memory) (requests : List Request) :
    s.run (requests.filter (!·.idle)) =
      (((requests.zip (s.run requests).1).filter (!·.1.idle)).map Prod.snd,
        (s.run requests).2) := by
  induction requests generalizing s with
  | nil => rfl
  | cons request requests ih =>
    simp only [run_cons, List.zip_cons_cons, List.filter_cons]
    cases h : request.idle with
    | true =>
      simp [ih, step_of_idle h]
    | false =>
      simp [run_cons, ih]

/-- Sums of durations give the timestamps of all packets, since the requests in front of a
packet are a run of their own. With the state that every prefix of a run leaves, the limit of
payloads and the id of send times stay as they are when idle requests are erased. -/
theorem timestamps_run (s : Session Memory) (requests : List Request) :
    (s.run requests).2.sender.timestamp.toNat =
        (s.sender.timestamp.toNat + (requests.map Request.duration).sum) % 4294967296 ∧
      (∀ before accessUnit samples after,
        requests = before ++ .packetize accessUnit samples :: after →
        ∃ packets, (s.run requests).1[before.length]? = some (.packets packets) ∧
          ∀ packet ∈ packets, packet.header.timestamp = (s.run before).2.sender.timestamp) ∧
      (∀ id, (∃ error, (s.step (.enableSendTime id)).1 = .refused error) ↔ 14 < id) ∧
      (∀ request, request.idle = true → (s.step request).2 = s) ∧
      (∀ i request, requests[i]? = some request → request.idle = true →
        s.run (requests.eraseIdx i) = ((s.run requests).1.eraseIdx i, (s.run requests).2)) ∧
      s.run (requests.filter (!·.idle)) =
        (((requests.zip (s.run requests).1).filter (!·.1.idle)).map Prod.snd,
          (s.run requests).2) := by
  refine ⟨s.timestamp_run requests, ?_, fun id => ?_, fun request h => step_of_idle h s,
    fun i request hi h => run_eraseIdx hi h s, s.run_filter_idle requests⟩
  · rintro before accessUnit samples after rfl
    exact ⟨_, s.getElem?_run before _ after, fun packet h => Sender.timestamp_of_mem_packetize h⟩
  · rw [step_enableSendTime]
    split <;> simp_all [maxElementId]

/-- A payloader that remembers the limits it was given; the timestamp starts over. -/
theorem timestamps_run_erased :
    let recorder : Payloader (List Nat) :=
      { codecName := "recorder"
        payloads := fun mtus mtu accessUnit =>
          (if mtu < 90 then [] else [accessUnit], mtus ++ [mtu]) }
    let s : Session (List Nat) :=
      { sender :=
          { config := { mtu := 102, ssrc := 7 }
            payloader := recorder, memory := [], timestamp := 4294967290 }
        sequencer := { last := 65535 } }
    let before : List Request := [.packetize [9] 4, .enableSendTime 15, .packetize [] 50,
      .drawNumber, .enableSendTime 14, .packetize [8] 5, .skipSamples 6, .enableSendTime 255,
      .enableSendTime 0]
    let requests := before ++ [.packetize [7] 1]
    let kept : List Request := [.packetize [9] 4, .drawNumber, .enableSendTime 14,
      .packetize [8] 5, .skipSamples 6, .enableSendTime 0, .packetize [7] 1]
    let packet : Packet :=
      { header :=
          { version := 2, marker := true, payloadType := 96, sequenceNumber := 2,
            timestamp := 9, ssrc := 7 }
        payload := [7] }
    (s.run requests).1[9]? = some (.packets [packet]) ∧
      packet.header.timestamp = (s.run before).2.sender.timestamp ∧
      (s.run requests).2.sender.timestamp.toNat = 10 ∧
      (s.run requests).2.sender.memory = [90, 82, 90] ∧
      (s.run kept).2 = (s.run requests).2 ∧
      s.run (requests.eraseIdx 2) = ((s.run requests).1.eraseIdx 2, (s.run requests).2) := by
  intro recorder s before requests kept packet
  obtain ⟨hsum, hpackets, -, -, herase, hfilter⟩ := timestamps_run s requests
  have hsent : ((s.run before).2.sender.packetize (s.run before).2.sequencer [7] 1).1 =
      [packet] := by decide
  have hreply : (s.run requests).1[9]? = some (.packets [packet]) :=
    (s.getElem?_run before _ []).trans (congrArg (some <| Reply.packets ·) hsent)
  obtain ⟨packets, hpacket, htimes⟩ := hpackets before [7] 1 [] rfl
  obtain rfl : packets = [packet] := by simpa using hpacket.symm.trans hreply
  have hkept : requests.filter (!·.idle) = kept := rfl
  rw [hkept] at hfilter
  exact ⟨hreply, htimes packet (List.mem_singleton_self _), hsum.trans (by decide), rfl,
    by rw [hfilter], herase 2 _ rfl rfl⟩

end Session

end NalTransport
