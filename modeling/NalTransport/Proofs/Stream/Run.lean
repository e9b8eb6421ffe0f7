import Mathlib.Data.List.Forall2
import NalTransport.Stream.Session

/-! Runs of a session. What every step keeps holds all along a run, and each
request is answered in a state where it holds. -/

namespace NalTransport

namespace Sender

variable {Memory : Type}

theorem exists_packetize_eq (s : Sender Memory) (sequencer : Sequencer) (accessUnit : Bytes)
    (samples : UInt32) : ∃ memory timestamp,
      (s.packetize sequencer accessUnit samples).2.1 = { s with memory, timestamp } := by
  rw [packetize]
  split
  · exact ⟨s.memory, s.timestamp, rfl⟩
  · exact ⟨_, _, rfl⟩

theorem enableSendTime_eq_ok_iff {s t : Sender Memory} {id : UInt8} :
    s.enableSendTime id = .ok t ↔ id ≤ maxElementId ∧ t = { s with sendTimeId := id } := by
  rw [enableSendTime, checkElementId]
  by_cases hid : maxElementId < id
  · have hno : ¬ id ≤ maxElementId := UInt8.not_le.mpr hid
    simp [hid, hno, Except.map]
  · simp [hid, Except.map, UInt8.not_lt.mp hid, eq_comm]

end Sender

def Reply.sent : Reply → List Packet
  | .packets all => all
  | _ => []

namespace Session

variable {Memory : Type}

theorem exists_of_mem_sent_step {s : Session Memory} {request : Request} {packet : Packet}
    (h : packet ∈ (s.step request).1.sent) :
    ∃ accessUnit samples, packet ∈ (s.sender.packetize s.sequencer accessUnit samples).1 := by
  cases request with
  | packetize accessUnit samples => exact ⟨accessUnit, samples, h⟩
  | enableSendTime id =>
    simp only [step] at h
    split at h <;> exact absurd h List.not_mem_nil
  | skipSamples samples => exact absurd h List.not_mem_nil
  | setClock now => exact absurd h List.not_mem_nil
  | drawNumber => exact absurd h List.not_mem_nil

theorem step_enableSendTime (s : Session Memory) (id : UInt8) :
    s.step (.enableSendTime id) =
      if maxElementId < id then (.refused (.elementIdInvalid id), s)
      else (.done, { s with sender := { s.sender with sendTimeId := id } }) := by
  simp only [step, Sender.enableSendTime, checkElementId]
  by_cases h : maxElementId < id
  · simp only [h, if_true]
    rfl
  · simp only [h, if_false]
    rfl

/-- All that a run can change of the sender's setup is the id of its send times. -/
theorem setup_step (s : Session Memory) (request : Request) :
    (s.step request).2.sender.config = s.sender.config ∧
      (s.step request).2.sender.payloader = s.sender.payloader ∧
      ((s.step request).2.sender.sendTimeId = s.sender.sendTimeId ∨
        ∃ id ≤ maxElementId, request = .enableSendTime id ∧
          (s.step request).2.sender.sendTimeId = id) := by
  cases request with
  | packetize accessUnit samples =>
    obtain ⟨memory, timestamp, h⟩ :=
      s.sender.exists_packetize_eq s.sequencer accessUnit samples
    have hsender : (s.step (.packetize accessUnit samples)).2.sender =
        { s.sender with memory, timestamp } := h
    rw [hsender]
    exact ⟨rfl, rfl, .inl rfl⟩
  | skipSamples samples => exact ⟨rfl, rfl, .inl rfl⟩
  | enableSendTime id =>
    cases he : s.sender.enableSendTime id with
    | error e => simp [step, he]
    | ok sender =>
      obtain ⟨hid, rfl⟩ := Sender.enableSendTime_eq_ok_iff.mp he
      simp [step, he, hid]
  | setClock now => exact ⟨rfl, rfl, .inl rfl⟩
  | drawNumber => exact ⟨rfl, rfl, .inl rfl⟩

theorem run_cons (s : Session Memory) (request : Request) (requests : List Request) :
    s.run (request :: requests) =
      ((s.step request).1 :: ((s.step request).2.run requests).1,
        ((s.step request).2.run requests).2) := rfl

theorem run_append (s : Session Memory) (before after : List Request) :
    s.run (before ++ after) =
      ((s.run before).1 ++ ((s.run before).2.run after).1, ((s.run before).2.run after).2) := by
  induction before generalizing s with
  | nil => rfl
  | cons request before ih => simp only [List.cons_append, run_cons, ih]

theorem length_run (s : Session Memory) (requests : List Request) :
    (s.run requests).1.length = requests.length := by
  induction requests generalizing s with
  | nil => rfl
  | cons request requests ih => simp only [run_cons, List.length_cons, ih]

theorem getElem?_run (s : Session Memory) (before : List Request) (request : Request)
    (after : List Request) :
    (s.run (before ++ request :: after)).1[before.length]? =
      some ((s.run before).2.step request).1 := by
  rw [run_append, run_cons, ← length_run s before]
  simp

theorem forall₂_run {Holds : Session Memory → Prop} {requests : List Request} {s : Session Memory}
    (hs : Holds s) (hstep : ∀ t, Holds t → ∀ request ∈ requests, Holds (t.step request).2) :
    List.Forall₂ (fun request reply => ∃ t, Holds t ∧ reply = (t.step request).1)
      requests (s.run requests).1 := by
  induction requests generalizing s with
  | nil => exact .nil
  | cons request requests ih =>
    have hnext := hstep s hs request List.mem_cons_self
    rw [run_cons]
    exact .cons ⟨s, hs, rfl⟩ (ih hnext fun t ht r hr => hstep t ht r (List.mem_cons_of_mem _ hr))

/-- A state that a run from `s` can pass through, as far as its sender's setup shows: send
times have an id from the start or from one of the requests. -/
structure Follows (s : Session Memory) (requests : List Request) (t : Session Memory) : Prop where
  config : t.sender.config = s.sender.config
  payloader : t.sender.payloader = s.sender.payloader
  sendTimeId : t.sender.sendTimeId = s.sender.sendTimeId ∨
    t.sender.sendTimeId ≤ maxElementId ∧ .enableSendTime t.sender.sendTimeId ∈ requests

theorem Follows.refl (s : Session Memory) (requests : List Request) : s.Follows requests s :=
  ⟨rfl, rfl, .inl rfl⟩

theorem Follows.step {s t : Session Memory} {requests : List Request} (h : s.Follows requests t)
    {request : Request} (hr : request ∈ requests) : s.Follows requests (t.step request).2 := by
  obtain ⟨hconfig, hpayloader, hid⟩ := t.setup_step request
  refine ⟨hconfig.trans h.config, hpayloader.trans h.payloader, ?_⟩
  rcases hid with hsame | ⟨id, hle, rfl, hset⟩
  · rw [hsame]
    exact h.sendTimeId
  · rw [hset]
    exact .inr ⟨hle, hr⟩

theorem forall₂_run_follows (s : Session Memory) (requests : List Request) :
    List.Forall₂ (fun request reply => ∃ t, s.Follows requests t ∧ reply = (t.step request).1)
      requests (s.run requests).1 :=
  forall₂_run (.refl s requests) fun _ ht _ hr => ht.step hr

theorem exists_of_mem_run {s : Session Memory} {requests : List Request} {reply : Reply}
    (h : reply ∈ (s.run requests).1) :
    ∃ t request, s.Follows requests t ∧ reply = (t.step request).1 := by
  have hrun := forall₂_run_follows s requests
  obtain ⟨i, hi, rfl⟩ := List.mem_iff_getElem.mp h
  obtain ⟨t, ht, heq⟩ := hrun.get (hrun.length_eq ▸ hi) hi
  exact ⟨t, _, ht, heq⟩

end Session

end NalTransport
