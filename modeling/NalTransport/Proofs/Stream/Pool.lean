import Mathlib
import NalTransport.AnnexB.Stream
import NalTransport.Proofs.Stream.Sender
import NalTransport.Proofs.Stream.Sequencer
import NalTransport.Stream.Pool

/-! The numbers that a shared sequencer gives out, whoever asks for them. Every
call draws the numbers that its reply shows and no others, so that the replies
of a run read one after another show a single sequence of draws. -/

namespace NalTransport

def Reply.numbers : Reply → List UInt16
  | packets all => all.map (·.header.sequenceNumber)
  | number n => [n]
  | done => []
  | refused _ => []

theorem Session.drawMany_step {Memory : Type} (s : Session Memory) (request : Request) :
    s.sequencer.drawMany (s.step request).1.numbers.length =
      ((s.step request).1.numbers, (s.step request).2.sequencer) := by
  cases request with
  | packetize accessUnit samples =>
    have h := s.sender.drawMany_packetize s.sequencer accessUnit samples
    simpa only [step, Reply.numbers, List.length_map] using h
  | skipSamples samples => rfl
  | enableSendTime id =>
    simp only [step]
    cases s.sender.enableSendTime id <;> rfl
  | setClock now => rfl
  | drawNumber => rfl

namespace Pool

variable {Name : Type} [DecidableEq Name] {Memory : Name → Type}

theorem drawMany_step (p : Pool Memory) (call : Call Name) :
    p.sequencer.drawMany (p.step call).1.numbers.length =
      ((p.step call).1.numbers, (p.step call).2.sequencer) := by
  cases call with
  | ask name request =>
    exact Session.drawMany_step { sender := p.sender name, sequencer := p.sequencer } request
  | drawNumber => rfl

theorem run_cons (p : Pool Memory) (call : Call Name) (calls : List (Call Name)) :
    p.run (call :: calls) =
      ((p.step call).1 :: ((p.step call).2.run calls).1, ((p.step call).2.run calls).2) := rfl

theorem drawMany_run (p : Pool Memory) (calls : List (Call Name)) :
    p.sequencer.drawMany ((p.run calls).1.flatMap Reply.numbers).length =
      ((p.run calls).1.flatMap Reply.numbers, (p.run calls).2.sequencer) := by
  induction calls generalizing p with
  | nil => rfl
  | cons call calls ih =>
    rw [run_cons, List.flatMap_cons, List.length_append, Sequencer.drawMany_add, drawMany_step, ih]

theorem exists_packets_step (p : Pool Memory) (name : Name) (accessUnit : Bytes)
    (samples : UInt32) :
    ∃ packets, (p.step (.ask name (.packetize accessUnit samples))).1 = .packets packets ∧
      (p.step (.ask name (.packetize accessUnit samples))).2.sequencer =
        (p.sequencer.drawMany packets.length).2 ∧
      packets.map (·.header.sequenceNumber) = (p.sequencer.drawMany packets.length).1 ∧
      (packets.map (·.header.sequenceNumber)).IsChain fun number next => next = number + 1 := by
  have hdraw := (p.sender name).drawMany_packetize p.sequencer accessUnit samples
  have hchain := p.sequencer.isChain_drawMany
    ((p.sender name).packetize p.sequencer accessUnit samples).1.length
  rw [hdraw] at hchain
  exact ⟨_, rfl, congrArg Prod.snd hdraw.symm, congrArg Prod.fst hdraw.symm, hchain⟩

/-- A number depends on how many were drawn before it, not on who drew them. -/
theorem numbers_run (sender : ∀ name, Sender (Memory name)) (start : UInt16)
    (calls : List (Call Name)) :
    let initial : Sequencer := { last := start }
    let run := Pool.run { sender, sequencer := initial } calls
    let drawn := run.1.flatMap Reply.numbers
    (drawn = (List.range' 1 drawn.length).map (fun k => UInt16.ofNat (start.toNat + k)) ∧
        run.2.sequencer = (initial.drawMany drawn.length).2) ∧
      (∀ k, (initial.drawMany k).2.rollOvers = (start.toNat + k) / 65536 ∧
        (initial.drawMany k).2.rollOvers * 65536 + (initial.drawMany k).2.last.toNat =
          start.toNat + k) ∧
      (∀ window, window <:+: drawn → window.length ≤ 65536 → window.Nodup) ∧
      ∀ (p : Pool Memory) (name : Name) (accessUnit : Bytes) (samples : UInt32),
        ∃ packets, (p.step (.ask name (.packetize accessUnit samples))).1 = .packets packets ∧
          (p.step (.ask name (.packetize accessUnit samples))).2.sequencer =
            (p.sequencer.drawMany packets.length).2 ∧
          packets.map (·.header.sequenceNumber) = (p.sequencer.drawMany packets.length).1 ∧
          (packets.map (·.header.sequenceNumber)).IsChain fun number next => next = number + 1 := by
  intro initial run drawn
  have hrun : initial.drawMany drawn.length = (drawn, run.2.sequencer) :=
    drawMany_run { sender, sequencer := initial } calls
  have hdrawn : (initial.drawMany drawn.length).1 = drawn := congrArg Prod.fst hrun
  have hnumbers := initial.drawMany_fst_eq drawn.length
  rw [hdrawn, Sequencer.position_start] at hnumbers
  refine ⟨⟨hnumbers, congrArg Prod.snd hrun.symm⟩, Sequencer.rollOvers_drawMany start, ?_,
    exists_packets_step⟩
  intro window hw hl
  rw [← hdrawn] at hw
  exact Sequencer.nodup_of_infix_drawMany hw hl

/-- The numbers start over in the middle of an access unit. -/
theorem numbers_run_wrapping :
    let sender (hevc : Bool) : Sender Unit :=
      { config := { mtu := 18, ssrc := 7 }
        payloader := if hevc then .hevc false false else .avc false false
        memory := (), timestamp := 0 }
    let units : List (Nat × Bytes) := [(2, [66, 1, 2]), (3, [38, 1, 3, 4, 5, 6, 7, 8])]
    let calls : List (Call Bool) := [.ask true (.packetize (AnnexB.stream units) 3000), .drawNumber,
      .ask false (.packetize (AnnexB.stream units) 3000), .ask true (.packetize [] 3000)]
    let run := Pool.run { sender, sequencer := { last := 65533 } } calls
    let drawn := run.1.flatMap Reply.numbers
    run.1.map Reply.numbers = [[65534, 65535, 0], [1], [2, 3, 4], []] ∧
      run.2.sequencer.rollOvers = 1 ∧ drawn.length ≤ 65536 ∧ drawn.Nodup := by
  intro sender units calls run drawn
  have hreplies : run.1.map Reply.numbers = [[65534, 65535, 0], [1], [2, 3, 4], []] := by cbv
  have hlength : drawn.length ≤ 65536 := by
    rw [show drawn = (run.1.map Reply.numbers).flatten from List.flatMap_def, hreplies]
    decide
  have hnodup := (numbers_run sender 65533 calls).2.2.1 drawn List.infix_rfl hlength
  exact ⟨hreplies, by cbv, hlength, hnodup⟩

end Pool

end NalTransport
