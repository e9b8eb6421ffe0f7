import Mathlib.Logic.Function.Basic
import NalTransport.Stream.Session

/-! Senders that draw their numbers from one sequencer, which others may draw
from as well. Their calls come one after another in any order. A call is one
step as a whole, also if it draws a number for each of several packets: others
draw before it or after it, and draws in the middle of a call are left out. -/

namespace NalTransport

structure Pool {Name : Type} (Memory : Name → Type) where
  sender (name : Name) : Sender (Memory name)
  sequencer : Sequencer

inductive Call (Name : Type) where
  | ask (name : Name) (request : Request)
  | drawNumber

namespace Pool

variable {Name : Type} [DecidableEq Name] {Memory : Name → Type}

def step (p : Pool Memory) : Call Name → Reply × Pool Memory
  | .ask name request =>
    let session : Session (Memory name) := { sender := p.sender name, sequencer := p.sequencer }
    let (reply, session) := session.step request
    (reply,
      { sender := Function.update p.sender name session.sender, sequencer := session.sequencer })
  | .drawNumber =>
    let (number, sequencer) := p.sequencer.draw
    (.number number, { p with sequencer })

def run (p : Pool Memory) : List (Call Name) → List Reply × Pool Memory
  | [] => ([], p)
  | call :: calls =>
    let (reply, p) := p.step call
    let (replies, p) := p.run calls
    (reply :: replies, p)

end Pool

end NalTransport
