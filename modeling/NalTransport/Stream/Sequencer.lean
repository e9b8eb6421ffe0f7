/-! Sequence numbers. They count up by one and start over behind the largest
word; the number of times they did is kept. -/

namespace NalTransport

/-- The roll-overs stand for a 64-bit counter, with which they agree as long as
there are fewer than `2 ^ 64` of them. -/
structure Sequencer where
  last : UInt16
  rollOvers : Nat := 0
  deriving DecidableEq

namespace Sequencer

def draw (s : Sequencer) : UInt16 × Sequencer :=
  let number := s.last + 1
  (number, { last := number, rollOvers := s.rollOvers + if number = 0 then 1 else 0 })

def drawOnto (done : List UInt16) : Nat → Sequencer → List UInt16 × Sequencer
  | 0, s => (done.reverse, s)
  | n + 1, s => drawOnto (s.draw.1 :: done) n s.draw.2

def drawMany (s : Sequencer) (n : Nat) : List UInt16 × Sequencer := drawOnto [] n s

theorem drawOnto_append (done more : List UInt16) (n : Nat) (s : Sequencer) :
    drawOnto (done ++ more) n s =
      (more.reverse ++ (drawOnto done n s).1, (drawOnto done n s).2) := by
  induction n generalizing done s with
  | zero => simp [drawOnto]
  | succ n ih => exact ih (s.draw.1 :: done) s.draw.2

theorem drawMany_zero (s : Sequencer) : s.drawMany 0 = ([], s) := rfl

theorem drawMany_succ (s : Sequencer) (n : Nat) :
    s.drawMany (n + 1) = (s.draw.1 :: (s.draw.2.drawMany n).1, (s.draw.2.drawMany n).2) :=
  drawOnto_append [] [s.draw.1] n s.draw.2

theorem length_drawMany (s : Sequencer) (n : Nat) : (s.drawMany n).1.length = n := by
  induction n generalizing s with
  | zero => rfl
  | succ n ih => simp [drawMany_succ, ih]

end Sequencer

end NalTransport
