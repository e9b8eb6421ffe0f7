import NalTransport.Stream.Sender

/-! A sender and the sequencer it shares with others, driven by requests. -/

namespace NalTransport

structure Session (Memory : Type) where
  sender : Sender Memory
  sequencer : Sequencer

inductive Request where
  | packetize (accessUnit : Bytes) (samples : UInt32)
  | skipSamples (samples : UInt32)
  | enableSendTime (id : UInt8)
  | setClock (now : Instant)
  | drawNumber

inductive Reply where
  | packets (packets : List Packet)
  | number (number : UInt16)
  | done
  | refused (error : WireError)

namespace Session

variable {Memory : Type}

def step (s : Session Memory) : Request → Reply × Session Memory
  | .packetize accessUnit samples =>
    let (packets, sender, sequencer) := s.sender.packetize s.sequencer accessUnit samples
    (.packets packets, { sender, sequencer })
  | .skipSamples samples => (.done, { s with sender := s.sender.skipSamples samples })
  | .enableSendTime id =>
    match s.sender.enableSendTime id with
    | .ok sender => (.done, { s with sender })
    | .error e => (.refused e, s)
  | .setClock now => (.done, { s with sender := { s.sender with clock := now } })
  | .drawNumber =>
    let (number, sequencer) := s.sequencer.draw
    (.number number, { s with sequencer })

def run (s : Session Memory) : List Request → List Reply × Session Memory
  | [] => ([], s)
  | request :: requests =>
    let (reply, s) := s.step request
    let (replies, s) := s.run requests
    (reply :: replies, s)

end Session

end NalTransport
