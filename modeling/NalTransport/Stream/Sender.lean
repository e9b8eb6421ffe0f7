import NalTransport.Avc.Framing
import NalTransport.Hevc.Framing
import NalTransport.Packet.Basic
import NalTransport.Packing.AccessUnit
import NalTransport.SendTime.Element
import NalTransport.Stream.Sequencer

/-! Access units into RTP packets. The packets of one access unit share a
timestamp and the last of them has the marker and, if wanted, the send time. -/

namespace NalTransport

/-- Cuts access units into payloads of limited size; `Memory` is what it keeps
from one to the next. -/
structure Payloader (Memory : Type) where
  codecName : String
  payloads : Memory → Nat → Bytes → List Bytes × Memory

def Payloader.ofFraming {Header : Type} (framing : Framing Header) (singly dropFiller : Bool) :
    Payloader Unit where
  codecName := framing.codecName
  payloads _ mtu accessUnit :=
    (Packing.accessUnitPayloads { framing, mtu, singly } dropFiller accessUnit, ())

def Payloader.avc (singly dropFiller : Bool) : Payloader Unit :=
  .ofFraming Avc.framing singly dropFiller

def Payloader.hevc (singly dropFiller : Bool) : Payloader Unit :=
  .ofFraming Hevc.framing singly dropFiller

/-- The `mtu` bounds whole packets, headers included. -/
structure Sender.Config where
  mtu : Nat := 1400
  payloadType : UInt8 := 96
  ssrc : UInt32
  clockRate : UInt32 := 90000

/-- A send time is attached while `sendTimeId` is not zero. -/
structure Sender (Memory : Type) where
  config : Sender.Config
  payloader : Payloader Memory
  memory : Memory
  timestamp : UInt32
  sendTimeId : UInt8 := 0
  clock : Instant := 0

namespace Sender

variable {Memory : Type}

/-- Bytes of a packet that are kept free of payload. -/
def overhead (s : Sender Memory) : Nat :=
  if s.sendTimeId = 0 then Packet.Header.fixedSize
  else Packet.Header.fixedSize + sendTimeBlockSize

def header (s : Sender Memory) (number : UInt16) (last : Bool) : Packet.Header :=
  let header : Packet.Header :=
    { version := Packet.Header.rtpVersion
      marker := last
      payloadType := s.config.payloadType
      sequenceNumber := number
      timestamp := s.timestamp
      ssrc := s.config.ssrc }
  if last ∧ s.sendTimeId ≠ 0 then header.stamp s.sendTimeId s.clock else header

def packets (s : Sender Memory) (payloads : List Bytes) (numbers : List UInt16) : List Packet :=
  let count := payloads.length
  (payloads.zip numbers).zipIdx.map fun ((payload, number), i) =>
    { header := s.header number (i + 1 == count), payload }

/-- An empty access unit changes nothing; any other takes its time, also if it
yields no packet. -/
def packetize (s : Sender Memory) (sequencer : Sequencer) (accessUnit : Bytes)
    (samples : UInt32) : List Packet × Sender Memory × Sequencer :=
  if accessUnit = [] then ([], s, sequencer)
  else
    let (payloads, memory) :=
      s.payloader.payloads s.memory (s.config.mtu - s.overhead) accessUnit
    let (numbers, sequencer) := sequencer.drawMany payloads.length
    (s.packets payloads numbers, { s with memory, timestamp := s.timestamp + samples }, sequencer)

def skipSamples (s : Sender Memory) (samples : UInt32) : Sender Memory :=
  { s with timestamp := s.timestamp + samples }

/-- The id zero ends the sending of send times. -/
def enableSendTime (s : Sender Memory) (id : UInt8) : Except WireError (Sender Memory) :=
  (checkElementId id).map fun _ => { s with sendTimeId := id }

def samplesFor (s : Sender Memory) (nanoseconds : Nat) : UInt32 :=
  ticks s.config.clockRate nanoseconds

end Sender

end NalTransport
