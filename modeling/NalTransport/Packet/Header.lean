import NalTransport.Bytes
import NalTransport.WireError

/-! The RTP header: twelve fixed bytes, up to fifteen CSRC identifiers and an
optional extension block whose length is counted in 32-bit words. The flags
and small fields of the first two bytes are read and written as digits. -/

namespace NalTransport

/-- Version and payload type keep the value they were given; the wire holds two
and seven bits of them. Profile and extension are written only if `extended`. -/
structure Packet.Header where
  version : UInt8 := 0
  padded : Bool := false
  extended : Bool := false
  marker : Bool := false
  payloadType : UInt8 := 0
  sequenceNumber : UInt16 := 0
  timestamp : UInt32 := 0
  ssrc : UInt32 := 0
  csrcs : List UInt32 := []
  profile : UInt16 := 0
  extension : Bytes := []
  deriving DecidableEq

namespace Packet.Header

/-- The version that senders write. -/
def rtpVersion : UInt8 := 2

def fixedSize : Nat := 12

def maxCsrcs : Nat := 15

/-- The extension length is a 16-bit count of words. -/
def maxExtensionWords : Nat := 65535

def extensionSize (h : Header) : Nat :=
  if h.extended then 4 + h.extension.length else 0

def size (h : Header) : Nat := fixedSize + 4 * h.csrcs.length + h.extensionSize

/-- Profile and body of the extension block that `block` starts with. The block
stands at `offset` in a packet of `total` bytes. -/
def decodeExtension (offset total : Nat) (block : Bytes) : Except WireError (UInt16 × Bytes) :=
  match block with
  | p1 :: p0 :: n1 :: n0 :: rest =>
    let length := 4 * (Bytes.word16 n1 n0).toNat
    let body := rest.take length
    if body.length < length then
      .error (.truncated .extensionBody (offset + 4 + length) total)
    else .ok (Bytes.word16 p1 p0, body)
  | _ => .error (.truncated .extensionHead (offset + 4) total)

/-- The header at the front of `raw`; what follows it is not looked at. -/
def decode (raw : Bytes) : Except WireError Header :=
  match raw with
  | b0 :: b1 :: n1 :: n0 :: t3 :: t2 :: t1 :: t0 :: s3 :: s2 :: s1 :: s0 :: rest =>
    let listSize := 4 * (b0 % 16).toNat
    let list := rest.take listSize
    if list.length < listSize then
      .error (.truncated .csrcList (fixedSize + listSize) raw.length)
    else
      let header : Header :=
        { version := b0 / 64
          padded := b0 / 32 % 2 == 1
          extended := b0 / 16 % 2 == 1
          marker := b1 / 128 == 1
          payloadType := b1 % 128
          sequenceNumber := Bytes.word16 n1 n0
          timestamp := Bytes.word32 t3 t2 t1 t0
          ssrc := Bytes.word32 s3 s2 s1 s0
          csrcs := Bytes.words32 list }
      if header.extended then
        match decodeExtension (fixedSize + listSize) raw.length (rest.drop listSize) with
        | .error e => .error e
        | .ok (profile, extension) => .ok { header with profile, extension }
      else .ok header
  | _ => .error (.truncated .fixedHeader fixedSize raw.length)

/-- Why the header has no wire form, if it has none. -/
def fault (h : Header) : Option WireError :=
  if maxCsrcs < h.csrcs.length then some (.tooManyCsrcs h.csrcs.length)
  else if h.extended ∧ h.extension.length % 4 ≠ 0 then
    some (.extensionUnaligned h.extension.length)
  else if h.extended ∧ maxExtensionWords < h.extension.length / 4 then
    some (.extensionTooLong h.extension.length)
  else none

def digit (weight : UInt8) (flag : Bool) : UInt8 := if flag then weight else 0

def flagByte (h : Header) : UInt8 :=
  h.version % 4 * 64 + digit 32 h.padded + digit 16 h.extended + UInt8.ofNat h.csrcs.length

def typeByte (h : Header) : UInt8 := digit 128 h.marker + h.payloadType % 128

def fixedBytes (h : Header) : Bytes :=
  h.flagByte :: h.typeByte
    :: Bytes.ofWord16 h.sequenceNumber ++ Bytes.ofWord32 h.timestamp ++ Bytes.ofWord32 h.ssrc

def extensionBytes (h : Header) : Bytes :=
  if h.extended then
    Bytes.ofWord16 h.profile ++ Bytes.ofWord16 (UInt16.ofNat (h.extension.length / 4))
      ++ h.extension
  else []

/-- The wire form of a header without `fault`. -/
def bytes (h : Header) : Bytes := h.fixedBytes ++ Bytes.ofWords32 h.csrcs ++ h.extensionBytes

def encode (h : Header) : Except WireError Bytes :=
  match h.fault with
  | some e => .error e
  | none => .ok h.bytes

theorem length_bytes (h : Header) : h.bytes.length = h.size := by
  unfold bytes size extensionBytes extensionSize
  split <;> simp [fixedBytes, Bytes.ofWord16, Bytes.ofWord32, Bytes.length_ofWords32,
    fixedSize] <;> omega

end Packet.Header

end NalTransport
