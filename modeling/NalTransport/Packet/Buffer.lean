import NalTransport.Packet.Basic

/-! Writing into a buffer of the caller's. The result shows the buffer as it is
afterwards, also where writing failed: the conditions on a header and on a trailer
are checked before the first of their bytes is stored, while a packet whose trailer
is too long stops behind its payload. -/

namespace NalTransport

/-- What writing reports, the number of bytes or the cause of failure, and the
buffer that it leaves. -/
structure Written where
  outcome : Except WireError Nat
  buffer : Bytes

namespace Packet

/-- The fixed fields, each at its own offset. -/
def Header.storeFixed (h : Header) (buffer : Bytes) : Bytes :=
  buffer
    |> Bytes.store 0 [h.flagByte]
    |> Bytes.store 1 [h.typeByte]
    |> Bytes.store 2 (Bytes.ofWord16 h.sequenceNumber)
    |> Bytes.store 4 (Bytes.ofWord32 h.timestamp)
    |> Bytes.store 8 (Bytes.ofWord32 h.ssrc)

/-- Identifiers from `offset` on, and the offset behind the last of them. -/
def Header.storeCsrcs : List UInt32 → Nat → Bytes → Nat × Bytes
  | [], offset, buffer => (offset, buffer)
  | csrc :: csrcs, offset, buffer =>
    storeCsrcs csrcs (offset + 4) (Bytes.store offset (Bytes.ofWord32 csrc) buffer)

/-- The extension block at `offset`, if there is one, and the offset behind it. -/
def Header.storeExtension (h : Header) (offset : Nat) (buffer : Bytes) : Nat × Bytes :=
  if h.extended then
    (offset + 4 + h.extension.length,
      buffer
        |> Bytes.store offset (Bytes.ofWord16 h.profile)
        |> Bytes.store (offset + 2) (Bytes.ofWord16 (UInt16.ofNat (h.extension.length / 4)))
        |> Bytes.store (offset + 4) h.extension)
  else (offset, buffer)

def Header.writeTo (h : Header) (buffer : Bytes) : Written :=
  match h.fault with
  | some e => ⟨.error e, buffer⟩
  | none =>
    if buffer.length < h.size then ⟨.error (.bufferTooShort h.size buffer.length), buffer⟩
    else
      let (offset, buffer) := storeCsrcs h.csrcs fixedSize (h.storeFixed buffer)
      let (offset, buffer) := h.storeExtension offset buffer
      ⟨.ok offset, buffer⟩

def Trailer.writeTo (t : Trailer) (buffer : Bytes) : Written :=
  if maxSize < t.size then ⟨.error (.paddingTooLong t.size), buffer⟩
  else if t.size = 0 then ⟨.ok 0, buffer⟩
  else if buffer.length < t.size then ⟨.error (.bufferTooShort t.size buffer.length), buffer⟩
  else
    ⟨.ok t.size, buffer |> Bytes.store 0 t.fill |> Bytes.store (t.size - 1) [UInt8.ofNat t.size]⟩

/-- The padding of a packet, into what is left of a buffer behind the payload. -/
def writePadding (p : Packet) (rest : Bytes) : Written :=
  if p.header.padded then
    match p.trailer.writeTo rest with
    | ⟨.ok 0, rest⟩ => ⟨.ok 1, Bytes.overwrite [1] rest⟩
    | written => written
  else ⟨.ok 0, rest⟩

/-- The room is checked before anything else. -/
def writeTo (p : Packet) (buffer : Bytes) : Written :=
  if buffer.length < p.size then ⟨.error (.bufferTooShort p.size buffer.length), buffer⟩
  else
    match p.header.writeTo buffer with
    | ⟨.error e, buffer⟩ => ⟨.error e, buffer⟩
    | ⟨.ok n, buffer⟩ =>
      let offset := n + p.payload.length
      let buffer := Bytes.store n p.payload buffer
      let padding := p.writePadding (buffer.drop offset)
      ⟨padding.outcome.map (offset + ·), buffer.take offset ++ padding.buffer⟩

end Packet

end NalTransport
