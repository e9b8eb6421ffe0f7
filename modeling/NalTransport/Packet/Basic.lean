import NalTransport.Packet.Header
import NalTransport.Packet.Trailer

/-! RTP packets. A packet marked as padded always has a trailer on the wire:
where the trailer has nothing to write, a bare count of one stands for it. -/

namespace NalTransport

/-- The trailer counts only if the header says `padded`. -/
structure Packet where
  header : Packet.Header := {}
  payload : Bytes := []
  trailer : Packet.Trailer := {}
  deriving DecidableEq

namespace Packet

def decode (raw : Bytes) : Except WireError Packet := do
  let header ← Header.decode raw
  let body := raw.drop header.size
  if header.padded then
    let trailer ← Trailer.decode body
    .ok { header, trailer, payload := body.take (body.length - (trailer.fill.length + 1)) }
  else .ok { header, payload := body }

def paddingSize (p : Packet) : Nat :=
  if p.header.padded then max p.trailer.size 1 else 0

def size (p : Packet) : Nat := p.header.size + p.payload.length + p.paddingSize

/-- A bare count of one stands for an empty trailer. -/
def paddingBytes (p : Packet) : Except WireError Bytes :=
  if p.header.padded then
    match p.trailer.encode with
    | .ok [] => .ok [1]
    | written => written
  else .ok []

def encode (p : Packet) : Except WireError Bytes := do
  let header ← p.header.encode
  let padding ← p.paddingBytes
  .ok (header ++ p.payload ++ padding)

end Packet

end NalTransport
