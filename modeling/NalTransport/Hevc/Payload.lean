import NalTransport.Hevc.Header
import NalTransport.Payload.Bundle
import NalTransport.Payload.FragmentHeader
import NalTransport.Payload.Reassembly

/-! H.265 payloads by their type, and what can be read off one that arrived. -/

namespace NalTransport.Hevc

namespace PayloadType

def aggregation : UInt8 := 48

def fragmentation : UInt8 := 49

def contentInformation : UInt8 := 50

def names : List (UInt8 × String) :=
  [(aggregation, "AP"), (fragmentation, "FU"), (contentInformation, "PACI")]

def mask : UInt8 := 0x3f

def layout (t : UInt8) : Layout :=
  let t := t &&& mask
  if t < aggregation then .singleUnit
  else if t = aggregation then .aggregation
  else if t = fragmentation then .fragmentation
  else if t = contentInformation then .contentInformation
  else .reserved

def headerSize (t : UInt8) : Nat :=
  match layout t with
  | .fragmentation => 3
  | .contentInformation => 4
  | _ => 2

end PayloadType

/-- A payload cut behind its header. -/
structure Payload where
  header : Header := {}
  body : Bytes := []
  deriving DecidableEq

namespace Payload

def decode (bytes : Bytes) : Except WireError Payload :=
  (Header.decode bytes).map fun header => { header, body := bytes.drop Header.size }

def encode (p : Payload) : Bytes := p.header.toBytes ++ p.body

def size (p : Payload) : Nat := Header.size + p.body.length

def layout (p : Payload) : Layout := PayloadType.layout p.header.unitType

def fragmentHeaderAt : Nat := 2

def readFragmentHeader (bytes : Bytes) : Except WireError FragmentHeader :=
  FragmentHeader.decode PayloadType.mask (bytes.drop fragmentHeaderAt)

def fragmentHeader? (p : Payload) : Option FragmentHeader :=
  if p.layout = .fragmentation then
    (FragmentHeader.decode PayloadType.mask p.body).toOption
  else none

def fragmentData? (p : Payload) : Option Bytes :=
  if p.layout = .fragmentation then p.body.tail? else none

def units (p : Payload) : Except WireError (List Bytes) :=
  if p.layout = .aggregation then Bundle.split p.body else .ok []

def unitHeader (p : Payload) (fragment : FragmentHeader) : Bytes :=
  { p.header with unitType := fragment.unitType : Header }.toBytes

/-- What a whole payload carries, if it is of a type that senders use. -/
def carried? (bytes : Bytes) : Option Carried := do
  let p ← (decode bytes).toOption
  match p.layout with
  | .aggregation => return .whole (← p.units.toOption)
  | .fragmentation =>
    let fragment ← p.fragmentHeader?
    return .fragment fragment.first fragment.last (p.unitHeader fragment) (← p.fragmentData?)
  | .singleUnit => return .whole [bytes]
  | _ => none

end Payload

end NalTransport.Hevc
