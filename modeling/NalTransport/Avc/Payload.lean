import NalTransport.Avc.Header
import NalTransport.Payload.Bundle
import NalTransport.Payload.FragmentHeader
import NalTransport.Payload.Reassembly

/-! H.264 payloads by their type, and what can be read off one that arrived. -/

namespace NalTransport.Avc

namespace PayloadType

def stapA : UInt8 := 24

def stapB : UInt8 := 25

def mtap16 : UInt8 := 26

def mtap24 : UInt8 := 27

def fuA : UInt8 := 28

def fuB : UInt8 := 29

def names : List (UInt8 × String) :=
  [(stapA, "STAP-A"), (stapB, "STAP-B"), (mtap16, "MTAP16"), (mtap24, "MTAP24"),
    (fuA, "FU-A"), (fuB, "FU-B")]

/-- Only the bits that the wire holds count. -/
def layout (t : UInt8) : Layout :=
  let t := t &&& Header.typeMask
  if t = 0 then .reserved
  else if t < stapA then .singleUnit
  else if t < fuA then .aggregation
  else if t ≤ fuB then .fragmentation
  else .reserved

def isSingleTime (t : UInt8) : Bool := t == stapA || t == stapB

def isMultiTime (t : UInt8) : Bool := t == mtap16 || t == mtap24

/-- Bytes in front of the data of the units. -/
def headerSize (t : UInt8) : Nat :=
  if t = stapB ∨ t = mtap16 ∨ t = mtap24 then 3
  else if t = fuA then 2
  else if t = fuB then 4
  else 1

end PayloadType

/-- A payload cut behind its header. -/
structure Payload where
  header : Header := {}
  body : Bytes := []
  deriving DecidableEq

namespace Payload

def decode (bytes : Bytes) : Except WireError Payload :=
  (Header.decode bytes).map fun header => { header, body := bytes.drop Header.size }

def encode (p : Payload) : Bytes := p.header.toByte :: p.body

def size (p : Payload) : Nat := Header.size + p.body.length

def fragmentHeaderAt : Nat := 1

def readFragmentHeader (bytes : Bytes) : Except WireError FragmentHeader :=
  FragmentHeader.decode Header.typeMask (bytes.drop fragmentHeaderAt)

def fragmentHeader? (p : Payload) : Option FragmentHeader :=
  if PayloadType.layout p.header.unitType = .fragmentation then
    (FragmentHeader.decode Header.typeMask p.body).toOption
  else none

/-- The data of a fragment of type FU-A. -/
def fragmentData? (p : Payload) : Option Bytes :=
  if p.header.unitType = PayloadType.fuA then p.body.tail? else none

/-- The units of a payload of type STAP-A, none for any other type. -/
def units (p : Payload) : Except WireError (List Bytes) :=
  if p.header.unitType = PayloadType.stapA then Bundle.split p.body else .ok []

def unitHeader (p : Payload) (fragment : FragmentHeader) : Bytes :=
  [{ p.header with unitType := fragment.unitType : Header }.toByte]

/-- What a whole payload carries, if it is of a type that senders use. -/
def carried? (bytes : Bytes) : Option Carried := do
  let p ← (decode bytes).toOption
  if p.header.unitType = PayloadType.stapA then return .whole (← p.units.toOption)
  else if p.header.unitType = PayloadType.fuA then
    let fragment ← p.fragmentHeader?
    return .fragment fragment.first fragment.last (p.unitHeader fragment) (← p.fragmentData?)
  else if PayloadType.layout p.header.unitType = .singleUnit then return .whole [bytes]
  else none

end Payload

end NalTransport.Avc
