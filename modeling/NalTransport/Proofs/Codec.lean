import NalTransport.Proofs.Avc.Payload
import NalTransport.Proofs.Hevc.Payload

/-! The two codecs side by side, for what holds of both. -/

namespace NalTransport

inductive Codec where
  | avc
  | hevc

namespace Codec

def Header : Codec → Type
  | avc => Avc.Header
  | hevc => Hevc.Header

def framing : (c : Codec) → Framing c.Header
  | avc => Avc.framing
  | hevc => Hevc.framing

def carried? : Codec → Bytes → Option Carried
  | avc => Avc.Payload.carried?
  | hevc => Hevc.Payload.carried?

def view : (c : Codec) → Bytes → Except WireError (PayloadView c.Header)
  | avc, payload => (Avc.Payload.decode payload).map Avc.Payload.view
  | hevc, payload => (Hevc.Payload.decode payload).map Hevc.Payload.view

def unitType : (c : Codec) → c.Header → UInt8
  | avc, (header : Avc.Header) => header.unitType
  | hevc, (header : Hevc.Header) => header.unitType

/-- The header with another type; its other fields stay. -/
def retyped : (c : Codec) → c.Header → UInt8 → c.Header
  | avc, (header : Avc.Header), t => { header with unitType := t }
  | hevc, (header : Hevc.Header), t => { header with unitType := t }

def fragmentType : Codec → UInt8
  | avc => Avc.PayloadType.fuA
  | hevc => Hevc.PayloadType.fragmentation

def Summarizes : (c : Codec) → c.Header → List c.Header → Prop
  | avc => Avc.Header.Summarizes
  | hevc => Hevc.Header.Summarizes

/-- The header is of a type that only a unit by itself has. -/
def Plain : (c : Codec) → c.Header → Prop
  | avc => Avc.Header.Plain
  | hevc => Hevc.Header.Plain

instance (c : Codec) (header : c.Header) : Decidable (c.Plain header) :=
  match c, header with
  | avc, header => inferInstanceAs (Decidable (Avc.PayloadType.layout header.unitType = _))
  | hevc, header => inferInstanceAs (Decidable (Hevc.PayloadType.layout header.unitType = _))

def PlainUnit (c : Codec) (data : Bytes) : Prop :=
  ∀ header, c.framing.unitHeader data = .ok header → c.Plain header

instance (c : Codec) (data : Bytes) : Decidable (c.PlainUnit data) :=
  match hu : c.framing.unitHeader data with
  | .ok header => decidable_of_iff (c.Plain header) (by simp [PlainUnit, hu])
  | .error e => .isTrue fun header h => by simp [hu] at h

theorem view_fragment {c : Codec} {unit : Bytes} {header : c.Header}
    (h : c.framing.unitHeader unit = .ok header) (first last : Bool) (part : Bytes) :
    c.view (c.framing.fragmentHeader header first last ++ part) =
      .ok
        { header := c.retyped header c.fragmentType
          fragmentHeader? := some { first, last, unitType := c.unitType header }
          fragmentData? := some part
          units := .ok [] } := by
  cases c with
  | avc =>
    obtain ⟨p, hp, hview⟩ := Avc.Payload.decode_fragment first last part h
    exact (congrArg (Except.map Avc.Payload.view) hp).trans (congrArg Except.ok hview)
  | hevc =>
    obtain ⟨p, hp, hview⟩ := Hevc.Payload.decode_fragment first last part h
    exact (congrArg (Except.map Hevc.Payload.view) hp).trans (congrArg Except.ok hview)

theorem exists_view_aggregate {c : Codec} {headers : List c.Header} (hne : headers ≠ [])
    (hh : ∀ header ∈ headers, ∃ data, c.framing.unitHeader data = .ok header)
    {units : List Bytes} (hu : Bundle.Framable units) :
    ∃ header, c.Summarizes header headers ∧
      c.view (c.framing.aggregationHeader headers ++ Bundle.join units) =
        .ok { header, fragmentHeader? := none, fragmentData? := none, units := .ok units } := by
  cases c with
  | avc =>
    have hs := Avc.summarizes_aggregationHeader hne
    obtain ⟨p, hp, hview⟩ := Avc.Payload.decode_aggregate headers hu
    rw [hs.wireForm_eq fun header h => (hh header h).elim fun _ => Avc.Header.wireForm_of_decode]
      at hview
    exact ⟨_, hs, (congrArg (Except.map Avc.Payload.view) hp).trans (congrArg Except.ok hview)⟩
  | hevc =>
    have hs := Hevc.summarizes_aggregationHeader hne
    obtain ⟨p, hp, hview⟩ := Hevc.Payload.decode_aggregate headers hu
    rw [hs.wireForm_eq fun header h => (hh header h).elim fun _ => Hevc.Header.wireForm_of_decode]
      at hview
    exact ⟨_, hs, (congrArg (Except.map Hevc.Payload.view) hp).trans (congrArg Except.ok hview)⟩

theorem aggregationHeader_perm {c : Codec} {headers others : List c.Header} (hne : headers ≠ [])
    (hp : others.Perm headers) :
    c.framing.aggregationHeader others = c.framing.aggregationHeader headers := by
  have hne' : others ≠ [] := fun h => hne (List.nil_perm.mp (h ▸ hp))
  have hm (header : c.Header) : header ∈ others ↔ header ∈ headers := hp.mem_iff
  cases c with
  | avc =>
    have hs := Avc.summarizes_aggregationHeader hne'
    have heq := hs.eq (Avc.summarizes_aggregationHeader hne) hm
    exact congrArg (fun header => [header.toByte]) heq
  | hevc =>
    have hs := Hevc.summarizes_aggregationHeader hne'
    have heq := hs.eq (Hevc.summarizes_aggregationHeader hne) hm
    exact congrArg Hevc.Header.toBytes heq

theorem readBack (c : Codec) : c.framing.ReadBack c.carried? c.Plain := by
  cases c with
  | avc => exact Avc.framing_readBack
  | hevc => exact Hevc.framing_readBack

end Codec

end NalTransport
