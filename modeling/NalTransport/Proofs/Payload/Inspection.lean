import NalTransport.Proofs.Codec

/-! A payload that arrived, as its readers see it. Some of them look at all of its
bytes and some at those behind the header, and they never contradict each other. -/

namespace NalTransport

namespace Codec

def Payload : Codec → Type
  | avc => Avc.Payload
  | hevc => Hevc.Payload

def decode : (c : Codec) → Bytes → Except WireError c.Payload
  | avc => Avc.Payload.decode
  | hevc => Hevc.Payload.decode

def encode : (c : Codec) → c.Payload → Bytes
  | avc => Avc.Payload.encode
  | hevc => Hevc.Payload.encode

def size : (c : Codec) → c.Payload → Nat
  | avc => Avc.Payload.size
  | hevc => Hevc.Payload.size

def body : (c : Codec) → c.Payload → Bytes
  | avc => Avc.Payload.body
  | hevc => Hevc.Payload.body

def inspect : (c : Codec) → c.Payload → PayloadView c.Header
  | avc => Avc.Payload.view
  | hevc => Hevc.Payload.view

def headerBytes : (c : Codec) → c.Header → Bytes
  | avc, (header : Avc.Header) => [header.toByte]
  | hevc, (header : Hevc.Header) => header.toBytes

def InWidth : (c : Codec) → c.Header → Prop
  | avc => Avc.Header.InWidth
  | hevc => Hevc.Header.InWidth

def aggregationType : Codec → UInt8
  | avc => Avc.PayloadType.stapA
  | hevc => Hevc.PayloadType.aggregation

/-- The bits of a fragment header that hold the type. -/
def typeMask : Codec → UInt8
  | avc => Avc.Header.typeMask
  | hevc => Hevc.PayloadType.mask

/-- The bits of a fragment header that nothing reads. -/
def reservedMask : Codec → UInt8
  | avc => Avc.Payload.reservedMask
  | hevc => 0

/-- The fragment header in a whole payload. -/
def readFragmentHeader : Codec → Bytes → Except WireError FragmentHeader
  | avc => Avc.Payload.readFragmentHeader
  | hevc => Hevc.Payload.readFragmentHeader

/-- What is seen of a payload of the fragment type: all of its bytes, and its fragment header
and its data only together. -/
structure SeesFragment (c : Codec) (bytes : Bytes) (view : PayloadView c.Header) : Prop where
  isSome_fragmentHeader? :
    view.fragmentHeader?.isSome ↔ c.framing.fragmentHeaderSize ≤ bytes.length
  isSome_fragmentData? : view.fragmentData?.isSome ↔ c.framing.fragmentHeaderSize ≤ bytes.length
  exists_readFragmentHeader :
    (∃ fragment, c.readFragmentHeader bytes = .ok fragment) ↔
      c.framing.fragmentHeaderSize ≤ bytes.length
  fragmentHeader?_eq : view.fragmentHeader? = (c.readFragmentHeader bytes).toOption
  bytes_eq : ∀ fragment data, view.fragmentHeader? = some fragment →
    view.fragmentData? = some data →
    ∃ b, bytes = c.headerBytes view.header ++ b :: data ∧
      fragment.toByte c.typeMask = b &&& ~~~c.reservedMask
  units_eq : view.units = .ok []

theorem typeMask_or (c : Codec) :
    c.typeMask ||| FragmentHeader.firstMask ||| FragmentHeader.lastMask = ~~~c.reservedMask := by
  cases c <;> decide

theorem fragmentHeaderSize_eq (c : Codec) :
    c.framing.fragmentHeaderSize = c.framing.unitHeaderSize + 1 := by
  cases c <;> rfl

theorem length_headerBytes (c : Codec) (header : c.Header) :
    (c.headerBytes header).length = c.framing.unitHeaderSize := by
  cases c <;> rfl

theorem encode_eq (c : Codec) (p : c.Payload) :
    c.encode p = c.headerBytes (c.inspect p).header ++ c.body p := by
  cases c <;> rfl

theorem length_encode (c : Codec) (p : c.Payload) : (c.encode p).length = c.size p := by
  rw [encode_eq, List.length_append, length_headerBytes]
  cases c <;> rfl

theorem drop_encode (c : Codec) (p : c.Payload) :
    (c.encode p).drop c.framing.unitHeaderSize = c.body p := by
  rw [encode_eq]
  exact List.drop_left' (c.length_headerBytes _)

theorem readFragmentHeader_encode (c : Codec) (p : c.Payload) :
    c.readFragmentHeader (c.encode p) = FragmentHeader.decode c.typeMask (c.body p) := by
  have h : c.readFragmentHeader (c.encode p) =
      FragmentHeader.decode c.typeMask ((c.encode p).drop c.framing.unitHeaderSize) := by
    cases c <;> rfl
  rw [h, drop_encode]

theorem exists_decode_iff {c : Codec} {bytes : Bytes} :
    (∃ p, c.decode bytes = .ok p) ↔ c.framing.unitHeaderSize ≤ bytes.length := by
  rw [← Framing.exists_unitHeader_iff]
  cases c with
  | avc =>
    change (∃ p, Avc.Payload.decode bytes = .ok p) ↔ ∃ header, Avc.Header.decode bytes = .ok header
    unfold Avc.Payload.decode
    cases Avc.Header.decode bytes <;> simp [Except.map]
  | hevc =>
    change (∃ p, Hevc.Payload.decode bytes = .ok p) ↔
      ∃ header, Hevc.Header.decode bytes = .ok header
    unfold Hevc.Payload.decode
    cases Hevc.Header.decode bytes <;> simp [Except.map]

theorem encode_of_decode {c : Codec} {bytes : Bytes} {p : c.Payload}
    (h : c.decode bytes = .ok p) : c.encode p = bytes := by
  cases c with
  | avc => exact Avc.Payload.encode_of_decode h
  | hevc => exact Hevc.Payload.encode_of_decode h

theorem decode_encode_of_inWidth {c : Codec} {p : c.Payload} (hw : c.InWidth (c.inspect p).header) :
    c.decode (c.encode p) = .ok p := by
  cases c with
  | avc => exact (Avc.Payload.decode_encode_eq p).trans (congrArg _ (Avc.Payload.wireForm_eq hw))
  | hevc => exact (Hevc.Payload.decode_encode_eq p).trans (congrArg _ (Hevc.Payload.wireForm_eq hw))

theorem inspect_fragment {c : Codec} {p : c.Payload}
    (ht : c.unitType (c.inspect p).header = c.fragmentType) :
    c.inspect p =
      { header := (c.inspect p).header
        fragmentHeader? := (FragmentHeader.decode c.typeMask (c.body p)).toOption
        fragmentData? := (c.body p).tail?
        units := .ok [] } := by
  cases c with
  | avc => exact Avc.Payload.view_of_fuA ht
  | hevc => exact Hevc.Payload.view_of_fragmentation (congrArg Hevc.PayloadType.layout ht)

theorem inspect_aggregation {c : Codec} {p : c.Payload}
    (ht : c.unitType (c.inspect p).header = c.aggregationType) :
    c.inspect p =
      { header := (c.inspect p).header
        fragmentHeader? := none
        fragmentData? := none
        units := Bundle.split (c.body p) } := by
  cases c with
  | avc => exact Avc.Payload.view_of_stapA ht
  | hevc => exact Hevc.Payload.view_of_aggregation (congrArg Hevc.PayloadType.layout ht)

theorem inspect_plain {c : Codec} {p : c.Payload} (hp : c.Plain (c.inspect p).header) :
    c.inspect p =
      { header := (c.inspect p).header
        fragmentHeader? := none
        fragmentData? := none
        units := .ok [] } := by
  cases c with
  | avc => exact Avc.Payload.view_of_plain hp
  | hevc => exact Hevc.Payload.view_of_plain hp

theorem seesFragment {c : Codec} {p : c.Payload}
    (ht : c.unitType (c.inspect p).header = c.fragmentType) :
    c.SeesFragment (c.encode p) (c.inspect p) := by
  have hview := inspect_fragment ht
  have hheader := congrArg PayloadView.fragmentHeader? hview
  have hdata := congrArg PayloadView.fragmentData? hview
  have hunits := congrArg PayloadView.units hview
  dsimp only at hheader hdata hunits
  have hread := c.readFragmentHeader_encode p
  have hbytes := c.encode_eq p
  -- All three readers fail if the body is empty, and none fails otherwise.
  have hlength : c.framing.fragmentHeaderSize ≤ (c.encode p).length ↔ 0 < (c.body p).length := by
    rw [hbytes, List.length_append, length_headerBytes, fragmentHeaderSize_eq]
    omega
  refine ⟨?_, ?_, ?_, hheader.trans (congrArg Except.toOption hread.symm), ?_, hunits⟩
  · rw [hheader, hlength]
    cases c.body p <;> simp [FragmentHeader.decode, Except.toOption]
  · rw [hdata, hlength]
    cases c.body p <;> simp
  · rw [hread, hlength]
    cases c.body p <;> simp [FragmentHeader.decode]
  · intro fragment data hf hd
    rw [hheader] at hf
    rw [hdata] at hd
    cases hbody : c.body p with
    | nil =>
      rw [hbody] at hd
      cases hd
    | cons b rest =>
      rw [hbody] at hf hd hbytes
      obtain rfl := Option.some.inj hf
      obtain rfl := Option.some.inj hd
      exact ⟨b, hbytes, by rw [FragmentHeader.toByte_ofByte, typeMask_or]⟩

/-- Reading a payload loses nothing of it, its readers agree on what they see, and a payload
whose fields fit comes back from the wire. -/
theorem views_agree (c : Codec) :
    (∀ bytes : Bytes,
      ((∃ p, c.decode bytes = .ok p) ↔ c.framing.unitHeaderSize ≤ bytes.length) ∧
        ∀ p, c.decode bytes = .ok p →
          c.encode p = bytes ∧ c.size p = bytes.length ∧
            (c.unitType (c.inspect p).header = c.fragmentType →
              c.SeesFragment bytes (c.inspect p)) ∧
            (c.unitType (c.inspect p).header = c.aggregationType →
              c.inspect p =
                { header := (c.inspect p).header
                  fragmentHeader? := none
                  fragmentData? := none
                  units := Bundle.split (bytes.drop c.framing.unitHeaderSize) }) ∧
            (c.Plain (c.inspect p).header →
              c.inspect p =
                { header := (c.inspect p).header
                  fragmentHeader? := none
                  fragmentData? := none
                  units := .ok [] })) ∧
      ∀ p, c.InWidth (c.inspect p).header → c.decode (c.encode p) = .ok p := by
  refine ⟨fun bytes => ⟨exists_decode_iff, ?_⟩, fun p => decode_encode_of_inWidth⟩
  intro p h
  obtain rfl := encode_of_decode h
  refine ⟨rfl, (c.length_encode p).symm, seesFragment, ?_, inspect_plain⟩
  rw [drop_encode]
  exact inspect_aggregation

/-- A fragment of which nothing but the header came, one with its reserved bit set, and an
aggregate. -/
theorem views_agree_received :
    (∃ p, avc.decode [0x7c] = .ok p ∧ avc.SeesFragment [0x7c] (avc.inspect p)) ∧
      (∃ p, avc.decode [0x7c, 0xa5, 7] = .ok p ∧ avc.SeesFragment [0x7c, 0xa5, 7] (avc.inspect p)) ∧
      (∃ p, hevc.decode [0x60, 1, 0, 1, 9] = .ok p ∧ (hevc.inspect p).units = .ok [[9]]) ∧
      (∃ p, hevc.decode [0x02, 1, 9] = .ok p ∧ (hevc.inspect p).units = .ok []) ∧
      avc.decode (avc.encode ({ header := { refIdc := 3, unitType := 31 }, body := [9] } :
        Avc.Payload)) = .ok ({ header := { refIdc := 3, unitType := 31 }, body := [9] } :
          Avc.Payload) := by
  have hcut := ((views_agree avc).1 [0x7c]).2 _ rfl
  have hwhole := ((views_agree avc).1 [0x7c, 0xa5, 7]).2 _ rfl
  have haggregate := ((views_agree hevc).1 [0x60, 1, 0, 1, 9]).2 _ rfl
  have hplain := ((views_agree hevc).1 [0x02, 1, 9]).2 _ rfl
  have hframable : Bundle.Framable [[9]] := Bundle.Framable.nil.cons (by decide)
  have hsplit : Bundle.split [0, 1, 9] = .ok [[9]] := Bundle.split_join hframable
  have hunits := congrArg PayloadView.units (haggregate.2.2.2.1 rfl)
  have hnone := congrArg PayloadView.units (hplain.2.2.2.2 rfl)
  exact ⟨⟨_, rfl, hcut.2.2.1 rfl⟩, ⟨_, rfl, hwhole.2.2.1 rfl⟩, ⟨_, rfl, hunits.trans hsplit⟩,
    ⟨_, rfl, hnone⟩, (views_agree avc).2 _ ⟨by decide, by decide⟩⟩

end Codec

end NalTransport
