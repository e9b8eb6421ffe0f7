import NalTransport.Avc.Framing
import NalTransport.Proofs.Avc.Header
import NalTransport.Proofs.Payload.Bundle
import NalTransport.Proofs.Payload.ReadBack

/-! What the reader of H.264 payloads finds in those that the framing lays out. -/

namespace NalTransport.Avc

def Header.Plain (h : Header) : Prop := PayloadType.layout h.unitType = .singleUnit

def Payload.view (p : Payload) : PayloadView Header where
  header := p.header
  fragmentHeader? := p.fragmentHeader?
  fragmentData? := p.fragmentData?
  units := p.units

/-- The header describes a group of units that have these headers. -/
structure Header.Summarizes (h : Header) (headers : List Header) : Prop where
  unitType : h.unitType = PayloadType.stapA
  forbidden : h.forbidden = true ↔ ∃ header ∈ headers, header.forbidden = true
  refIdc_mem : ∃ header ∈ headers, header.refIdc = h.refIdc
  le_refIdc : ∀ header ∈ headers, header.refIdc ≤ h.refIdc

/-- Only one header describes a group, in whatever order its units come. -/
theorem Header.Summarizes.eq {h h' : Header} {headers others : List Header}
    (hs : h.Summarizes headers) (hs' : h'.Summarizes others)
    (hm : ∀ header, header ∈ headers ↔ header ∈ others) : h = h' := by
  have hforbidden : h.forbidden = true ↔ h'.forbidden = true := by
    simp only [hs.forbidden, hs'.forbidden, hm]
  have hrefIdc : h.refIdc = h'.refIdc := by
    obtain ⟨most, hmost, heq⟩ := hs.refIdc_mem
    obtain ⟨most', hmost', heq'⟩ := hs'.refIdc_mem
    apply UInt8.le_antisymm
    · exact heq ▸ hs'.le_refIdc most ((hm most).mp hmost)
    · exact heq' ▸ hs.le_refIdc most' ((hm most').mpr hmost')
  cases h
  cases h'
  rw [Header.mk.injEq]
  exact ⟨Bool.eq_iff_iff.mpr hforbidden, hrefIdc, hs.unitType.trans hs'.unitType.symm⟩

theorem Header.Summarizes.wireForm_eq {h : Header} {headers : List Header}
    (hs : h.Summarizes headers) (hw : ∀ header ∈ headers, header.wireForm = header) :
    h.wireForm = h := by
  obtain ⟨most, hmost, hrefIdc⟩ := hs.refIdc_mem
  have hbits : most.refIdc &&& 3 = most.refIdc := congrArg Header.refIdc (hw most hmost)
  have htype : PayloadType.stapA &&& Header.typeMask = PayloadType.stapA := by decide
  rw [Header.wireForm, ← hrefIdc, hbits, hs.unitType, htype, hrefIdc, ← hs.unitType]

-- The library has the like for the minimum of bytes, and here the maximum is taken.
instance instLawfulOrderLeftLeaningMaxUInt8 : Std.LawfulOrderLeftLeaningMax UInt8 where
  max_eq_left a b h := by
    by_cases hab : a ≤ b
    · exact (if_pos hab).trans (UInt8.le_antisymm h hab)
    · exact if_neg hab
  max_eq_right a b h := if_pos ((UInt8.le_total a b).resolve_right h)

theorem summarizes_aggregationHeader {headers : List Header} (hne : headers ≠ []) :
    (aggregationHeader headers).Summarizes headers := by
  have hne' : headers.map (·.refIdc) ≠ [] := List.map_eq_nil_iff.not.mpr hne
  obtain ⟨refIdc, hmax⟩ := Option.isSome_iff_exists.mp (List.isSome_max?_iff.mpr hne')
  have hrefIdc : (aggregationHeader headers).refIdc = refIdc := by
    rw [aggregationHeader, hmax]
    rfl
  obtain ⟨hmem, hle⟩ := List.max?_eq_some_iff.mp hmax
  rw [← hrefIdc] at hmem hle
  exact ⟨rfl, List.any_eq_true, List.mem_map.mp hmem,
    fun header h => hle _ (List.mem_map_of_mem h)⟩

theorem Payload.decode_cons (b : UInt8) (body : Bytes) :
    Payload.decode (b :: body) = .ok { header := .ofByte b, body } := rfl

theorem Header.exists_cons_of_decode {data : Bytes} {header : Header}
    (h : Header.decode data = .ok header) : ∃ b body, data = b :: body ∧ header = .ofByte b := by
  cases data with
  | nil => simp [Header.decode, firstByte, Except.map] at h
  | cons b body => exact ⟨b, body, rfl, (Except.ok.inj h).symm⟩

theorem Payload.encode_of_decode {bytes : Bytes} {p : Payload} (h : decode bytes = .ok p) :
    p.encode = bytes := by
  cases bytes with
  | nil => simp [decode, Header.decode, firstByte, Except.map] at h
  | cons b body =>
    obtain rfl := Except.ok.inj ((decode_cons b body).symm.trans h)
    rw [encode, Header.toByte_ofByte]

/-- Fields that do not fit lose their upper bits, and nothing else is lost. -/
def Payload.wireForm (p : Payload) : Payload := { p with header := p.header.wireForm }

theorem Payload.wireForm_eq {p : Payload} (hw : p.header.InWidth) : p.wireForm = p := by
  rw [wireForm, hw.wireForm_eq]

theorem Payload.decode_encode_eq (p : Payload) : decode p.encode = .ok p.wireForm := by
  rw [encode, decode_cons, Header.ofByte_toByte, wireForm]

theorem Payload.view_of_stapA {p : Payload} (ht : p.header.unitType = PayloadType.stapA) :
    p.view =
      { header := p.header
        fragmentHeader? := none
        fragmentData? := none
        units := Bundle.split p.body } := by
  have hlayout : PayloadType.layout PayloadType.stapA = .aggregation := by decide
  have hne : PayloadType.stapA ≠ PayloadType.fuA := by decide
  simp [view, fragmentHeader?, fragmentData?, units, ht, hlayout, hne]

theorem Payload.view_of_fuA {p : Payload} (ht : p.header.unitType = PayloadType.fuA) :
    p.view =
      { header := p.header
        fragmentHeader? := (FragmentHeader.decode Header.typeMask p.body).toOption
        fragmentData? := p.body.tail?
        units := .ok [] } := by
  have hlayout : PayloadType.layout PayloadType.fuA = .fragmentation := by decide
  have hne : PayloadType.fuA ≠ PayloadType.stapA := by decide
  simp [view, fragmentHeader?, fragmentData?, units, ht, hlayout, hne]

theorem Header.Plain.unitType_ne {h : Header} (hp : h.Plain) :
    h.unitType ≠ PayloadType.stapA ∧ h.unitType ≠ PayloadType.fuA := by
  rw [Plain] at hp
  constructor <;> intro he <;> rw [he] at hp <;> exact absurd hp (by decide)

theorem Payload.view_of_plain {p : Payload} (hp : p.header.Plain) :
    p.view =
      { header := p.header, fragmentHeader? := none, fragmentData? := none, units := .ok [] } := by
  obtain ⟨hstap, hfu⟩ := hp.unitType_ne
  rw [Header.Plain] at hp
  simp [view, fragmentHeader?, fragmentData?, units, hp, hstap, hfu]

theorem carried?_unit {data : Bytes} {header : Header} (h : Header.decode data = .ok header)
    (hp : header.Plain) : Payload.carried? data = some (.whole [data]) := by
  obtain ⟨b, body, rfl, rfl⟩ := Header.exists_cons_of_decode h
  obtain ⟨hstap, hfu⟩ := hp.unitType_ne
  rw [Header.Plain] at hp
  simp [Payload.carried?, Payload.decode_cons, Except.toOption, hstap, hfu, hp]

theorem unitType_wireForm_aggregationHeader (headers : List Header) :
    (aggregationHeader headers).wireForm.unitType = PayloadType.stapA :=
  (by decide : PayloadType.stapA &&& Header.typeMask = PayloadType.stapA)

/-- An aggregate has nothing of a fragment. -/
theorem Payload.decode_aggregate (headers : List Header) {units : List Bytes}
    (h : Bundle.Framable units) :
    ∃ p, Payload.decode ([(aggregationHeader headers).toByte] ++ Bundle.join units) = .ok p ∧
      p.view =
        { header := (aggregationHeader headers).wireForm
          fragmentHeader? := none
          fragmentData? := none
          units := .ok units } := by
  rw [List.singleton_append, Payload.decode_cons, Header.ofByte_toByte]
  refine ⟨_, rfl, ?_⟩
  rw [Payload.view_of_stapA (unitType_wireForm_aggregationHeader headers), Bundle.split_join h]

theorem carried?_aggregate (headers : List Header) {units : List Bytes}
    (h : ∀ unit ∈ units, unit.length ≤ maxUnitSize) :
    Payload.carried? ([(aggregationHeader headers).toByte] ++ Bundle.join units) =
      some (.whole units) := by
  obtain ⟨p, hp, hview⟩ := Payload.decode_aggregate headers h
  rw [Payload.view, PayloadView.mk.injEq] at hview
  obtain ⟨hheader, -, -, hunits⟩ := hview
  have htype : p.header.unitType = PayloadType.stapA := by
    rw [hheader, unitType_wireForm_aggregationHeader]
  rw [Payload.carried?, hp]
  simp [Except.toOption, htype, hunits]

theorem Header.wireForm_of_decode {data : Bytes} {header : Header}
    (h : Header.decode data = .ok header) : header.wireForm = header := by
  obtain ⟨b, body, rfl, rfl⟩ := Header.exists_cons_of_decode h
  exact Header.wireForm_ofByte b

theorem Header.ofByte_retyped {data : Bytes} {header : Header} (h : Header.decode data = .ok header)
    {t : UInt8} (ht : t &&& typeMask = t) :
    Header.ofByte ({ header with unitType := t } : Header).toByte = { header with unitType := t } := by
  rw [Header.ofByte_toByte]
  exact Header.wireForm_retyped (Header.wireForm_of_decode h) ht

theorem Header.unitType_of_decode {data : Bytes} {header : Header}
    (h : Header.decode data = .ok header) : header.unitType &&& typeMask = header.unitType :=
  congrArg Header.unitType (Header.wireForm_of_decode h)

/-- A fragment keeps all of the unit's header in its own two. -/
theorem Payload.decode_fragment {data : Bytes} {header : Header} (first last : Bool) (part : Bytes)
    (h : Header.decode data = .ok header) :
    ∃ p, Payload.decode (fragmentHeader header first last ++ part) = .ok p ∧
      p.view =
        { header := { header with unitType := PayloadType.fuA }
          fragmentHeader? := some { first, last, unitType := header.unitType }
          fragmentData? := some part
          units := .ok [] } := by
  have hheader := Header.ofByte_retyped h (t := PayloadType.fuA) (by decide)
  have hfragment : FragmentHeader.ofByte Header.typeMask
      (FragmentHeader.toByte Header.typeMask { first, last, unitType := header.unitType }) =
      { first, last, unitType := header.unitType } := by
    rw [FragmentHeader.ofByte_toByte (by decide) (by decide), Header.unitType_of_decode h]
  rw [fragmentHeader, List.cons_append, Payload.decode_cons, hheader]
  refine ⟨_, rfl, ?_⟩
  rw [Payload.view_of_fuA rfl]
  simp [FragmentHeader.decode, hfragment, Except.toOption]

/-- The bit of a fragment header that neither the flags nor the type use. -/
def Payload.reservedMask : UInt8 := 0x20

theorem Payload.reserved_of_fragmentHeader (header : Header) (first last : Bool) (part : Bytes) :
    ∀ b ∈ (fragmentHeader header first last ++ part)[1]?, b &&& reservedMask = 0 := by
  intro b hb
  obtain rfl : FragmentHeader.toByte Header.typeMask
      { first, last, unitType := header.unitType } = b := by
    simpa [fragmentHeader] using hb
  exact FragmentHeader.toByte_and_eq_zero (by decide) (by decide) (by decide) _

theorem carried?_fragment {data : Bytes} {header : Header} (first last : Bool) (part : Bytes)
    (h : Header.decode data = .ok header) :
    Payload.carried? (fragmentHeader header first last ++ part) =
      some (.fragment first last (data.take Header.size) part) := by
  obtain ⟨p, hp, hview⟩ := Payload.decode_fragment first last part h
  rw [Payload.view, PayloadView.mk.injEq] at hview
  obtain ⟨hheader, hfragment, hdata, -⟩ := hview
  obtain ⟨b, body, rfl, rfl⟩ := Header.exists_cons_of_decode h
  have hne : PayloadType.fuA ≠ PayloadType.stapA := by decide
  simp [Payload.carried?, hp, Except.toOption, hheader, hne, hfragment, hdata, Payload.unitHeader,
    Header.size]
  exact Header.toByte_ofByte b

theorem framing_readBack : framing.ReadBack Payload.carried? Header.Plain where
  unit := carried?_unit
  aggregate := carried?_aggregate
  fragment := carried?_fragment

end NalTransport.Avc
