import NalTransport.Hevc.Framing
import NalTransport.Proofs.Hevc.Header
import NalTransport.Proofs.Payload.Bundle
import NalTransport.Proofs.Payload.ReadBack

/-! What the reader of H.265 payloads finds in those that the framing lays out. -/

namespace NalTransport.Hevc

def Header.Plain (h : Header) : Prop := PayloadType.layout h.unitType = .singleUnit

def Payload.view (p : Payload) : PayloadView Header where
  header := p.header
  fragmentHeader? := p.fragmentHeader?
  fragmentData? := p.fragmentData?
  units := p.units

/-- The header describes a group of units that have these headers. -/
structure Header.Summarizes (h : Header) (headers : List Header) : Prop where
  unitType : h.unitType = PayloadType.aggregation
  forbidden : h.forbidden = true ↔ ∃ header ∈ headers, header.forbidden = true
  layerId_mem : ∃ header ∈ headers, header.layerId = h.layerId
  layerId_le : ∀ header ∈ headers, h.layerId ≤ header.layerId
  temporalId_mem : ∃ header ∈ headers, header.temporalId = h.temporalId
  temporalId_le : ∀ header ∈ headers, h.temporalId ≤ header.temporalId

theorem eq_of_least {f : Header → UInt8} {headers others : List Header} {least least' : UInt8}
    (hmem : ∃ header ∈ headers, f header = least) (hle : ∀ header ∈ headers, least ≤ f header)
    (hmem' : ∃ header ∈ others, f header = least') (hle' : ∀ header ∈ others, least' ≤ f header)
    (hm : ∀ header, header ∈ headers ↔ header ∈ others) : least = least' := by
  obtain ⟨low, hlow, rfl⟩ := hmem
  obtain ⟨low', hlow', rfl⟩ := hmem'
  exact UInt8.le_antisymm (hle low' ((hm low').mpr hlow')) (hle' low ((hm low).mp hlow))

theorem Header.Summarizes.eq {h h' : Header} {headers others : List Header}
    (hs : h.Summarizes headers) (hs' : h'.Summarizes others)
    (hm : ∀ header, header ∈ headers ↔ header ∈ others) : h = h' := by
  have hforbidden : h.forbidden = true ↔ h'.forbidden = true := by
    simp only [hs.forbidden, hs'.forbidden, hm]
  have hlayer := eq_of_least hs.layerId_mem hs.layerId_le hs'.layerId_mem hs'.layerId_le hm
  have htemporal :=
    eq_of_least hs.temporalId_mem hs.temporalId_le hs'.temporalId_mem hs'.temporalId_le hm
  cases h
  cases h'
  rw [Header.mk.injEq]
  exact ⟨Bool.eq_iff_iff.mpr hforbidden, hs.unitType.trans hs'.unitType.symm, hlayer, htemporal⟩

theorem Header.Summarizes.wireForm_eq {h : Header} {headers : List Header}
    (hs : h.Summarizes headers) (hw : ∀ header ∈ headers, header.wireForm = header) :
    h.wireForm = h := by
  obtain ⟨low, hlow, hlayer⟩ := hs.layerId_mem
  obtain ⟨base, hbase, htemporal⟩ := hs.temporalId_mem
  have hlayerBits : low.layerId &&& 0x3f = low.layerId := congrArg Header.layerId (hw low hlow)
  have htemporalBits : base.temporalId &&& Header.temporalMask = base.temporalId :=
    congrArg Header.temporalId (hw base hbase)
  have htype : PayloadType.aggregation &&& PayloadType.mask = PayloadType.aggregation := by decide
  rw [Header.wireForm, ← hlayer, hlayerBits, ← htemporal, htemporalBits, hs.unitType, htype, hlayer,
    htemporal, ← hs.unitType]

theorem least_min?_getD {f : Header → UInt8} {headers : List Header} (hne : headers ≠ [])
    (default : UInt8) :
    (∃ header ∈ headers, f header = (headers.map f).min?.getD default) ∧
      ∀ header ∈ headers, (headers.map f).min?.getD default ≤ f header := by
  have hne' : headers.map f ≠ [] := List.map_eq_nil_iff.not.mpr hne
  obtain ⟨least, hmin⟩ := Option.isSome_iff_exists.mp (List.isSome_min?_iff.mpr hne')
  obtain ⟨hmem, hle⟩ := List.min?_eq_some_iff.mp hmin
  rw [hmin, Option.getD_some]
  exact ⟨List.mem_map.mp hmem, fun header h => hle _ (List.mem_map_of_mem h)⟩

theorem summarizes_aggregationHeader {headers : List Header} (hne : headers ≠ []) :
    (aggregationHeader headers).Summarizes headers := by
  obtain ⟨hlayer, hlayerLe⟩ := least_min?_getD (f := Header.layerId) hne 0
  obtain ⟨htemporal, htemporalLe⟩ := least_min?_getD (f := Header.temporalId) hne 1
  exact ⟨rfl, List.any_eq_true, hlayer, hlayerLe, htemporal, htemporalLe⟩

theorem Payload.decode_cons_cons (b0 b1 : UInt8) (body : Bytes) :
    Payload.decode (b0 :: b1 :: body) = .ok { header := .ofBytes b0 b1, body } := rfl

theorem Header.exists_cons_cons_of_decode {data : Bytes} {header : Header}
    (h : Header.decode data = .ok header) :
    ∃ b0 b1 body, data = b0 :: b1 :: body ∧ header = .ofBytes b0 b1 := by
  rcases data with _ | ⟨b0, _ | ⟨b1, body⟩⟩
  · simp [Header.decode, firstBytes, Except.map] at h
  · simp [Header.decode, firstBytes, Except.map] at h
  · exact ⟨b0, b1, body, rfl, (Except.ok.inj h).symm⟩

theorem Header.exists_toBytes_eq (h : Header) : ∃ b0 b1, h.toBytes = [b0, b1] := ⟨_, _, rfl⟩

theorem Payload.encode_of_decode {bytes : Bytes} {p : Payload} (h : decode bytes = .ok p) :
    p.encode = bytes := by
  rcases bytes with _ | ⟨b0, _ | ⟨b1, body⟩⟩
  · simp [decode, Header.decode, Header.firstBytes, Except.map] at h
  · simp [decode, Header.decode, Header.firstBytes, Except.map] at h
  · obtain rfl := Except.ok.inj ((decode_cons_cons b0 b1 body).symm.trans h)
    rw [encode, Header.toBytes_ofBytes, List.cons_append, List.singleton_append]

/-- Fields that do not fit lose their upper bits, and nothing else is lost. -/
def Payload.wireForm (p : Payload) : Payload := { p with header := p.header.wireForm }

theorem Payload.wireForm_eq {p : Payload} (hw : p.header.InWidth) : p.wireForm = p := by
  rw [wireForm, hw.wireForm_eq]

theorem Payload.decode_encode_eq (p : Payload) : decode p.encode = .ok p.wireForm := by
  obtain ⟨b0, b1, hb⟩ := p.header.exists_toBytes_eq
  rw [encode, hb, List.cons_append, List.singleton_append, decode_cons_cons,
    Header.ofBytes_toBytes _ hb, wireForm]

theorem Payload.view_of_aggregation {p : Payload} (hl : p.layout = .aggregation) :
    p.view =
      { header := p.header
        fragmentHeader? := none
        fragmentData? := none
        units := Bundle.split p.body } := by
  simp [view, fragmentHeader?, fragmentData?, units, hl]

theorem Payload.view_of_fragmentation {p : Payload} (hl : p.layout = .fragmentation) :
    p.view =
      { header := p.header
        fragmentHeader? := (FragmentHeader.decode PayloadType.mask p.body).toOption
        fragmentData? := p.body.tail?
        units := .ok [] } := by
  simp [view, fragmentHeader?, fragmentData?, units, hl]

theorem Payload.view_of_plain {p : Payload} (hp : p.header.Plain) :
    p.view =
      { header := p.header, fragmentHeader? := none, fragmentData? := none, units := .ok [] } := by
  have hl : p.layout = .singleUnit := hp
  simp [view, fragmentHeader?, fragmentData?, units, hl]

theorem carried?_unit {data : Bytes} {header : Header} (h : Header.decode data = .ok header)
    (hp : header.Plain) : Payload.carried? data = some (.whole [data]) := by
  obtain ⟨b0, b1, body, rfl, rfl⟩ := Header.exists_cons_cons_of_decode h
  rw [Header.Plain] at hp
  simp [Payload.carried?, Payload.decode_cons_cons, Except.toOption, Payload.layout, hp]

theorem layout_wireForm_aggregationHeader (headers : List Header) :
    PayloadType.layout (aggregationHeader headers).wireForm.unitType = .aggregation :=
  (by decide : PayloadType.layout (PayloadType.aggregation &&& PayloadType.mask) = .aggregation)

/-- An aggregate has nothing of a fragment. -/
theorem Payload.decode_aggregate (headers : List Header) {units : List Bytes}
    (h : Bundle.Framable units) :
    ∃ p, Payload.decode ((aggregationHeader headers).toBytes ++ Bundle.join units) = .ok p ∧
      p.view =
        { header := (aggregationHeader headers).wireForm
          fragmentHeader? := none
          fragmentData? := none
          units := .ok units } := by
  obtain ⟨b0, b1, hb⟩ := Header.exists_toBytes_eq (aggregationHeader headers)
  rw [hb, List.cons_append, List.singleton_append, Payload.decode_cons_cons,
    Header.ofBytes_toBytes _ hb]
  refine ⟨_, rfl, ?_⟩
  rw [← Bundle.split_join h]
  exact Payload.view_of_aggregation (layout_wireForm_aggregationHeader headers)

theorem carried?_aggregate (headers : List Header) {units : List Bytes}
    (h : ∀ unit ∈ units, unit.length ≤ maxUnitSize) :
    Payload.carried? ((aggregationHeader headers).toBytes ++ Bundle.join units) =
      some (.whole units) := by
  obtain ⟨p, hp, hview⟩ := Payload.decode_aggregate headers h
  rw [Payload.view, PayloadView.mk.injEq] at hview
  obtain ⟨hheader, -, -, hunits⟩ := hview
  have hlayout : p.layout = .aggregation := by
    rw [Payload.layout, hheader, layout_wireForm_aggregationHeader]
  simp [Payload.carried?, hp, Except.toOption, hlayout, hunits]

theorem Header.wireForm_of_decode {data : Bytes} {header : Header}
    (h : Header.decode data = .ok header) : header.wireForm = header := by
  obtain ⟨b0, b1, body, rfl, rfl⟩ := Header.exists_cons_cons_of_decode h
  exact Header.wireForm_ofBytes b0 b1

theorem Header.ofBytes_retyped {data : Bytes} {header : Header}
    (h : Header.decode data = .ok header) {t : UInt8} (ht : t &&& PayloadType.mask = t)
    {b0 b1 : UInt8} (hb : ({ header with unitType := t } : Header).toBytes = [b0, b1]) :
    Header.ofBytes b0 b1 = { header with unitType := t } := by
  rw [Header.ofBytes_toBytes _ hb]
  exact Header.wireForm_retyped (Header.wireForm_of_decode h) ht

theorem Header.unitType_of_decode {data : Bytes} {header : Header}
    (h : Header.decode data = .ok header) :
    header.unitType &&& PayloadType.mask = header.unitType :=
  congrArg Header.unitType (Header.wireForm_of_decode h)

/-- A fragment keeps all of the unit's header in its own two. -/
theorem Payload.decode_fragment {data : Bytes} {header : Header} (first last : Bool) (part : Bytes)
    (h : Header.decode data = .ok header) :
    ∃ p, Payload.decode (fragmentHeader header first last ++ part) = .ok p ∧
      p.view =
        { header := { header with unitType := PayloadType.fragmentation }
          fragmentHeader? := some { first, last, unitType := header.unitType }
          fragmentData? := some part
          units := .ok [] } := by
  obtain ⟨b0, b1, hb⟩ := Header.exists_toBytes_eq
    { header with unitType := PayloadType.fragmentation }
  have hheader := Header.ofBytes_retyped h (by decide) hb
  have hfragment : FragmentHeader.ofByte PayloadType.mask
      (FragmentHeader.toByte PayloadType.mask { first, last, unitType := header.unitType }) =
      { first, last, unitType := header.unitType } := by
    rw [FragmentHeader.ofByte_toByte (by decide) (by decide), Header.unitType_of_decode h]
  have hlayout : PayloadType.layout PayloadType.fragmentation = .fragmentation := by decide
  simp only [fragmentHeader, hb, List.cons_append, List.nil_append, Payload.decode_cons_cons,
    hheader]
  refine ⟨_, rfl, ?_⟩
  refine Eq.trans (Payload.view_of_fragmentation hlayout) ?_
  simp [FragmentHeader.decode, hfragment, Except.toOption]

theorem carried?_fragment {data : Bytes} {header : Header} (first last : Bool) (part : Bytes)
    (h : Header.decode data = .ok header) :
    Payload.carried? (fragmentHeader header first last ++ part) =
      some (.fragment first last (data.take Header.size) part) := by
  obtain ⟨p, hp, hview⟩ := Payload.decode_fragment first last part h
  rw [Payload.view, PayloadView.mk.injEq] at hview
  obtain ⟨hheader, hfragment, hdata, -⟩ := hview
  obtain ⟨b0, b1, body, rfl, rfl⟩ := Header.exists_cons_cons_of_decode h
  have hlayout : PayloadType.layout PayloadType.fragmentation = .fragmentation := by decide
  simp [Payload.carried?, hp, Except.toOption, Payload.layout, hheader, hlayout, hfragment, hdata,
    Payload.unitHeader, Header.size]
  exact Header.toBytes_ofBytes b0 b1

theorem framing_readBack : framing.ReadBack Payload.carried? Header.Plain where
  unit := carried?_unit
  aggregate := carried?_aggregate
  fragment := carried?_fragment

end NalTransport.Hevc
