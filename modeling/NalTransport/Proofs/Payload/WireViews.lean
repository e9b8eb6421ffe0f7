import NalTransport.Proofs.Payload.Inspection

/-! A payload before it was sent and after. The wire keeps the lower bits of the type,
and a reader that looks at those bits alone cannot tell the two apart. -/

namespace NalTransport

theorem Bundle.split_eq_ok_nil_iff {body : Bytes} : split body = .ok [] ↔ body = [] := by
  rw [split_eq_ok_iff]
  constructor
  · rintro ⟨-, rfl⟩
    rfl
  · rintro rfl
    exact ⟨Framable.nil, rfl⟩

namespace Hevc

theorem PayloadType.layout_and_mask (t : UInt8) : layout (t &&& mask) = layout t := by
  rw [layout, layout, UInt8.and_assoc, UInt8.and_self]

theorem Payload.layout_wireForm (p : Payload) : p.wireForm.layout = p.layout :=
  PayloadType.layout_and_mask p.header.unitType

theorem Payload.views_wireForm (p : Payload) :
    p.wireForm.fragmentHeader? = p.fragmentHeader? ∧
      p.wireForm.fragmentData? = p.fragmentData? ∧ p.wireForm.units = p.units := by
  have hlayout := p.layout_wireForm
  have hbody : p.wireForm.body = p.body := rfl
  rw [fragmentHeader?, fragmentHeader?, fragmentData?, fragmentData?, units, units, hlayout, hbody]
  exact ⟨rfl, rfl, rfl⟩

end Hevc

namespace Avc

theorem PayloadType.layout_and_typeMask (t : UInt8) :
    layout (t &&& Header.typeMask) = layout t := by
  rw [layout, layout, UInt8.and_assoc, UInt8.and_self]

theorem Payload.fragmentHeader?_wireForm (p : Payload) :
    p.wireForm.fragmentHeader? = p.fragmentHeader? := by
  have hlayout : PayloadType.layout p.wireForm.header.unitType = _ :=
    PayloadType.layout_and_typeMask p.header.unitType
  rw [fragmentHeader?, fragmentHeader?, hlayout]
  rfl

theorem if_and_typeMask_eq_iff {α : Type} {t wanted : UInt8} {found missed : α}
    (hw : wanted &&& Header.typeMask = wanted) :
    (if t &&& Header.typeMask = wanted then found else missed) =
        (if t = wanted then found else missed) ↔
      (t &&& Header.typeMask = wanted → t = wanted ∨ found = missed) := by
  by_cases ht : t = wanted
  · simp [ht, hw]
  · by_cases hm : t &&& Header.typeMask = wanted <;> simp [ht, hm]

theorem Payload.fragmentData?_wireForm_iff (p : Payload) :
    p.wireForm.fragmentData? = p.fragmentData? ↔
      (p.header.unitType &&& Header.typeMask = PayloadType.fuA →
        p.header.unitType = PayloadType.fuA ∨ p.body = []) := by
  have hnone : p.body.tail? = none ↔ p.body = [] := by cases p.body <;> simp
  rw [← hnone]
  exact if_and_typeMask_eq_iff (by decide)

theorem Payload.units_wireForm_iff (p : Payload) :
    p.wireForm.units = p.units ↔
      (p.header.unitType &&& Header.typeMask = PayloadType.stapA →
        p.header.unitType = PayloadType.stapA ∨ p.body = []) := by
  rw [← Bundle.split_eq_ok_nil_iff]
  exact if_and_typeMask_eq_iff (by decide)

end Avc

namespace Codec

def layout : (c : Codec) → c.Header → Layout
  | avc, (header : Avc.Header) => Avc.PayloadType.layout header.unitType
  | hevc, (header : Hevc.Header) => Hevc.PayloadType.layout header.unitType

/-- The readers for type `t` see in a payload what they will see after the wire. Those of H.264
compare the type as it is, so that a bit the wire does not keep hides the body from them. -/
def Recognizes : (c : Codec) → c.Payload → UInt8 → Prop
  | avc, (p : Avc.Payload), t =>
    p.header.unitType &&& Avc.Header.typeMask = t → p.header.unitType = t ∨ p.body = []
  | hevc, _, _ => True

/-- What a payload looks like after the wire, against what it looked like before. -/
theorem wire_views (c : Codec) (p : c.Payload) :
    ∃ q, c.decode (c.encode p) = .ok q ∧
      c.layout (c.inspect q).header = c.layout (c.inspect p).header ∧
      (c.inspect q).fragmentHeader? = (c.inspect p).fragmentHeader? ∧
      ((c.inspect q).fragmentData? = (c.inspect p).fragmentData? ↔
        c.Recognizes p c.fragmentType) ∧
      ((c.inspect q).units = (c.inspect p).units ↔ c.Recognizes p c.aggregationType) := by
  cases c with
  | avc =>
    exact ⟨_, Avc.Payload.decode_encode_eq p, Avc.PayloadType.layout_and_typeMask _,
      Avc.Payload.fragmentHeader?_wireForm p, Avc.Payload.fragmentData?_wireForm_iff p,
      Avc.Payload.units_wireForm_iff p⟩
  | hevc =>
    obtain ⟨hheader, hdata, hunits⟩ := Hevc.Payload.views_wireForm p
    exact ⟨_, Hevc.Payload.decode_encode_eq p, Hevc.PayloadType.layout_and_mask _, hheader,
      iff_of_true hdata trivial, iff_of_true hunits trivial⟩

/-- The type is the one of fragments with a sixth bit. -/
theorem wire_views_differ :
    let p : Avc.Payload := { header := { refIdc := 3, unitType := 60 }, body := [0x85, 1] }
    ∃ q, Avc.Payload.decode p.encode = .ok q ∧ q.fragmentHeader? = p.fragmentHeader? ∧
      q.fragmentData? = some [1] ∧ p.fragmentData? = none :=
  ⟨_, rfl, by decide, by decide, by decide⟩

end Codec

end NalTransport
