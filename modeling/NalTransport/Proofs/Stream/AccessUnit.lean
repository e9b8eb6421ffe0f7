import NalTransport.Proofs.Stream.Delivery

/-! What a payloader makes of an access unit depends on the units alone that the
bytes hold. The start codes between them are of no account, and units that are
left out might as well not have been there. -/

namespace NalTransport

namespace AnnexB

/-- Start codes of two zeros or more stand in front of the units, and in front of all bytes
without one. The empty string holds no units. -/
def Encodes (data : Bytes) (units : List Bytes) : Prop :=
  if units = [] then data = []
  else ∃ front coded, data = front ++ stream coded ∧ ¬ HasCode front ∧
    (∀ unit ∈ coded, 2 ≤ unit.1) ∧ coded.map (·.2) = units

theorem Encodes.units_eq {data : Bytes} {units : List Bytes} (h : Encodes data units)
    (hne : units ≠ []) (hs : Separable units) : AnnexB.units data = units := by
  rw [Encodes, if_neg hne] at h
  obtain ⟨front, coded, rfl, hf, hz, rfl⟩ := h
  have hcoded : coded ≠ [] := fun he => hne (by rw [he, List.map_nil])
  exact units_append_stream hf hcoded hs hz

theorem Separable.filter {units : List Bytes} (h : Separable units) (keep : Bytes → Bool) :
    Separable (units.filter keep) := by
  induction units with
  | nil => exact h
  | cons unit units ih =>
    obtain ⟨hunit, hend, hs⟩ := separable_cons_iff.mp h
    by_cases hk : keep unit = true
    · rw [List.filter_cons_of_pos hk]
      refine separable_cons_iff.mpr ⟨hunit, fun hne => hend fun he => hne ?_, ih hs⟩
      rw [he, List.filter_nil]
    · rw [List.filter_cons_of_neg hk]
      exact ih hs

end AnnexB

namespace Codec

theorem payloads_ofFraming {c : Codec} {data : Bytes} {units : List Bytes}
    (hu : AnnexB.units data = units) (singly dropFiller : Bool) (mtu : Nat) :
    (Payloader.ofFraming c.framing singly dropFiller).payloads () mtu data =
      (Packing.payloads { framing := c.framing, mtu, singly }
        (units.filter fun unit => !(dropFiller && c.isDelimiterOrFiller unit)), ()) := by
  simp only [Payloader.ofFraming, Packing.accessUnitPayloads, isDelimiterOrFiller_eq, hu]

theorem payloads_of_encodes {c : Codec} {units : List Bytes} (hs : AnnexB.Separable units)
    {kept : Bytes} (hk : AnnexB.Encodes kept units) (singly : Bool) (mtu : Nat) :
    (Payloader.ofFraming c.framing singly false).payloads () mtu kept =
      (Packing.payloads { framing := c.framing, mtu, singly } units, ()) := by
  by_cases hne : units = []
  · rw [AnnexB.Encodes, if_pos hne] at hk
    have hempty : AnnexB.units [] = [[]] := AnnexB.units_of_not_hasCode (by decide)
    rw [hk, payloads_ofFraming hempty, hne]
    rfl
  · rw [payloads_ofFraming (hk.units_eq hne hs)]
    simp

/-- Neither the start codes nor what stands in front of the first matter to a payloader, and to
leave out delimiters and filler is to be given the other units alone. -/
theorem payloads_encodes {units : List Bytes} (hne : units ≠ []) (hs : AnnexB.Separable units) :
    (∀ data, AnnexB.Encodes data units → AnnexB.units data = units) ∧
      ∀ (c : Codec) (singly : Bool) (mtu : Nat),
        (∀ (dropFiller : Bool) (data other : Bytes),
          AnnexB.Encodes data units → AnnexB.Encodes other units →
            (Payloader.ofFraming c.framing singly dropFiller).payloads () mtu data =
              (Payloader.ofFraming c.framing singly dropFiller).payloads () mtu other) ∧
        ∀ data kept : Bytes, AnnexB.Encodes data units →
          AnnexB.Encodes kept (units.filter fun unit => !c.isDelimiterOrFiller unit) →
            (Payloader.ofFraming c.framing singly true).payloads () mtu data =
              (Payloader.ofFraming c.framing singly false).payloads () mtu kept := by
  refine ⟨fun data h => h.units_eq hne hs, fun c singly mtu => ⟨?_, ?_⟩⟩
  · intro dropFiller data other hdata hother
    rw [payloads_ofFraming (hdata.units_eq hne hs), payloads_ofFraming (hother.units_eq hne hs)]
  · intro data kept hdata hkept
    rw [payloads_ofFraming (hdata.units_eq hne hs),
      payloads_of_encodes (hs.filter _) hkept]
    rfl

/-- Zeros in front of a start code and behind the last unit, and an empty unit that stays. -/
theorem payloads_encodes_avc :
    let units : List Bytes := [[9, 240], [103, 0, 0, 7], [], [12, 0]]
    let coded : List (Nat × Bytes) := [(2, [9, 240]), (3, [103, 0, 0, 7]), (2, []), (4, [12, 0])]
    let recoded : List (Nat × Bytes) := [(3, [9, 240]), (2, [103, 0, 0, 7]), (5, []), (2, [12, 0])]
    let data := [1, 0, 0] ++ AnnexB.stream coded
    let other := AnnexB.stream recoded
    let kept := [7] ++ AnnexB.stream [(2, [103, 0, 0, 7]), (6, [])]
    AnnexB.Encodes data units ∧ AnnexB.units data = units ∧
      (Payloader.avc false true).payloads () 3 data =
        ([[124, 135, 0], [124, 7, 0], [124, 71, 7]], ()) ∧
      (Payloader.avc false false).payloads () 100 data =
        ([[120, 0, 2, 9, 240, 0, 4, 103, 0, 0, 7, 0, 2, 12, 0]], ()) ∧
      ∀ mtu,
        (Payloader.avc false true).payloads () mtu data =
            (Payloader.avc false true).payloads () mtu other ∧
          (Payloader.avc false true).payloads () mtu data =
            (Payloader.avc false false).payloads () mtu kept := by
  intro units coded recoded data other kept
  have hs : AnnexB.Separable units := ⟨by decide, by decide⟩
  have hdata : AnnexB.Encodes data units := ⟨[1, 0, 0], coded, rfl, by decide, by decide, rfl⟩
  have hother : AnnexB.Encodes other units := ⟨[], recoded, rfl, by decide, by decide, rfl⟩
  have hkept : AnnexB.Encodes kept [[103, 0, 0, 7], []] :=
    ⟨[7], [(2, [103, 0, 0, 7]), (6, [])], rfl, by decide, by decide, rfl⟩
  have hfragments : (Payloader.avc false true).payloads () 3 data =
      ([[124, 135, 0], [124, 7, 0], [124, 71, 7]], ()) := by cbv
  have haggregate : (Payloader.avc false false).payloads () 100 data =
      ([[120, 0, 2, 9, 240, 0, 4, 103, 0, 0, 7, 0, 2, 12, 0]], ()) := by cbv
  have h := payloads_encodes (by decide : units ≠ []) hs
  exact ⟨hdata, h.1 data hdata, hfragments, haggregate,
    fun mtu => ⟨(h.2 .avc false mtu).1 true data other hdata hother,
      (h.2 .avc false mtu).2 data kept hdata hkept⟩⟩

end Codec

end NalTransport
