import Mathlib.Algebra.Ring.Nat
import NalTransport.Payload.Bundle

/-! Units that were joined behind their lengths come apart again, and a body that
comes apart was joined from them. Any other body has as many units in front as can be
taken off it, and is refused for the bytes behind them. -/

namespace NalTransport.Bundle

/-- Units whose lengths can be written. -/
def Framable (units : List Bytes) : Prop := ∀ unit ∈ units, unit.length ≤ maxUnitSize

/-- Bytes that no unit can be taken off, and why. -/
inductive CutShort : Bytes → WireError → Prop where
  | length (b : UInt8) : CutShort [b] (.truncated .aggregatedUnit 2 1)
  | unit (hi lo : UInt8) (data : Bytes) : data.length < (Bytes.word16 hi lo).toNat →
    CutShort (hi :: lo :: data)
      (.truncated .aggregatedUnit (Bytes.word16 hi lo).toNat data.length)

theorem Framable.nil : Framable [] := fun _ h => absurd h List.not_mem_nil

theorem Framable.cons {unit : Bytes} {units : List Bytes} (h : Framable units)
    (hunit : unit.length ≤ maxUnitSize) : Framable (unit :: units) :=
  List.forall_mem_cons.mpr ⟨hunit, h⟩

theorem Framable.tail {unit : Bytes} {units : List Bytes} (h : Framable (unit :: units)) :
    Framable units :=
  fun u hu => h u (List.mem_cons_of_mem _ hu)

theorem frame_eq (unit : Bytes) :
    frame unit = UInt8.ofNat ((UInt16.ofNat unit.length).toNat / 256) ::
      UInt8.ofNat (UInt16.ofNat unit.length).toNat :: unit := by
  simp [frame, Bytes.ofWord16]

theorem toNat_length {unit : Bytes} (h : unit.length ≤ maxUnitSize) :
    (UInt16.ofNat unit.length).toNat = unit.length := by
  simp only [maxUnitSize] at h
  simp only [UInt16.toNat_ofNat']
  omega

theorem join_cons (unit : Bytes) (units : List Bytes) :
    join (unit :: units) = frame unit ++ join units :=
  List.flatMap_cons

theorem length_join (units : List Bytes) :
    (join units).length = (units.map fun unit => unitLengthSize + unit.length).sum := by
  induction units with
  | nil => rfl
  | cons unit units ih =>
    simp only [join_cons, List.length_append, List.map_cons, List.sum_cons, ih, frame_eq,
      List.length_cons, unitLengthSize]
    omega

theorem split_frame_append {unit : Bytes} (h : unit.length ≤ maxUnitSize) (rest : Bytes) :
    split (frame unit ++ rest) = (split rest).map (unit :: ·) := by
  rw [frame_eq, List.cons_append, List.cons_append, split_cons_cons, Bytes.word16_ofWord16,
    toNat_length h, if_neg (by simp), List.drop_left, List.take_left]

theorem split_join_append {units : List Bytes} (h : Framable units) (rest : Bytes) :
    split (join units ++ rest) = (split rest).map (units ++ ·) := by
  induction units with
  | nil => cases hr : split rest <;> simp [join, hr, Except.map]
  | cons unit units ih =>
    rw [join_cons, List.append_assoc, split_frame_append (h unit List.mem_cons_self), ih h.tail]
    cases split rest <;> rfl

theorem split_join {units : List Bytes} (h : Framable units) : split (join units) = .ok units := by
  have happend := split_join_append h []
  rwa [List.append_nil, split_nil, Except.map, List.append_nil] at happend

theorem split_of_cutShort {rest : Bytes} {e : WireError} (h : CutShort rest e) :
    split rest = .error e := by
  cases h with
  | length b => simp [split, splitOnto, unitLengthSize]
  | unit hi lo data hlt => rw [split_cons_cons, if_pos hlt]

theorem CutShort.ne_nil {rest : Bytes} {e : WireError} (h : CutShort rest e) : rest ≠ [] := by
  cases h <;> simp

theorem eq_nil_or_cutShort_or_frame (body : Bytes) :
    body = [] ∨ (∃ e, CutShort body e) ∨
      ∃ unit rest, unit.length ≤ maxUnitSize ∧ body = frame unit ++ rest := by
  rcases body with _ | ⟨hi, _ | ⟨lo, data⟩⟩
  · exact .inl rfl
  · exact .inr (.inl ⟨_, .length hi⟩)
  · by_cases hlt : data.length < (Bytes.word16 hi lo).toNat
    · exact .inr (.inl ⟨_, .unit hi lo data hlt⟩)
    · have hsize := (Bytes.word16 hi lo).toNat_lt
      have htake := List.length_take_of_le (Nat.not_lt.mp hlt)
      refine .inr (.inr ⟨data.take (Bytes.word16 hi lo).toNat,
        data.drop (Bytes.word16 hi lo).toNat, ?_, ?_⟩)
      · rw [htake, maxUnitSize]
        omega
      · rw [frame, htake, UInt16.ofNat_toNat, Bytes.ofWord16_word16, List.append_assoc,
          List.take_append_drop]
        rfl

theorem exists_join_append (body : Bytes) :
    ∃ units rest,
      Framable units ∧ body = join units ++ rest ∧ (rest = [] ∨ ∃ e, CutShort rest e) := by
  induction h : body.length using Nat.strongRecOn generalizing body with
  | ind n ih =>
    rcases eq_nil_or_cutShort_or_frame body with rfl | hcut | ⟨unit, more, hunit, rfl⟩
    · exact ⟨[], [], .nil, rfl, .inl rfl⟩
    · exact ⟨[], body, .nil, rfl, .inr hcut⟩
    · have hlt : more.length < n := by
        simp only [frame_eq, List.length_append, List.length_cons] at h
        omega
      obtain ⟨units, rest, hunits, rfl, hrest⟩ := ih _ hlt more rfl
      exact ⟨unit :: units, rest, hunits.cons hunit, by rw [join_cons, List.append_assoc], hrest⟩

theorem split_eq_ok_iff {body : Bytes} {units : List Bytes} :
    split body = .ok units ↔ Framable units ∧ join units = body := by
  constructor
  · intro h
    obtain ⟨front, rest, hfront, rfl, rfl | ⟨e, hcut⟩⟩ := exists_join_append body
    · rw [List.append_nil, split_join hfront] at h
      obtain rfl := Except.ok.inj h
      exact ⟨hfront, (List.append_nil _).symm⟩
    · rw [split_join_append hfront, split_of_cutShort hcut] at h
      cases h
  · rintro ⟨hunits, rfl⟩
    exact split_join hunits

theorem exists_of_split_eq_error {body : Bytes} {e : WireError} (h : split body = .error e) :
    ∃ units rest, Framable units ∧ body = join units ++ rest ∧ CutShort rest e := by
  obtain ⟨units, rest, hunits, rfl, rfl | ⟨e', hcut⟩⟩ := exists_join_append body
  · rw [List.append_nil, split_join hunits] at h
    cases h
  · rw [split_join_append hunits, split_of_cutShort hcut] at h
    obtain rfl := Except.error.inj h
    exact ⟨units, rest, hunits, rfl, hcut⟩

theorem frame_append_inj {unit other rest rest' : Bytes} (h : unit.length ≤ maxUnitSize)
    (h' : other.length ≤ maxUnitSize) (he : frame unit ++ rest = frame other ++ rest') :
    unit = other ∧ rest = rest' := by
  simp only [frame_eq, List.cons_append, List.cons.injEq] at he
  obtain ⟨hhi, hlo, hdata⟩ := he
  have hword := Bytes.word16_ofWord16 (UInt16.ofNat unit.length)
  rw [hhi, hlo, Bytes.word16_ofWord16] at hword
  have hlen : unit.length = other.length := by rw [← toNat_length h, ← hword, toNat_length h']
  exact List.append_inj hdata hlen

theorem not_cutShort_frame_append {unit : Bytes} (h : unit.length ≤ maxUnitSize) (rest : Bytes)
    (e : WireError) : ¬ CutShort (frame unit ++ rest) e := by
  rw [frame_eq, List.cons_append, List.cons_append]
  rintro (_ | ⟨_, _, _, hlt⟩)
  rw [Bytes.word16_ofWord16, toNat_length h, List.length_append] at hlt
  omega

/-- The units in front of a rest that is cut short are all that there are. -/
theorem prefix_of_join_prefix {others units : List Bytes} {rest : Bytes} {e : WireError}
    (ho : Framable others) (hu : Framable units) (hcut : CutShort rest e)
    (hp : join others <+: join units ++ rest) : others <+: units := by
  induction others generalizing units with
  | nil => exact List.nil_prefix
  | cons other others ih =>
    obtain ⟨more, he⟩ := hp
    rw [join_cons, List.append_assoc] at he
    have hother := ho other List.mem_cons_self
    cases units with
    | nil =>
      have hrest : frame other ++ (join others ++ more) = rest := he
      exact absurd (hrest ▸ hcut) (not_cutShort_frame_append hother _ _)
    | cons unit units =>
      rw [join_cons, List.append_assoc] at he
      obtain ⟨rfl, hrest⟩ := frame_append_inj hother (hu unit List.mem_cons_self) he
      exact List.cons_prefix_cons.mpr ⟨rfl, ih ho.tail hu.tail ⟨more, hrest⟩⟩

/-- The units in front of what is refused are the most that the body begins with. -/
theorem split_exact :
    (∀ units, Framable units → split (join units) = .ok units) ∧
    ∀ body,
      (∀ units, split body = .ok units → join units = body ∧ Framable units) ∧
      ((∃ e, split body = .error e) ↔ ¬ ∃ units, Framable units ∧ join units = body) ∧
      ∀ e, split body = .error e → ∃ units rest,
        Framable units ∧ body = join units ++ rest ∧ rest ≠ [] ∧
        (∀ others, Framable others → join others <+: body → others <+: units) ∧
        ((∃ b, rest = [b] ∧ e = .truncated .aggregatedUnit 2 1) ∨
          ∃ hi lo data, rest = hi :: lo :: data ∧ data.length < (Bytes.word16 hi lo).toNat ∧
            e = .truncated .aggregatedUnit (Bytes.word16 hi lo).toNat data.length) := by
  refine ⟨fun units => split_join, fun body => ⟨fun units h => ?_, ?_, fun e h => ?_⟩⟩
  · exact (split_eq_ok_iff.mp h).symm
  · simp only [← split_eq_ok_iff]
    cases split body <;> simp
  · obtain ⟨units, rest, hunits, rfl, hcut⟩ := exists_of_split_eq_error h
    refine ⟨units, rest, hunits, rfl, hcut.ne_nil,
      fun others ho => prefix_of_join_prefix ho hunits hcut, ?_⟩
    cases hcut with
    | length b => exact .inl ⟨b, rfl, rfl⟩
    | unit hi lo data hlt => exact .inr ⟨hi, lo, data, rfl, hlt, rfl⟩

/-- The last length announces one byte more than there is behind it. -/
theorem split_exact_overrun :
    let body : Bytes := [0, 0, 0, 2, 7, 8, 0, 3, 9, 9]
    split (join [[], [7, 8]]) = .ok [[], [7, 8]] ∧
      split body = .error (.truncated .aggregatedUnit 3 2) ∧
      ¬ ∃ units, Framable units ∧ join units = body := by
  intro body
  have hframable : Framable [[], [7, 8]] := .cons (.cons .nil (by decide)) (by decide)
  have hcut : CutShort [0, 3, 9, 9] (.truncated .aggregatedUnit 3 2) :=
    .unit 0 3 [9, 9] (by decide)
  have herror : split body = .error (.truncated .aggregatedUnit 3 2) := by
    change split (join [[], [7, 8]] ++ [0, 3, 9, 9]) = _
    rw [split_join_append hframable, split_of_cutShort hcut]
    rfl
  exact ⟨split_exact.1 _ hframable, herror, (split_exact.2 body).2.1.mp ⟨_, herror⟩⟩

end NalTransport.Bundle
