import NalTransport.Proofs.AnnexB.Units

/-! Every byte string is a stream behind bytes without a start code, in one way
only as far as its units are concerned. Reading therefore gives one unit for
each start code, and nothing more however often one asks. -/

namespace NalTransport.AnnexB

/-- The places where two zeros and a one stand. -/
def codeCount (data : Bytes) : Nat := data.tails.countP fun rest => codeBytes 2 <+: rest

theorem codeCount_cons (b : UInt8) (data : Bytes) :
    codeCount (b :: data) = codeCount data + if codeBytes 2 <+: b :: data then 1 else 0 := by
  simp [codeCount, List.countP_cons]

theorem codeCount_eq_zero_iff {data : Bytes} : codeCount data = 0 ↔ ¬ HasCode data := by
  induction data with
  | nil => decide
  | cons b data ih =>
    rw [codeCount_cons, hasCode_cons, not_or, ← ih]
    by_cases h : codeBytes 2 <+: b :: data
    · simp [h]
    · simp [h]

theorem codeBytes_append (n : Nat) (rest : Bytes) :
    codeBytes (n + 2) ++ rest = 0 :: 0 :: (codeBytes n ++ rest) := rfl

theorem prefix_cons_iff {a b c : UInt8} {rest : Bytes} :
    codeBytes 2 <+: a :: b :: c :: rest ↔ a = 0 ∧ b = 0 ∧ c = 1 := by
  simp [codeBytes_two, List.cons_prefix_cons, eq_comm]

theorem codeCount_codeBytes (n : Nat) (rest : Bytes) :
    codeCount (codeBytes (n + 2) ++ rest) = codeCount rest + 1 := by
  induction n with
  | zero => simp [codeBytes, codeCount_cons, List.cons_prefix_cons]
  | succ n ih =>
    have hcons : codeBytes (n + 1 + 2) ++ rest = 0 :: (codeBytes (n + 2) ++ rest) := rfl
    have hno : ¬ codeBytes 2 <+: 0 :: (codeBytes (n + 2) ++ rest) := by
      rw [codeBytes_append, prefix_cons_iff]
      decide
    rw [hcons, codeCount_cons, ih, if_neg hno]

theorem prefix_of_prefix_append_codeBytes {front : Bytes} (hne : front ≠ []) {n : Nat}
    {rest : Bytes} (h : codeBytes 2 <+: front ++ (codeBytes (n + 2) ++ rest)) :
    codeBytes 2 <+: front := by
  -- The zeros that follow `front` are no end of a code that begins in it.
  rw [codeBytes_append] at h
  match front with
  | [a] => exact absurd (prefix_cons_iff.mp h).2.2 (by decide)
  | [a, b] => exact absurd (prefix_cons_iff.mp h).2.2 (by decide)
  | a :: b :: c :: front => exact prefix_cons_iff.mpr (prefix_cons_iff.mp h)

theorem codeCount_append_codeBytes {front : Bytes} (hf : ¬ HasCode front) {zeros : Nat}
    (hz : 2 ≤ zeros) (rest : Bytes) :
    codeCount (front ++ (codeBytes zeros ++ rest)) = codeCount rest + 1 := by
  obtain ⟨n, rfl⟩ := Nat.exists_eq_add_of_le' hz
  induction front with
  | nil => exact codeCount_codeBytes n rest
  | cons b front ih =>
    rw [hasCode_cons, not_or] at hf
    have hno : ¬ codeBytes 2 <+: b :: (front ++ (codeBytes (n + 2) ++ rest)) := by
      intro h
      exact hf.1 (prefix_of_prefix_append_codeBytes (List.cons_ne_nil b front) h)
    rw [List.cons_append, codeCount_cons, ih hf.2, if_neg hno]

theorem codeCount_stream {front : Bytes} {units : List (Nat × Bytes)}
    (hs : Separable (front :: units.map (·.2))) (hz : ∀ unit ∈ units, 2 ≤ unit.1) :
    codeCount (front ++ stream units) = units.length := by
  induction units generalizing front with
  | nil =>
    rw [stream_nil, List.append_nil]
    exact codeCount_eq_zero_iff.mpr (hs.1 front List.mem_cons_self)
  | cons unit units ih =>
    obtain ⟨zeros, unit⟩ := unit
    have hzeros : 2 ≤ zeros := hz (zeros, unit) List.mem_cons_self
    have hi := ih hs.tail fun u hu => hz u (List.mem_cons_of_mem _ hu)
    rw [stream_cons, List.append_assoc,
      codeCount_append_codeBytes (hs.1 front List.mem_cons_self) hzeros, hi, List.length_cons]

theorem exists_append_codeBytes {data : Bytes} (h : HasCode data) :
    ∃ front zeros rest, data = front ++ (codeBytes zeros ++ rest) ∧ 2 ≤ zeros ∧
      ¬ HasCode front ∧ front.getLast? ≠ some 0 := by
  induction data with
  | nil => exact absurd h (by decide)
  | cons b data ih =>
    by_cases hcode : codeBytes 2 <+: b :: data
    · obtain ⟨rest, hrest⟩ := hcode
      exact ⟨[], 2, rest, hrest.symm, Nat.le_refl 2, by decide, by decide⟩
    · obtain ⟨front, zeros, rest, rfl, hz, hno, hend⟩ := ih ((hasCode_cons.mp h).resolve_left hcode)
      by_cases hjoin : front = [] ∧ b = 0
      · -- The zero lengthens the start code behind it.
        obtain ⟨rfl, rfl⟩ := hjoin
        exact ⟨[], zeros + 1, rest, rfl, by omega, by decide, by decide⟩
      · refine ⟨b :: front, zeros, rest, rfl, hz, ?_, ?_⟩
        · rw [hasCode_cons]
          rintro (hb | hf)
          · exact hcode (hb.trans (List.prefix_append (b :: front) _))
          · exact hno hf
        · cases front with
          | nil => simpa using hjoin
          | cons c front => simpa using hend

theorem exists_stream (data : Bytes) :
    ∃ front units, data = front ++ stream units ∧ Separable (front :: units.map (·.2)) ∧
      ∀ unit ∈ units, 2 ≤ unit.1 := by
  induction h : data.length using Nat.strongRecOn generalizing data with
  | ind n ih =>
    by_cases hcode : HasCode data
    · obtain ⟨front, zeros, rest, rfl, hz, hno, hend⟩ := exists_append_codeBytes hcode
      have hlt : rest.length < n := by
        simp only [← h, codeBytes, List.length_append, List.length_singleton]
        omega
      obtain ⟨unit, units, rfl, hs, hzs⟩ := ih _ hlt rest rfl
      refine ⟨front, (zeros, unit) :: units, ?_, ?_, List.forall_mem_cons.mpr ⟨hz, hzs⟩⟩
      · rw [stream_cons, List.append_assoc]
      · exact separable_cons_iff.mpr ⟨hno, fun _ => hend, hs⟩
    · have hs : Separable [data] :=
        separable_cons_iff.mpr ⟨hcode, fun hne => absurd rfl hne, by simp [Separable]⟩
      exact ⟨data, [], by rw [stream_nil, List.append_nil], hs, List.forall_mem_nil _⟩

/-- What a number of calls in a row answer. A scanner without units stays as it is. -/
def Scanner.answers : Nat → Scanner → List (Option Bytes)
  | 0, _ => []
  | n + 1, s =>
    match s.next? with
    | none => none :: answers n s
    | some (unit, s) => some unit :: answers n s

theorem Scanner.answers_of_next?_none {s : Scanner} (h : s.next? = none) (n : Nat) :
    s.answers n = List.replicate n none := by
  induction n with
  | zero => rfl
  | succ n ih => simp only [answers, h, ih, List.replicate_succ]

theorem Scanner.answers_unitsOnto (s : Scanner) (n : Nat) :
    s.answers ((unitsOnto [] s).length + n) =
      (unitsOnto [] s).map some ++ List.replicate n none := by
  induction h : s.remaining using Nat.strongRecOn generalizing s with
  | ind k ih =>
    cases hnext : s.next? with
    | none =>
      rw [unitsOnto_of_next?_none hnext, List.length_nil, Nat.zero_add, answers_of_next?_none hnext]
      rfl
    | some next =>
      obtain ⟨unit, t⟩ := next
      have hi := ih t.remaining (h ▸ remaining_of_next? hnext) t rfl
      rw [unitsOnto_of_next?_some hnext, List.length_cons, Nat.add_right_comm]
      simp only [answers, hnext, hi, List.map_cons, List.cons_append]

/-- Only start codes and the bytes in front of the first of them are missing from the units. -/
theorem units_exact (data : Bytes) :
    (¬ HasCode data → AnnexB.units data = [data]) ∧
      (HasCode data →
        0 < codeCount data ∧ (AnnexB.units data).length = codeCount data ∧
          ∃ front coded, data = front ++ stream coded ∧ coded.map (·.2) = AnnexB.units data ∧
            (∀ unit ∈ coded, 2 ≤ unit.1) ∧ Separable (front :: AnnexB.units data)) ∧
      ∀ n, (Scanner.ofBytes data).answers ((AnnexB.units data).length + n) =
        (AnnexB.units data).map some ++ List.replicate n none := by
  refine ⟨units_of_not_hasCode, fun h => ?_, Scanner.answers_unitsOnto _⟩
  · have hpos : 0 < codeCount data := Nat.pos_of_ne_zero fun h0 => codeCount_eq_zero_iff.mp h0 h
    obtain ⟨front, coded, rfl, hs, hz⟩ := exists_stream data
    have hcount := codeCount_stream hs hz
    have hne : coded ≠ [] := List.ne_nil_of_length_pos (by omega)
    have hunits := units_append_stream (hs.1 front List.mem_cons_self) hne hs.tail hz
    rw [hunits]
    exact ⟨hpos, by rw [List.length_map, hcount], front, coded, rfl, rfl, hz, hs⟩

/-- Units that begin and end in zeros, and an empty one between two start codes. -/
theorem units_exact_zeros :
    let plain : Bytes := [0, 0, 2, 0, 1]
    let data : Bytes := [5, 0, 0, 0, 1, 0, 0, 2, 0, 0, 1, 0, 0, 1, 9, 0]
    (¬ HasCode plain ∧ AnnexB.units plain = [plain]) ∧
      HasCode data ∧ AnnexB.units data = [[0, 0, 2], [], [9, 0]] ∧ codeCount data = 3 ∧
        ∃ front coded, data = front ++ stream coded ∧ coded.map (·.2) = AnnexB.units data ∧
          (∀ unit ∈ coded, 2 ≤ unit.1) ∧ Separable (front :: AnnexB.units data) := by
  intro plain data
  have hplain : ¬ HasCode plain := by decide
  have hdata : HasCode data := by decide
  exact ⟨⟨hplain, (units_exact plain).1 hplain⟩, hdata, by cbv, by decide,
    ((units_exact data).2.1 hdata).2.2⟩

end NalTransport.AnnexB
