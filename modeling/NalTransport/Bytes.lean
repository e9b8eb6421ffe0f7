/-! Byte strings, the big-endian words in them, and the two ways of cutting
them that the wire formats need. Words and their bytes are related through
natural numbers, so that the laws below are arithmetic. -/

namespace NalTransport

abbrev Bytes := List UInt8

namespace Bytes

def word16 (hi lo : UInt8) : UInt16 :=
  UInt16.ofNat (hi.toNat * 256 + lo.toNat)

def word32 (a b c d : UInt8) : UInt32 :=
  UInt32.ofNat (a.toNat * 16777216 + b.toNat * 65536 + c.toNat * 256 + d.toNat)

def ofWord16 (w : UInt16) : Bytes :=
  [UInt8.ofNat (w.toNat / 256), UInt8.ofNat w.toNat]

def ofWord32 (w : UInt32) : Bytes :=
  [UInt8.ofNat (w.toNat / 16777216), UInt8.ofNat (w.toNat / 65536),
    UInt8.ofNat (w.toNat / 256), UInt8.ofNat w.toNat]

/-- The whole words of a byte string; up to three bytes are left over. -/
def words32 : Bytes → List UInt32
  | a :: b :: c :: d :: rest => word32 a b c d :: words32 rest
  | _ => []

def ofWords32 (ws : List UInt32) : Bytes := ws.flatMap ofWord32

/-- The buffer with its front replaced. -/
def overwrite (data buffer : Bytes) : Bytes := data ++ buffer.drop data.length

/-- The buffer with `data` in place of what stood at `offset`. A store that goes past the end
makes it longer. -/
def store (offset : Nat) (data buffer : Bytes) : Bytes :=
  buffer.take offset ++ overwrite data (buffer.drop offset)

def chunksOnto (size : Nat) (done : List Bytes) (data : Bytes) : List Bytes :=
  if size = 0 ∨ data = [] then done.reverse
  else chunksOnto size (data.take size :: done) (data.drop size)
termination_by data.length
decreasing_by
  rename_i h
  have : 0 < data.length := List.length_pos_iff.mpr fun e => h (.inr e)
  simp only [List.length_drop]
  omega

/-- Consecutive pieces of `size` bytes, the last possibly shorter. -/
def chunks (size : Nat) (data : Bytes) : List Bytes := chunksOnto size [] data

theorem word16_ofWord16 (w : UInt16) :
    word16 (UInt8.ofNat (w.toNat / 256)) (UInt8.ofNat w.toNat) = w := by
  have := w.toNat_lt
  apply UInt16.toNat_inj.mp
  simp only [word16, UInt8.toNat_ofNat', UInt16.toNat_ofNat']
  omega

theorem toNat_word16_ofNat {n : Nat} (h : n ≤ 65535) :
    (word16 (UInt8.ofNat (n / 256)) (UInt8.ofNat n)).toNat = n := by
  simp only [word16, UInt8.toNat_ofNat', UInt16.toNat_ofNat']
  omega

theorem word32_ofWord32 (w : UInt32) :
    word32 (UInt8.ofNat (w.toNat / 16777216)) (UInt8.ofNat (w.toNat / 65536))
      (UInt8.ofNat (w.toNat / 256)) (UInt8.ofNat w.toNat) = w := by
  have := w.toNat_lt
  apply UInt32.toNat_inj.mp
  simp only [word32, UInt8.toNat_ofNat', UInt32.toNat_ofNat']
  omega

theorem ofWord16_word16 (hi lo : UInt8) : ofWord16 (word16 hi lo) = [hi, lo] := by
  have hhi := hi.toNat_lt
  have hlo := lo.toNat_lt
  simp only [ofWord16, word16, UInt16.toNat_ofNat', List.cons.injEq, and_true]
  constructor <;> apply UInt8.toNat_inj.mp <;> simp only [UInt8.toNat_ofNat'] <;> omega

theorem ofWord32_word32 (a b c d : UInt8) : ofWord32 (word32 a b c d) = [a, b, c, d] := by
  have ha := a.toNat_lt
  have hb := b.toNat_lt
  have hc := c.toNat_lt
  have hd := d.toNat_lt
  simp only [ofWord32, word32, UInt32.toNat_ofNat', List.cons.injEq, and_true]
  refine ⟨?_, ?_, ?_, ?_⟩ <;> apply UInt8.toNat_inj.mp <;>
    simp only [UInt8.toNat_ofNat'] <;> omega

theorem length_ofWords32 (ws : List UInt32) : (ofWords32 ws).length = 4 * ws.length := by
  induction ws with
  | nil => rfl
  | cons w ws ih =>
    simp only [ofWords32, List.flatMap_cons, List.length_append, List.length_cons] at ih ⊢
    rw [ih]
    simp only [ofWord32, List.length_cons, List.length_nil]
    omega

theorem words32_ofWords32 (ws : List UInt32) : words32 (ofWords32 ws) = ws := by
  induction ws with
  | nil => rfl
  | cons w ws ih =>
    simp only [ofWords32, List.flatMap_cons] at ih ⊢
    simp only [ofWord32, List.cons_append, List.nil_append, words32, word32_ofWord32, ih]

theorem exists_cons4 {data : Bytes} {n : Nat} (h : data.length = 4 * (n + 1)) :
    ∃ a b c d rest, data = a :: b :: c :: d :: rest ∧ rest.length = 4 * n := by
  match data, h with
  | a :: b :: c :: d :: rest, h =>
    simp only [List.length_cons] at h
    exact ⟨a, b, c, d, rest, rfl, by omega⟩

theorem length_words32 {data : Bytes} {n : Nat} (h : data.length = 4 * n) :
    (words32 data).length = n := by
  induction n generalizing data with
  | zero =>
    obtain rfl := List.eq_nil_of_length_eq_zero h
    rfl
  | succ n ih =>
    obtain ⟨a, b, c, d, rest, rfl, hrest⟩ := exists_cons4 h
    simp only [words32, List.length_cons, ih hrest]

theorem ofWords32_words32 {data : Bytes} {n : Nat} (h : data.length = 4 * n) :
    ofWords32 (words32 data) = data := by
  induction n generalizing data with
  | zero =>
    obtain rfl := List.eq_nil_of_length_eq_zero h
    rfl
  | succ n ih =>
    obtain ⟨a, b, c, d, rest, rfl, hrest⟩ := exists_cons4 h
    have hi := ih hrest
    simp only [ofWords32] at hi
    simp only [ofWords32, words32, List.flatMap_cons, ofWord32_word32, hi, List.cons_append,
      List.nil_append]

theorem length_overwrite {data buffer : Bytes} (h : data.length ≤ buffer.length) :
    (overwrite data buffer).length = buffer.length := by
  simp only [overwrite, List.length_append, List.length_drop]
  omega

theorem chunksOnto_append (size : Nat) (done more : List Bytes) (data : Bytes) :
    chunksOnto size (done ++ more) data = more.reverse ++ chunksOnto size done data := by
  fun_induction chunksOnto size done data with
  | case1 done data h =>
    rw [chunksOnto, if_pos h]
    exact List.reverse_append
  | case2 done data h ih =>
    rw [chunksOnto, if_neg h]
    exact ih

theorem chunks_nil (size : Nat) : chunks size [] = [] := by
  simp [chunks, chunksOnto]

theorem chunks_zero (data : Bytes) : chunks 0 data = [] := by
  simp [chunks, chunksOnto]

theorem chunks_of_pos {size : Nat} {data : Bytes} (hs : 0 < size) (hd : data ≠ []) :
    chunks size data = data.take size :: chunks size (data.drop size) := by
  have h : ¬(size = 0 ∨ data = []) := by simp [Nat.ne_of_gt hs, hd]
  rw [chunks, chunksOnto, if_neg h]
  exact chunksOnto_append size [] [_] _

/-- Byte strings taken apart from the front, piece by piece. -/
theorem induct_drop {size : Nat} (hs : 0 < size) {motive : Bytes → Prop} (nil : motive [])
    (drop : ∀ data, data ≠ [] → motive (data.drop size) → motive data) (data : Bytes) :
    motive data := by
  induction h : data.length using Nat.strongRecOn generalizing data with
  | ind n ih =>
    by_cases hd : data = []
    · exact hd ▸ nil
    · have hpos := List.length_pos_iff.mpr hd
      have hlt : (data.drop size).length < n := by simp only [List.length_drop]; omega
      exact drop data hd (ih _ hlt _ rfl)

theorem flatten_chunks {size : Nat} (hs : 0 < size) (data : Bytes) :
    (chunks size data).flatten = data := by
  induction data using induct_drop hs with
  | nil => rw [chunks_nil, List.flatten_nil]
  | drop data hd ih => rw [chunks_of_pos hs hd, List.flatten_cons, ih, List.take_append_drop]

theorem length_chunks (size : Nat) (data : Bytes) :
    (chunks size data).length = (data.length + size - 1) / size := by
  by_cases hs : size = 0
  · simp [hs, chunks_zero]
  · have hpos := Nat.pos_of_ne_zero hs
    induction data using induct_drop hpos with
    | nil => rw [chunks_nil, List.length_nil, List.length_nil, Nat.div_eq_of_lt (by omega)]
    | drop data hd ih =>
      have hlen := List.length_pos_iff.mpr hd
      rw [chunks_of_pos hpos hd, List.length_cons, ih, List.length_drop]
      by_cases hle : size ≤ data.length
      · have hfront : data.length - size + size - 1 = data.length - 1 := by omega
        have hwhole : data.length + size - 1 = data.length - 1 + size := by omega
        rw [hfront, hwhole, Nat.add_div_right _ hpos]
      · -- A piece that is not full is the last one.
        have hfront : (data.length - size + size - 1) / size = 0 := Nat.div_eq_of_lt (by omega)
        have hwhole : (data.length + size - 1) / size = 1 :=
          Nat.div_eq_of_lt_le (by omega) (by omega)
        rw [hfront, hwhole]

theorem length_of_mem_chunks {size : Nat} {data part : Bytes} (h : part ∈ chunks size data) :
    0 < part.length ∧ part.length ≤ size := by
  by_cases hs : size = 0
  · simp [hs, chunks_zero] at h
  · have hpos := Nat.pos_of_ne_zero hs
    induction data using induct_drop hpos with
    | nil => simp [chunks_nil] at h
    | drop data hd ih =>
      have hlen := List.length_pos_iff.mpr hd
      rw [chunks_of_pos hpos hd] at h
      rcases List.mem_cons.mp h with rfl | h
      · simp only [List.length_take]
        omega
      · exact ih h

end Bytes

end NalTransport
