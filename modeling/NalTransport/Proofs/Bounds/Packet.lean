import Mathlib.Data.List.TakeDrop
import NalTransport.Proofs.Bounds.Access
import NalTransport.Proofs.Packet.Canonical

/-! Packets read by position. The bytes behind a header are cut off by its size,
and a header that was decoded is never larger than the bytes it came from. -/

namespace NalTransport.Packet

namespace Header

open Access

/-- The extension block at `offset`. -/
def readExtension (raw : Bytes) (offset : Nat) : Access (UInt16 × Bytes) :=
  let needed := offset + 4
  if raw.length < needed then refuse (.truncated .extensionHead needed raw.length)
  else do
    let profile ← word16At raw offset
    let words ← word16At raw (offset + 2)
    let length := 4 * words.toNat
    if raw.length < needed + length then
      refuse (.truncated .extensionBody (needed + length) raw.length)
    else
      let body ← slice raw needed (needed + length)
      return (profile, body)

def readCsrcs (raw : Bytes) (count : Nat) : Access (List UInt32) :=
  (List.range count).mapM fun i => word32At raw (fixedSize + 4 * i)

/-- What stands behind the fixed bytes: so many identifiers, and the extension. -/
def readVariable (raw : Bytes) (count : Nat) (header : Header) : Access Header :=
  let offset := fixedSize + 4 * count
  if raw.length < offset then refuse (.truncated .csrcList offset raw.length)
  else do
    let csrcs ← readCsrcs raw count
    if header.extended then
      let (profile, extension) ← readExtension raw offset
      return { header with csrcs, profile, extension }
    else return { header with csrcs }

def read (raw : Bytes) : Access Header :=
  if raw.length < fixedSize then refuse (.truncated .fixedHeader fixedSize raw.length)
  else do
    let b0 ← byteAt raw 0
    let b1 ← byteAt raw 1
    let sequenceNumber ← word16At raw 2
    let timestamp ← word32At raw 4
    let ssrc ← word32At raw 8
    readVariable raw (b0 % 16).toNat
      { version := b0 / 64
        padded := b0 / 32 % 2 == 1
        extended := b0 / 16 % 2 == 1
        marker := b1 / 128 == 1
        payloadType := b1 % 128
        sequenceNumber, timestamp, ssrc }

/-- What `decode` makes of the bytes behind the fixed ones. -/
def decodeVariable (total count : Nat) (rest : Bytes) (header : Header) :
    Except WireError Header :=
  let list := rest.take (4 * count)
  if list.length < 4 * count then
    .error (.truncated .csrcList (fixedSize + 4 * count) total)
  else if header.extended then
    match decodeExtension (fixedSize + 4 * count) total (rest.drop (4 * count)) with
    | .error e => .error e
    | .ok (profile, extension) =>
      .ok { header with csrcs := Bytes.words32 list, profile, extension }
  else .ok { header with csrcs := Bytes.words32 list }

theorem readExtension_gives (front block : Bytes) :
    (readExtension (front ++ block) front.length).Gives
      (decodeExtension front.length (front ++ block).length block) := by
  match block with
  | [] | [_] | [_, _] | [_, _, _] =>
    rw [readExtension, if_pos (by simp)]
    exact .truncated ..
  | p1 :: p0 :: n1 :: n0 :: rest =>
    have hprofile : word16At (front ++ p1 :: p0 :: n1 :: n0 :: rest) front.length =
        .ok (Bytes.word16 p1 p0) := word16At_append front _ 0
    have hwords : word16At (front ++ p1 :: p0 :: n1 :: n0 :: rest) (front.length + 2) =
        .ok (Bytes.word16 n1 n0) := word16At_append front _ 2
    have hbody (length : Nat) :
        slice (front ++ p1 :: p0 :: n1 :: n0 :: rest) (front.length + 4)
            (front.length + 4 + length) = slice rest 0 length := by
      rw [Nat.add_assoc, slice_append]
      exact slice_append [p1, p0, n1, n0] rest 0 length
    have hshort (length : Nat) :
        (front ++ p1 :: p0 :: n1 :: n0 :: rest).length < front.length + 4 + length ↔
          rest.length < length := by
      simp only [List.length_append, List.length_cons]
      omega
    have hhead : ¬ (front ++ p1 :: p0 :: n1 :: n0 :: rest).length < front.length + 4 := by
      simp only [List.length_append, List.length_cons]
      omega
    simp only [readExtension, decodeExtension, if_neg hhead, hprofile, hwords, ok_bind, hbody,
      hshort, length_take_lt_iff]
    split
    · exact .truncated ..
    · next hl =>
      rw [slice_zero (Nat.not_lt.mp hl)]
      exact .ok _

theorem readCsrcs_eq (fixed : Bytes) (hf : fixed.length = fixedSize) {rest : Bytes} {count : Nat}
    (h : 4 * count ≤ rest.length) :
    readCsrcs (fixed ++ rest) count = .ok (Bytes.words32 (rest.take (4 * count))) := by
  simp only [readCsrcs, ← hf, word32At_append]
  induction count generalizing rest with
  | zero => rfl
  | succ count ih =>
    obtain ⟨a, b, c, d, rest, rfl, hrest⟩ := exists_cons4_of_le h
    have hnext (i : Nat) :
        word32At (a :: b :: c :: d :: rest) (4 * (i + 1)) = word32At rest (4 * i) := by
      rw [Nat.mul_add, Nat.add_comm]
      exact word32At_append [a, b, c, d] rest (4 * i)
    have htake : (a :: b :: c :: d :: rest).take (4 * (count + 1)) =
        a :: b :: c :: d :: rest.take (4 * count) := rfl
    rw [List.range_succ_eq_map, List.mapM_cons, List.mapM_map, htake]
    simp only [Function.comp_def, Nat.succ_eq_add_one, hnext, ih hrest, Bytes.words32]
    rfl

theorem readVariable_gives (fixed : Bytes) (hf : fixed.length = fixedSize) (rest : Bytes)
    (count : Nat) (header : Header) :
    (readVariable (fixed ++ rest) count header).Gives
      (decodeVariable (fixed ++ rest).length count rest header) := by
  have hshort : (fixed ++ rest).length < fixedSize + 4 * count ↔ rest.length < 4 * count := by
    rw [List.length_append, hf]
    omega
  simp only [readVariable, decodeVariable, hshort, length_take_lt_iff]
  split
  · exact .truncated ..
  · next hl =>
    have hle := Nat.not_lt.mp hl
    have hlist := List.length_take_of_le hle
    rw [readCsrcs_eq fixed hf hle, ok_bind]
    split
    · -- The extension stands behind the fixed bytes and the list.
      obtain ⟨hx, he⟩ :=
        readExtension_gives (fixed ++ rest.take (4 * count)) (rest.drop (4 * count))
      rw [List.length_append, hf, hlist, List.append_assoc, List.take_append_drop] at hx he
      rw [hx]
      cases hd : decodeExtension (fixedSize + 4 * count) (fixed ++ rest).length
          (rest.drop (4 * count)) with
      | error e => exact .refuse (he e hd)
      | ok block => exact .ok _
    · exact .ok _

theorem read_gives (raw : Bytes) : (read raw).Gives (decode raw) := by
  by_cases hfixed : raw.length < fixedSize
  · have hd : decode raw = .error (.truncated .fixedHeader fixedSize raw.length) := by
      unfold decode
      split
      · simp only [List.length_cons, fixedSize] at hfixed
        omega
      · rfl
    rw [read, if_pos hfixed, hd]
    exact .truncated ..
  · obtain ⟨b0, b1, n1, n0, rest, rfl, h2⟩ := exists_cons4_of_le (n := 2) (Nat.not_lt.mp hfixed)
    obtain ⟨t3, t2, t1, t0, rest, rfl, h1⟩ := exists_cons4_of_le h2
    obtain ⟨s3, s2, s1, s0, rest, rfl, -⟩ := exists_cons4_of_le h1
    rw [read, if_neg hfixed]
    exact readVariable_gives [b0, b1, n1, n0, t3, t2, t1, t0, s3, s2, s1, s0] rfl rest _ _

end Header

open Access

def Trailer.read (body : Bytes) : Access Trailer :=
  match body.getLast? with
  | none => refuse (.truncated .padding 1 0)
  | some count =>
    if count = 0 then refuse .paddingCountZero
    else if body.length < count.toNat then
      refuse (.truncated .padding count.toNat body.length)
    else do
      let start ← sub body.length count.toNat
      let stop ← sub body.length 1
      let fill ← slice body start stop
      return { fill }

def read (raw : Bytes) : Access Packet := do
  let header ← Header.read raw
  let body ← slice raw header.size raw.length
  if header.padded then
    let trailer ← Trailer.read body
    let stop ← sub body.length (trailer.fill.length + 1)
    let payload ← slice body 0 stop
    return { header, trailer, payload }
  else return { header, payload := body }

theorem Trailer.read_gives (body : Bytes) : (read body).Gives (decode body) := by
  unfold read decode
  cases hlast : body.getLast? with
  | none => exact .truncated ..
  | some count =>
    simp only
    split_ifs with hzero hl
    · exact .refuse trivial
    · exact .truncated ..
    · have hpos : 0 < count.toNat := UInt8.pos_iff_ne_zero.mpr hzero
      rw [sub_of_le (Nat.not_lt.mp hl), sub_of_le (by omega)]
      simp only [ok_bind]
      rw [slice, if_pos (by omega), ← List.dropLast_eq_take, ← List.dropLast_drop_eq_drop_dropLast]
      exact .ok _

theorem Header.size_le_of_decode {raw : Bytes} {h : Header} (hd : decode raw = .ok h) :
    h.size ≤ raw.length := by
  obtain ⟨-, rest, rfl⟩ := bytes_of_decode hd
  rw [List.length_append, length_bytes]
  exact Nat.le_add_right _ _

theorem Trailer.length_le_of_decode {body : Bytes} {t : Trailer} (hd : decode body = .ok t) :
    t.fill.length + 1 ≤ body.length := by
  obtain ⟨-, front, rfl⟩ := counted_of_decode hd
  rw [List.length_append, length_counted]
  exact Nat.le_add_left _ _

theorem read_gives (raw : Bytes) : (read raw).Gives (decode raw) := by
  refine (Header.read_gives raw).bind fun header hd => ?_
  rw [slice_length (Header.size_le_of_decode hd), ok_bind]
  split
  · refine (Trailer.read_gives _).bind fun trailer ht => ?_
    rw [sub_of_le (Trailer.length_le_of_decode ht), ok_bind, slice_zero (Nat.sub_le _ _)]
    exact .ok _
  · exact .ok _

end NalTransport.Packet
