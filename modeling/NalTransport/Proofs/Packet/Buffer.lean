import NalTransport.Packet.Buffer
import NalTransport.Proofs.Packet.RoundTrip

/-! Writing into a buffer against the wire form. A value is written exactly if it
has a wire form and the buffer has room for it. The wire form then stands at the
front, whatever the buffer held before, and the bytes behind it stay. -/

namespace NalTransport

namespace Bytes

theorem take_overwrite (data buffer : Bytes) : (overwrite data buffer).take data.length = data :=
  List.take_left

theorem drop_overwrite (data buffer : Bytes) :
    (overwrite data buffer).drop data.length = buffer.drop data.length :=
  List.drop_left

theorem overwrite_nil (buffer : Bytes) : overwrite [] buffer = buffer := rfl

theorem overwrite_append (front back buffer : Bytes) :
    overwrite (front ++ back) buffer = front ++ overwrite back (buffer.drop front.length) := by
  simp only [overwrite, List.length_append, List.append_assoc, List.drop_drop]

theorem store_zero (data buffer : Bytes) : store 0 data buffer = overwrite data buffer := rfl

/-- A store right behind what was written before adds to it. -/
theorem store_overwrite {offset : Nat} {done : Bytes} (h : done.length = offset)
    (data buffer : Bytes) :
    store offset data (overwrite done buffer) = overwrite (done ++ data) buffer := by
  subst h
  rw [store, take_overwrite, drop_overwrite, overwrite_append]

end Bytes

def Written.bytes (w : Written) : Except WireError Bytes := w.outcome.map fun _ => w.buffer

/-- How writing a value into buffers and encoding it belong together. The conditions on the
value do not depend on the buffer, and encoding is writing into a fresh buffer. -/
structure Writes (write : Bytes → Written) (encode : Except WireError Bytes) (size : Nat)
    (writable : Prop) : Prop where
  ok_iff (buffer : Bytes) :
    (∃ n, (write buffer).outcome = .ok n) ↔ writable ∧ size ≤ buffer.length
  written {buffer : Bytes} {n : Nat} : (write buffer).outcome = .ok n →
    n = size ∧ encode = .ok ((write buffer).buffer.take size) ∧
      (write buffer).buffer.drop size = buffer.drop size
  encode_eq : encode = (write (List.replicate size 0)).bytes
  encode_ok_iff : (∃ raw, encode = .ok raw) ↔ writable
  encode_ne (needed actual : Nat) : encode ≠ .error (.bufferTooShort needed actual)

/-- Where there is room, writing does what encoding does. -/
theorem Writes.of_room {write : Bytes → Written} {encode : Except WireError Bytes} {size : Nat}
    {writable : Prop}
    (hshort : ∀ buffer : Bytes, buffer.length < size → ∃ e, (write buffer).outcome = .error e)
    (hok : ∀ buffer raw : Bytes, size ≤ buffer.length → encode = .ok raw →
      write buffer = ⟨.ok size, Bytes.overwrite raw buffer⟩)
    (herror : ∀ (buffer : Bytes) (e : WireError), size ≤ buffer.length → encode = .error e →
      (write buffer).outcome = .error e)
    (hlength : ∀ raw : Bytes, encode = .ok raw → raw.length = size)
    (hwritable : (∃ raw, encode = .ok raw) ↔ writable)
    (hne : ∀ needed actual, encode ≠ .error (.bufferTooShort needed actual)) :
    Writes write encode size writable := by
  have hiff (buffer : Bytes) :
      (∃ n, (write buffer).outcome = .ok n) ↔ writable ∧ size ≤ buffer.length := by
    rw [← hwritable]
    by_cases hl : size ≤ buffer.length
    · cases hraw : encode with
      | error e => simp [herror buffer e hl hraw]
      | ok raw => simp [hok buffer raw hl hraw, hl]
    · obtain ⟨e, he⟩ := hshort buffer (Nat.lt_of_not_le hl)
      simp [he, hl]
  refine ⟨hiff, fun {buffer n} h => ?_, ?_, hwritable, hne⟩
  · obtain ⟨hw, hl⟩ := (hiff buffer).mp ⟨n, h⟩
    obtain ⟨raw, hraw⟩ := hwritable.mpr hw
    have hwrite := hok buffer raw hl hraw
    have hn : size = n := by simpa [hwrite] using h
    have hlen := hlength raw hraw
    rw [hwrite, hraw, ← hlen, Bytes.take_overwrite, Bytes.drop_overwrite]
    exact ⟨hn.symm.trans hlen.symm, rfl, rfl⟩
  · have hl : size ≤ (List.replicate size (0 : UInt8)).length := by simp
    cases hraw : encode with
    | error e => rw [Written.bytes, herror _ e hl hraw, Except.map]
    | ok raw =>
      have hlen := hlength raw hraw
      simp [Written.bytes, hok _ raw hl hraw, Except.map, Bytes.overwrite, hlen]

namespace Packet.Header

/-- What the fields of the first byte and the length of an extension can hold. -/
def Writable (h : Header) : Prop :=
  h.csrcs.length ≤ 15 ∧
    (h.extended = true → h.extension.length % 4 = 0 ∧ h.extension.length / 4 ≤ 65535)

theorem fault_ne_bufferTooShort (h : Header) (needed actual : Nat) :
    h.fault ≠ some (.bufferTooShort needed actual) := by
  unfold fault
  split_ifs <;> simp

theorem writeTo_of_fault {h : Header} {e : WireError} (hf : h.fault = some e) (buffer : Bytes) :
    h.writeTo buffer = ⟨.error e, buffer⟩ := by
  simp only [writeTo, hf]

theorem writeTo_of_short {h : Header} {buffer : Bytes} (hf : h.fault = none)
    (hl : buffer.length < h.size) :
    h.writeTo buffer = ⟨.error (.bufferTooShort h.size buffer.length), buffer⟩ := by
  simp only [writeTo, hf, if_pos hl]

theorem storeFixed_eq (h : Header) (buffer : Bytes) :
    h.storeFixed buffer = Bytes.overwrite h.fixedBytes buffer := by
  rw [storeFixed, Bytes.store_zero, Bytes.store_overwrite (by rfl),
    Bytes.store_overwrite (by rfl), Bytes.store_overwrite (by rfl), Bytes.store_overwrite (by rfl)]
  rfl

theorem storeCsrcs_eq (csrcs : List UInt32) {offset : Nat} {done : Bytes}
    (h : done.length = offset) (buffer : Bytes) :
    storeCsrcs csrcs offset (Bytes.overwrite done buffer) =
      (offset + 4 * csrcs.length, Bytes.overwrite (done ++ Bytes.ofWords32 csrcs) buffer) := by
  induction csrcs generalizing offset done with
  | nil => simp [storeCsrcs, Bytes.ofWords32]
  | cons csrc csrcs ih =>
    have hdone : (done ++ Bytes.ofWord32 csrc).length = offset + 4 := by
      rw [List.length_append, h]
      rfl
    have hend : offset + 4 + 4 * csrcs.length = offset + 4 * (csrcs.length + 1) := by omega
    have hwords : Bytes.ofWords32 (csrc :: csrcs) =
        Bytes.ofWord32 csrc ++ Bytes.ofWords32 csrcs := rfl
    rw [storeCsrcs, Bytes.store_overwrite h, ih hdone, hend, hwords, List.length_cons,
      List.append_assoc]

theorem storeExtension_eq (h : Header) {offset : Nat} {done : Bytes} (hd : done.length = offset)
    (buffer : Bytes) :
    h.storeExtension offset (Bytes.overwrite done buffer) =
      (offset + h.extensionSize, Bytes.overwrite (done ++ h.extensionBytes) buffer) := by
  cases hx : h.extended with
  | false => simp [storeExtension, extensionSize, extensionBytes, hx]
  | true =>
    have hprofile : (done ++ Bytes.ofWord16 h.profile).length = offset + 2 := by
      rw [List.length_append, hd]
      rfl
    have hwords (count : UInt16) :
        (done ++ Bytes.ofWord16 h.profile ++ Bytes.ofWord16 count).length = offset + 4 := by
      rw [List.length_append, hprofile]
      rfl
    rw [storeExtension, if_pos hx, Bytes.store_overwrite hd, Bytes.store_overwrite hprofile,
      Bytes.store_overwrite (hwords _), extensionSize, if_pos hx, extensionBytes, if_pos hx,
      Nat.add_assoc, List.append_assoc, List.append_assoc, List.append_assoc]

/-- The offsets that the parts were stored at leave no gap between them. -/
theorem writeTo_of_room {h : Header} {buffer : Bytes} (hf : h.fault = none)
    (hl : h.size ≤ buffer.length) :
    h.writeTo buffer = ⟨.ok h.size, Bytes.overwrite h.bytes buffer⟩ := by
  have hfixed : h.fixedBytes.length = fixedSize := rfl
  have hlist : (h.fixedBytes ++ Bytes.ofWords32 h.csrcs).length =
      fixedSize + 4 * h.csrcs.length := by
    rw [List.length_append, hfixed, Bytes.length_ofWords32]
  simp only [writeTo, hf, if_neg (Nat.not_lt.mpr hl), storeFixed_eq, storeCsrcs_eq _ hfixed,
    storeExtension_eq _ hlist]
  rw [size, bytes]

/-- No store goes past the end, which would have made the buffer longer. -/
theorem length_writeTo (h : Header) (buffer : Bytes) :
    (h.writeTo buffer).buffer.length = buffer.length := by
  cases hf : h.fault with
  | some e => rw [writeTo_of_fault hf]
  | none =>
    by_cases hl : h.size ≤ buffer.length
    · rw [writeTo_of_room hf hl, Bytes.length_overwrite (h.length_bytes.symm ▸ hl)]
    · rw [writeTo_of_short hf (Nat.lt_of_not_le hl)]

theorem encode_eq_ok_iff {h : Header} {raw : Bytes} :
    h.encode = .ok raw ↔ h.fault = none ∧ h.bytes = raw := by
  cases hf : h.fault <;> simp [encode, hf]

theorem encode_eq_error_iff {h : Header} {e : WireError} :
    h.encode = .error e ↔ h.fault = some e := by
  cases hf : h.fault <;> simp [encode, hf]

theorem writes (h : Header) : Writes h.writeTo h.encode h.size h.Writable := by
  apply Writes.of_room
  · intro buffer hl
    cases hf : h.fault with
    | some e => exact ⟨e, by rw [writeTo_of_fault hf]⟩
    | none => exact ⟨.bufferTooShort h.size buffer.length, by rw [writeTo_of_short hf hl]⟩
  · intro buffer raw hl hraw
    obtain ⟨hf, rfl⟩ := encode_eq_ok_iff.mp hraw
    exact writeTo_of_room hf hl
  · intro buffer e _ he
    rw [writeTo_of_fault (encode_eq_error_iff.mp he)]
  · intro raw hraw
    obtain ⟨-, rfl⟩ := encode_eq_ok_iff.mp hraw
    exact h.length_bytes
  · simp only [encode_eq_ok_iff, exists_and_left, exists_eq', and_true]
    exact fault_eq_none_iff
  · intro needed actual he
    exact h.fault_ne_bufferTooShort needed actual (encode_eq_error_iff.mp he)

end Packet.Header

namespace Packet.Trailer

theorem size_le_maxSize_iff {t : Trailer} : t.size ≤ maxSize ↔ t.fill.length ≤ 254 := by
  unfold size maxSize
  split_ifs with hfill
  · simp [hfill]
  · omega

theorem encode_eq_ok_iff {t : Trailer} {raw : Bytes} :
    t.encode = .ok raw ↔ t.size ≤ maxSize ∧ t.bytes = raw := by
  by_cases h : maxSize < t.size
  · simp [encode, h, Nat.not_le.mpr h]
  · simp [encode, h, Nat.not_lt.mp h]

theorem encode_eq_error_iff {t : Trailer} {e : WireError} :
    t.encode = .error e ↔ maxSize < t.size ∧ .paddingTooLong t.size = e := by
  by_cases h : maxSize < t.size <;> simp [encode, h]

theorem writeTo_of_room {t : Trailer} {buffer : Bytes} (h : t.size ≤ maxSize)
    (hl : t.size ≤ buffer.length) :
    t.writeTo buffer = ⟨.ok t.size, Bytes.overwrite t.bytes buffer⟩ := by
  rw [writeTo, if_neg (Nat.not_lt.mpr h)]
  by_cases hfill : t.fill = []
  · have hsize : t.size = 0 := if_pos hfill
    rw [if_pos hsize, hsize, bytes, if_pos hfill, Bytes.overwrite_nil]
  · have hsize : t.size = t.fill.length + 1 := if_neg hfill
    have hcount : t.fill.length = t.size - 1 := by omega
    rw [if_neg (by omega), if_neg (Nat.not_lt.mpr hl), Bytes.store_zero,
      Bytes.store_overwrite hcount, bytes, if_neg hfill]

theorem writeTo_of_lt_size {t : Trailer} (h : maxSize < t.size) (buffer : Bytes) :
    t.writeTo buffer = ⟨.error (.paddingTooLong t.size), buffer⟩ := by
  rw [writeTo, if_pos h]

theorem writeTo_of_short {t : Trailer} {buffer : Bytes} (h : t.size ≤ maxSize)
    (hl : buffer.length < t.size) :
    t.writeTo buffer = ⟨.error (.bufferTooShort t.size buffer.length), buffer⟩ := by
  rw [writeTo, if_neg (Nat.not_lt.mpr h), if_neg (Nat.ne_of_gt (Nat.zero_lt_of_lt hl)), if_pos hl]

theorem length_writeTo (t : Trailer) (buffer : Bytes) :
    (t.writeTo buffer).buffer.length = buffer.length := by
  by_cases h : t.size ≤ maxSize
  · by_cases hl : t.size ≤ buffer.length
    · rw [writeTo_of_room h hl, Bytes.length_overwrite (t.length_bytes.symm ▸ hl)]
    · rw [writeTo_of_short h (Nat.lt_of_not_le hl)]
  · rw [writeTo_of_lt_size (Nat.lt_of_not_le h)]

theorem writes (t : Trailer) : Writes t.writeTo t.encode t.size (t.fill.length ≤ 254) := by
  apply Writes.of_room
  · intro buffer hl
    by_cases h : t.size ≤ maxSize
    · exact ⟨.bufferTooShort t.size buffer.length, by rw [writeTo_of_short h hl]⟩
    · exact ⟨.paddingTooLong t.size, by rw [writeTo_of_lt_size (Nat.lt_of_not_le h)]⟩
  · intro buffer raw hl hraw
    obtain ⟨h, rfl⟩ := encode_eq_ok_iff.mp hraw
    exact writeTo_of_room h hl
  · intro buffer e _ he
    obtain ⟨h, rfl⟩ := encode_eq_error_iff.mp he
    rw [writeTo_of_lt_size h]
  · intro raw hraw
    obtain ⟨-, rfl⟩ := encode_eq_ok_iff.mp hraw
    exact t.length_bytes
  · simp only [encode_eq_ok_iff, exists_and_left, exists_eq', and_true]
    exact size_le_maxSize_iff
  · intro needed actual he
    exact nomatch (encode_eq_error_iff.mp he).2

end Packet.Trailer

namespace Packet

def Writable (p : Packet) : Prop :=
  p.header.Writable ∧ (p.header.padded = true → p.trailer.fill.length ≤ 254)

def front (p : Packet) : Bytes := p.header.bytes ++ p.payload

theorem length_front (p : Packet) : p.front.length = p.header.size + p.payload.length := by
  rw [front, List.length_append, Header.length_bytes]

theorem length_front_add (p : Packet) : p.front.length + p.paddingSize = p.size := by
  rw [length_front, size]

theorem paddingSize_le_length_drop {p : Packet} {buffer : Bytes} (hl : p.size ≤ buffer.length) :
    p.paddingSize ≤ (buffer.drop p.front.length).length := by
  have hsize := p.length_front_add
  rw [List.length_drop]
  omega

theorem encode_eq_error_iff {p : Packet} {e : WireError} :
    p.encode = .error e ↔ p.header.fault = some e ∨ p.header.fault = none ∧
      p.header.padded = true ∧ 254 < p.trailer.fill.length ∧
        .paddingTooLong (p.trailer.fill.length + 1) = e := by
  have hmax : Trailer.maxSize < p.trailer.fill.length + 1 ↔ 254 < p.trailer.fill.length := by
    rw [Trailer.maxSize]
    omega
  rw [← hmax, encode, Header.encode, paddingBytes_eq]
  cases hf : p.header.fault with
  | some e' => simp [bind, Except.bind]
  | none =>
    by_cases hp : p.header.padded = true ∧ Trailer.maxSize < p.trailer.fill.length + 1
    · simp [bind, Except.bind, hp]
    · rw [if_neg hp]
      simp only [bind, Except.bind, reduceCtorEq, false_or, true_and, false_iff, ← and_assoc]
      exact fun h => hp h.1

theorem writePadding_of_fits {p : Packet} {rest : Bytes}
    (hf : p.header.padded = true → p.trailer.fill.length ≤ 254)
    (hl : p.paddingSize ≤ rest.length) :
    p.writePadding rest = ⟨.ok p.paddingSize, Bytes.overwrite p.ending rest⟩ := by
  cases hp : p.header.padded with
  | false => simp [writePadding, paddingSize, ending, hp, Bytes.overwrite_nil]
  | true =>
    have hsize := Trailer.size_le_maxSize_iff.mpr (hf hp)
    have hmax : p.paddingSize = max p.trailer.size 1 := by rw [paddingSize, if_pos hp]
    have hroom : p.trailer.size ≤ rest.length := by omega
    rw [writePadding, if_pos hp, Trailer.writeTo_of_room hsize hroom, hmax, ending, if_pos hp]
    -- A trailer without fill has written nothing, so that the bare count is still missing.
    by_cases hfill : p.trailer.fill = []
    · simp [Trailer.size, Trailer.bytes, Trailer.counted, hfill, Bytes.overwrite_nil]
    · simp [Trailer.size, Trailer.bytes, Trailer.counted, hfill]

theorem writePadding_of_overflow {p : Packet} (hp : p.header.padded = true)
    (hlt : 254 < p.trailer.fill.length) (rest : Bytes) :
    p.writePadding rest = ⟨.error (.paddingTooLong (p.trailer.fill.length + 1)), rest⟩ := by
  have hfill : p.trailer.fill ≠ [] := List.ne_nil_of_length_pos (by omega)
  have hsize : p.trailer.size = p.trailer.fill.length + 1 := by rw [Trailer.size, if_neg hfill]
  have hmax : Trailer.maxSize < p.trailer.size := by
    rw [hsize, Trailer.maxSize]
    omega
  rw [writePadding, if_pos hp, Trailer.writeTo_of_lt_size hmax, hsize]

theorem length_writePadding {p : Packet} {rest : Bytes} (hl : p.paddingSize ≤ rest.length) :
    (p.writePadding rest).buffer.length = rest.length := by
  by_cases h : p.header.padded = true ∧ 254 < p.trailer.fill.length
  · rw [writePadding_of_overflow h.1 h.2]
  · have hf : p.header.padded = true → p.trailer.fill.length ≤ 254 :=
      fun hp => Nat.not_lt.mp fun hlt => h ⟨hp, hlt⟩
    rw [writePadding_of_fits hf hl, Bytes.length_overwrite (p.length_ending.symm ▸ hl)]

theorem writeTo_of_short {p : Packet} {buffer : Bytes} (h : buffer.length < p.size) :
    p.writeTo buffer = ⟨.error (.bufferTooShort p.size buffer.length), buffer⟩ := by
  rw [writeTo, if_pos h]

theorem writeTo_of_fault {p : Packet} {buffer : Bytes} {e : WireError}
    (hl : p.size ≤ buffer.length) (hf : p.header.fault = some e) :
    p.writeTo buffer = ⟨.error e, buffer⟩ := by
  rw [writeTo, if_neg (Nat.not_lt.mpr hl), Header.writeTo_of_fault hf]

/-- The padding goes into what the header and the payload have left of the buffer. -/
theorem writeTo_of_header {p : Packet} {buffer : Bytes} (hl : p.size ≤ buffer.length)
    (hf : p.header.fault = none) :
    p.writeTo buffer =
      ⟨(p.writePadding (buffer.drop p.front.length)).outcome.map (p.front.length + ·),
        p.front ++ (p.writePadding (buffer.drop p.front.length)).buffer⟩ := by
  have hheader : p.header.size ≤ buffer.length := by
    rw [size] at hl
    omega
  have hfront : p.header.bytes ++ p.payload = p.front := rfl
  rw [writeTo, if_neg (Nat.not_lt.mpr hl), Header.writeTo_of_room hf hheader]
  simp only [Bytes.store_overwrite p.header.length_bytes, hfront, ← length_front,
    Bytes.take_overwrite, Bytes.drop_overwrite]

theorem length_writeTo (p : Packet) (buffer : Bytes) :
    (p.writeTo buffer).buffer.length = buffer.length := by
  by_cases hl : p.size ≤ buffer.length
  · cases hf : p.header.fault with
    | some e => rw [writeTo_of_fault hl hf]
    | none =>
      have hsize := p.length_front_add
      rw [writeTo_of_header hl hf, List.length_append,
        length_writePadding (paddingSize_le_length_drop hl), List.length_drop]
      omega
  · rw [writeTo_of_short (Nat.lt_of_not_le hl)]

theorem writeTo_of_encode {p : Packet} {buffer raw : Bytes} (hl : p.size ≤ buffer.length)
    (hraw : p.encode = .ok raw) : p.writeTo buffer = ⟨.ok p.size, Bytes.overwrite raw buffer⟩ := by
  obtain ⟨hf, hfits, rfl⟩ := encode_eq_ok_iff.mp hraw
  have hfill : p.header.padded = true → p.trailer.fill.length ≤ 254 :=
    fun hp => Nat.le_of_succ_le_succ (hfits hp)
  rw [writeTo_of_header hl hf, writePadding_of_fits hfill (paddingSize_le_length_drop hl), ← front,
    Bytes.overwrite_append]
  simp only [Except.map, length_front_add]

theorem writeTo_of_encode_error {p : Packet} {buffer : Bytes} {e : WireError}
    (hl : p.size ≤ buffer.length) (he : p.encode = .error e) :
    (p.writeTo buffer).outcome = .error e := by
  rcases encode_eq_error_iff.mp he with hf | ⟨hf, hp, hlt, rfl⟩
  · rw [writeTo_of_fault hl hf]
  · rw [writeTo_of_header hl hf, writePadding_of_overflow hp hlt]
    rfl

theorem writes (p : Packet) : Writes p.writeTo p.encode p.size p.Writable := by
  apply Writes.of_room
  · intro buffer hl
    exact ⟨.bufferTooShort p.size buffer.length, by rw [writeTo_of_short hl]⟩
  · intro buffer raw hl hraw
    exact writeTo_of_encode hl hraw
  · intro buffer e hl he
    exact writeTo_of_encode_error hl he
  · intro raw hraw
    exact length_of_encode_eq_ok hraw
  · simp only [encode_eq_ok_iff, exists_and_left, exists_eq', and_true]
    exact and_congr Header.fault_eq_none_iff (imp_congr_right fun _ => Nat.succ_le_succ_iff)
  · intro needed actual he
    rcases encode_eq_error_iff.mp he with hf | ⟨-, -, -, hpad⟩
    · exact p.header.fault_ne_bufferTooShort needed actual hf
    · exact nomatch hpad

/-- Packets, headers and trailers are written alike, each on its own conditions. -/
theorem writeTo_encode :
    (∀ p : Packet, Writes p.writeTo p.encode p.size p.Writable) ∧
      (∀ h : Header, Writes h.writeTo h.encode h.size h.Writable) ∧
        ∀ t : Trailer, Writes t.writeTo t.encode t.size (t.fill.length ≤ 254) :=
  ⟨writes, Header.writes, Trailer.writes⟩

/-- Zeros that a packet ends with replace what stood there, and the count of an empty trailer
is the last byte that is written. -/
theorem writeTo_encode_staleBuffer :
    let p : Packet := { header := { version := 2, padded := true }, payload := [9, 0] }
    let written := p.writeTo (List.replicate 17 255)
    written.outcome = .ok 15 ∧ p.encode = .ok (written.buffer.take 15) ∧
      written.buffer.drop 15 = [255, 255] := by
  intro p written
  have h : written.outcome = .ok 15 := by rfl
  obtain ⟨-, hencode, hdrop⟩ := (writeTo_encode.1 p).written h
  exact ⟨h, hencode, hdrop⟩

end Packet

end NalTransport
