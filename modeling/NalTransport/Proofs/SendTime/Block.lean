import Mathlib.Data.List.Basic
import Mathlib.Data.Nat.Digits.Defs
import NalTransport.SendTime.Block
import NalTransport.SendTime.Element

/-! Search in a block that is known by what it lists. An item in front either is what is
looked for or makes no difference, and nothing is found behind the last item. -/

namespace NalTransport

/-- The number with these bytes as digits, the most significant first. -/
def Bytes.bigEndian (data : Bytes) : Nat := Nat.ofDigits 256 (data.reverse.map UInt8.toNat)

theorem Bytes.toNat_word32_zero (a b c : UInt8) :
    (word32 0 a b c).toNat = bigEndian [a, b, c] := by
  have ha := a.toNat_lt
  have hb := b.toNat_lt
  have hc := c.toNat_lt
  have hvalue : bigEndian [a, b, c] = c.toNat + 256 * (b.toNat + 256 * (a.toNat + 256 * 0)) := rfl
  have hzero : (0 : UInt8).toNat = 0 := rfl
  rw [hvalue, word32, hzero, UInt32.toNat_ofNat']
  omega

theorem elementData_nil (id : UInt8) (length : Nat) : elementData id length [] = none := by
  rw [elementData]

theorem elementData_zero_cons (id : UInt8) (length : Nat) (rest : Bytes) :
    elementData id length (0 :: rest) = elementData id length rest := by
  rw [elementData, if_pos rfl]

theorem elementData_cons_append {head : UInt8} {data : Bytes} (hz : head ≠ 0)
    (hr : head / 16 ≠ 15) (hd : data.length = (head % 16).toNat + 1) (id : UInt8) (length : Nat)
    (rest : Bytes) :
    elementData id length (head :: (data ++ rest)) =
      if head / 16 = id ∧ data.length = length then some data
      else elementData id length rest := by
  rw [elementData, if_neg hz]
  simp only [← hd, hr, false_or, List.take_left, List.drop_left, Nat.lt_irrefl, if_false]

theorem elementData_of_blockEnd {rest : Bytes} (h : BlockEnd rest) (id : UInt8) (length : Nat) :
    elementData id length rest = none := by
  cases h with
  | nothing => exact elementData_nil id length
  | reserved head rest hr =>
    have hz : head ≠ 0 := by
      rintro rfl
      exact absurd hr (by decide)
    rw [elementData, if_neg hz]
    exact if_pos (.inl hr)
  | cut head rest hz hlt =>
    have hshort : (rest.take ((head % 16).toNat + 1)).length < (head % 16).toNat + 1 := by
      rw [List.length_take]
      omega
    rw [elementData, if_neg hz]
    exact if_pos (.inr hshort)

namespace BlockItem

theorem head_bytes {id : UInt8} {n : Nat} (hid : 1 ≤ id ∧ id ≤ 14) (hn : 1 ≤ n ∧ n ≤ 16) :
    let head := id * 16 + UInt8.ofNat (n - 1)
    head ≠ 0 ∧ head / 16 = id ∧ head / 16 ≠ 15 ∧ n = (head % 16).toNat + 1 := by
  have hmin : 1 ≤ id.toNat := UInt8.le_iff_toNat_le.mp hid.1
  have hmax : id.toNat ≤ 14 := UInt8.le_iff_toNat_le.mp hid.2
  intro head
  have hhead : head.toNat = id.toNat * 16 + (n - 1) := by
    simp only [head, UInt8.toNat_add, UInt8.toNat_mul, UInt8.toNat_ofNat', UInt8.reduceToNat]
    omega
  have hdiv : (head / 16).toNat = id.toNat := by
    simp only [UInt8.toNat_div, UInt8.reduceToNat, hhead]
    omega
  have hmod : (head % 16).toNat = n - 1 := by
    simp only [UInt8.toNat_mod, UInt8.reduceToNat, hhead]
    omega
  have hz : head ≠ 0 := fun h => by
    rw [h] at hhead
    change 0 = _ at hhead
    omega
  have hr : head / 16 ≠ 15 := fun h => by
    rw [h] at hdiv
    change 15 = _ at hdiv
    omega
  exact ⟨hz, UInt8.toNat_inj.mp hdiv, hr, by omega⟩

theorem elementData_bytes_append {item : BlockItem} (h : item.WellFormed) (id : UInt8)
    (length : Nat) (rest : Bytes) :
    elementData id length (item.bytes ++ rest) =
      (item.data? id length).or (elementData id length rest) := by
  cases item with
  | gap => exact elementData_zero_cons id length rest
  | element i data =>
    obtain ⟨hmin, hmax, hlen⟩ := h
    obtain ⟨hz, hdiv, hr, hd⟩ := head_bytes ⟨hmin, hmax⟩ hlen
    rw [bytes, List.cons_append, elementData_cons_append hz hr hd, hdiv, data?]
    split <;> rfl

theorem elementData_flatMap_append {items : List BlockItem} (h : ∀ item ∈ items, item.WellFormed)
    (id : UInt8) (length : Nat) (rest : Bytes) :
    elementData id length (items.flatMap bytes ++ rest) =
      (items.findSome? (data? id length)).or (elementData id length rest) := by
  induction items with
  | nil => rfl
  | cons item items ih =>
    obtain ⟨hitem, hitems⟩ := List.forall_mem_cons.mp h
    rw [List.flatMap_cons, List.append_assoc, elementData_bytes_append hitem, ih hitems,
      List.findSome?_cons]
    cases item.data? id length <;> rfl

theorem length_of_findSome? {items : List BlockItem} {id : UInt8} {length : Nat} {data : Bytes}
    (h : items.findSome? (data? id length) = some data) : data.length = length := by
  obtain ⟨item, -, hitem⟩ := List.exists_of_findSome?_eq_some h
  cases item with
  | gap => cases hitem
  | element i found =>
    rw [data?] at hitem
    split at hitem
    · next hi =>
      cases hitem
      exact hi.2
    · cases hitem

end BlockItem

namespace Packet.Header

theorem sendTime?_eq_none {h : Header} (hx : h.extended = false ∨ h.profile ≠ oneByteProfile)
    (id : UInt8) : h.sendTime? id = none := by
  refine if_neg fun ⟨hextended, hprofile⟩ => ?_
  rcases hx with hx | hx
  · rw [hx] at hextended
    cases hextended
  · exact hx hprofile

theorem map_toNat_sendTime? {h : Header} (hx : h.extended = true)
    (hp : h.profile = oneByteProfile) {items : List BlockItem} {rest : Bytes}
    (hitems : ∀ item ∈ items, item.WellFormed) (hrest : BlockEnd rest)
    (he : h.extension = items.flatMap BlockItem.bytes ++ rest) (id : UInt8) :
    (h.sendTime? id).map UInt32.toNat =
      (items.findSome? (BlockItem.data? id sendTimeLength)).map Bytes.bigEndian := by
  have hsearch : elementData id sendTimeLength h.extension =
      items.findSome? (BlockItem.data? id sendTimeLength) := by
    rw [he, BlockItem.elementData_flatMap_append hitems, elementData_of_blockEnd hrest,
      Option.or_none]
  rw [sendTime?, if_pos ⟨hx, hp⟩, hsearch]
  cases hfound : items.findSome? (BlockItem.data? id sendTimeLength) with
  | none => rfl
  | some data =>
    obtain ⟨a, b, c, rfl⟩ := List.length_eq_three.mp (BlockItem.length_of_findSome? hfound)
    exact congrArg some (Bytes.toNat_word32_zero a b c)

/-- What is found in a block is the first element with the id and three bytes of data, whatever
else is listed before and behind it. -/
theorem sendTime?_first :
    (∀ (h : Header) (items : List BlockItem) (rest : Bytes),
      h.extended = true → h.profile = 0xbede → (∀ item ∈ items, item.WellFormed) →
      BlockEnd rest → h.extension = items.flatMap BlockItem.bytes ++ rest →
      ∀ id, (h.sendTime? id).map UInt32.toNat =
        (items.findSome? (BlockItem.data? id 3)).map Bytes.bigEndian) ∧
      ∀ h : Header, h.extended = false ∨ h.profile ≠ 0xbede → ∀ id, h.sendTime? id = none :=
  ⟨fun _ _ _ hx hp hitems hrest he => map_toNat_sendTime? hx hp hitems hrest he,
    fun _ => sendTime?_eq_none⟩

theorem sendTime?_first_shadowed :
    let items : List BlockItem :=
      [.element 1 [170], .gap, .element 3 [9, 9], .element 5 [0, 0, 0], .element 3 [1, 2, 3],
        .element 3 [4, 5, 6]]
    let h : Header :=
      { extended := true, profile := 0xbede
        extension := [16, 170, 0, 49, 9, 9, 82, 0, 0, 0, 50, 1, 2, 3, 50, 4, 5, 6, 240, 50, 7, 8, 9] }
    (∀ item ∈ items, item.WellFormed) ∧ BlockEnd [240, 50, 7, 8, 9] ∧
      (h.sendTime? 3).map UInt32.toNat = some 66051 ∧ (h.sendTime? 1).map UInt32.toNat = none ∧
      ({ h with extended := false } : Header).sendTime? 3 = none := by
  intro items h
  have hitems : ∀ item ∈ items, item.WellFormed := by decide
  have hrest : BlockEnd [240, 50, 7, 8, 9] := .reserved _ _ (by decide)
  have hfound := sendTime?_first.1 h items _ rfl rfl hitems hrest (by decide)
  exact ⟨hitems, hrest, hfound 3, hfound 1, sendTime?_first.2 _ (.inl rfl) 3⟩

end Packet.Header

end NalTransport
