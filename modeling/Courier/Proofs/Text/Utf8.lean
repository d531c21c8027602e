import Courier.Proofs.Wire.Line

/-! # Text as bytes

The bytes of a text are those of its characters in order, they spell the text they were made from,
and an end of line among them is one in the text.
-/

namespace Courier.Bytes

open Wire

theorem ofText_ofList (cs : List Char) :
    ofText (String.ofList cs) = cs.flatMap String.utf8EncodeChar := by
  unfold ofText
  rw [String.toUTF8_eq_toByteArray, String.toByteArray_ofList, List.utf8Encode,
    List.toList_data_toByteArray]

theorem ofText_eq (s : String) : ofText s = s.toList.flatMap String.utf8EncodeChar := by
  rw [← ofText_ofList, String.ofList_toList]

@[simp]
theorem ofText_append (s t : String) : ofText (s ++ t) = ofText s ++ ofText t := by
  rw [ofText_eq, ofText_eq, ofText_eq, String.toList_append, List.flatMap_append]

theorem ofText_join (texts : List String) : ofText (String.join texts) = texts.flatMap ofText := by
  induction texts with
  | nil => rfl
  | cons s texts ih => rw [String.join_cons, ofText_append, ih, List.flatMap_cons]

@[simp]
theorem text?_ofText (s : String) : text? (ofText s) = some s := by
  have ha : (⟨(ofText s).toArray⟩ : ByteArray) = s.toByteArray := by
    unfold ofText
    rw [String.toUTF8_eq_toByteArray, Array.toArray_toList]
  unfold text?
  rw [ha, String.fromUTF8?, dif_pos s.isValidUTF8]
  rfl

theorem text?_eq_some_iff {b : Bytes} {s : String} : text? b = some s ↔ b = ofText s := by
  refine ⟨fun h => ?_, fun h => h ▸ text?_ofText s⟩
  unfold text? String.fromUTF8? at h
  split at h
  · cases h
    rfl
  · cases h

theorem utf8EncodeChar_cases (c : Char) :
    (String.utf8EncodeChar c = [UInt8.ofNat c.toNat] ∧ c.toNat < 128) ∨
      ∀ b ∈ String.utf8EncodeChar c, 128 ≤ b := by
  unfold String.utf8EncodeChar
  dsimp only
  split
  · rename_i h
    exact .inl ⟨rfl, Nat.lt_succ_of_le h⟩
  · refine .inr fun b hb => ?_
    have : 128 ≤ b.toNat := by
      split at hb
      · simp only [List.mem_cons, List.not_mem_nil, or_false] at hb
        rcases hb with rfl | rfl <;> simp only [UInt8.toNat_ofNat'] <;> omega
      · split at hb
        · simp only [List.mem_cons, List.not_mem_nil, or_false] at hb
          rcases hb with rfl | rfl | rfl <;> simp only [UInt8.toNat_ofNat'] <;> omega
        · simp only [List.mem_cons, List.not_mem_nil, or_false] at hb
          rcases hb with rfl | rfl | rfl | rfl <;> simp only [UInt8.toNat_ofNat'] <;> omega
    exact UInt8.le_iff_toNat_le.mpr this

theorem cons_prefix_flatMap {b : UInt8} (hb : b < 128) {bs : Bytes} {cs : List Char}
    (h : b :: bs <+: cs.flatMap String.utf8EncodeChar) :
    ∃ ds, cs = Char.ofNat b.toNat :: ds ∧ bs <+: ds.flatMap String.utf8EncodeChar := by
  cases cs with
  | nil => exact absurd (List.prefix_nil.mp h) (List.cons_ne_nil _ _)
  | cons c ds =>
    rw [List.flatMap_cons] at h
    rcases utf8EncodeChar_cases c with ⟨hc, hlt⟩ | hc
    · rw [hc, List.singleton_append] at h
      obtain ⟨rfl, ht⟩ := List.cons_prefix_cons.mp h
      have hn : (UInt8.ofNat c.toNat).toNat = c.toNat := by
        rw [UInt8.toNat_ofNat']
        omega
      rw [hn, Char.ofNat_toNat]
      exact ⟨ds, rfl, ht⟩
    · cases hl : String.utf8EncodeChar c with
      | nil => exact absurd hl (List.ne_nil_of_length_pos (by
          rw [String.length_utf8EncodeChar]
          exact c.utf8Size_pos))
      | cons d l =>
        rw [hl, List.cons_append] at h
        obtain ⟨rfl, -⟩ := List.cons_prefix_cons.mp h
        have hle : 128 ≤ b := hc b (hl ▸ List.mem_cons_self)
        exact absurd hb (UInt8.not_lt.mpr hle)

theorem infix_of_not_mem {b : UInt8} {bs l r : Bytes} (hl : b ∉ l) (h : b :: bs <:+: l ++ r) :
    b :: bs <:+: r := by
  induction l with
  | nil => exact h
  | cons x l ih =>
    have hx : b ≠ x := fun hx => hl (hx ▸ List.mem_cons_self)
    rcases List.infix_cons_iff.mp h with hp | hi
    · exact absurd (List.cons_prefix_cons.mp hp).1 hx
    · exact ih (fun hm => hl (List.mem_cons_of_mem _ hm)) hi

theorem crlf_not_infix {s : String} (h : OneLine s.toList) : ¬ crlf <:+: ofText s := by
  rw [ofText_eq]
  generalize s.toList = cs at h
  induction cs with
  | nil => exact fun hi => absurd (List.infix_nil.mp hi) (by decide)
  | cons c cs ih =>
    intro hi
    by_cases hp : crlf <+: (c :: cs).flatMap String.utf8EncodeChar
    · obtain ⟨ds, hc, hp⟩ := cons_prefix_flatMap (by decide) hp
      obtain ⟨es, rfl, -⟩ := cons_prefix_flatMap (by decide) hp
      rw [hc] at h
      exact h (List.prefix_append ['\r', '\n'] es).isInfix
    · refine ih h.tail ?_
      rw [List.flatMap_cons] at hi hp
      rcases utf8EncodeChar_cases c with ⟨hc, -⟩ | hc
      · rw [hc, List.singleton_append] at hi hp
        exact (List.infix_cons_iff.mp hi).resolve_left hp
      · exact infix_of_not_mem (fun hm => absurd (hc 13 hm) (by decide)) hi

end Courier.Bytes
