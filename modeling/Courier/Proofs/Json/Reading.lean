import Courier.Json.Parser
import Courier.Proofs.Json.Lexemes

/-! # Values read back

What is written of a value is read as that value, if its strings have a reading and its numbers are
whole. The length of what is written bounds how deep the reading goes.
-/

namespace Courier.Json

mutual

/-- Every string has a reading and every number is whole. -/
def isExact : Json → Bool
  | number n => n.isWhole
  | string s => s.isSome
  | array items => itemsExact items
  | object members => membersExact members
  | _ => true

def itemsExact : List Json → Bool
  | [] => true
  | j :: js => isExact j && itemsExact js

def membersExact : List (Option String × Json) → Bool
  | [] => true
  | (name, j) :: ms => name.isSome && isExact j && membersExact ms

end

mutual

theorem isReadable_of_isExact : ∀ j : Json, j.isExact = true → j.isReadable = true
  | null, _ => rfl
  | bool _, _ => rfl
  | number n, h => by
    simp only [isExact, Numeral.isWhole, Bool.and_eq_true] at h
    exact h.1.2
  | string _, h => h
  | array items, h => itemsReadable_of_itemsExact items h
  | object members, h => membersReadable_of_membersExact members h

theorem itemsReadable_of_itemsExact :
    ∀ items : List Json, itemsExact items = true → itemsReadable items = true
  | [], _ => rfl
  | j :: js, h => by
    simp only [itemsExact, Bool.and_eq_true] at h
    simp only [itemsReadable, isReadable_of_isExact j h.1, itemsReadable_of_itemsExact js h.2,
      Bool.and_self]

theorem membersReadable_of_membersExact : ∀ members : List (Option String × Json),
    membersExact members = true → membersReadable members = true
  | [], _ => rfl
  | (name, j) :: ms, h => by
    simp only [membersExact, Bool.and_eq_true] at h
    simp only [membersReadable, h.1.1, isReadable_of_isExact j h.1.2,
      membersReadable_of_membersExact ms h.2, Bool.and_self]

end

/-! ## Where values begin -/

theorem skipBlank_cons {c : Char} (h : isBlank c = false) (cs : List Char) :
    skipBlank (c :: cs) = c :: cs :=
  List.dropWhile_cons_of_neg (by simp [h])

theorem writeNumber_head (n : Numeral) :
    ∃ c cs, writeNumber n = c :: cs ∧ (c = '-' ∨ c.isDigit = true) := by
  rw [writeNumber, toList_toString]
  cases n.negative with
  | true => exact ⟨_, _, rfl, .inl rfl⟩
  | false =>
    cases hd : Nat.toDigits 10 n.mantissa with
    | nil => exact absurd hd Nat.toDigits_ne_nil
    | cons d ds =>
      exact ⟨d, _, rfl, .inr (Nat.isDigit_of_mem_toDigits (by decide) (by decide)
        (hd ▸ List.mem_cons_self))⟩

theorem ne_of_sign_or_digit {c d : Char} (h : c = '-' ∨ c.isDigit = true) (hd : d.isDigit = false)
    (hsign : d ≠ '-') : c ≠ d := by
  rintro rfl
  rcases h with h | h
  · exact hsign h
  · rw [hd] at h
    cases h

theorem write_head (j : Json) :
    ∃ c cs, write j = c :: cs ∧ isBlank c = false ∧ c ≠ ']' ∧ c ≠ '\x7d' := by
  cases j with
  | null => exact ⟨_, _, rfl, by decide, by decide, by decide⟩
  | bool b => cases b <;> exact ⟨_, _, rfl, by decide, by decide, by decide⟩
  | string s => cases s <;> exact ⟨_, _, rfl, by decide, by decide, by decide⟩
  | array => exact ⟨_, _, rfl, by decide, by decide, by decide⟩
  | object => exact ⟨_, _, rfl, by decide, by decide, by decide⟩
  | number n =>
    obtain ⟨c, cs, hw, hc⟩ := writeNumber_head n
    have hne : ∀ d : Char, d.isDigit = false → d ≠ '-' → c ≠ d := fun _ => ne_of_sign_or_digit hc
    refine ⟨c, cs, hw, ?_, hne _ (by decide) (by decide), hne _ (by decide) (by decide)⟩
    simp only [isBlank, decide_eq_false (hne ' ' (by decide) (by decide)),
      decide_eq_false (hne '\n' (by decide) (by decide)),
      decide_eq_false (hne '\t' (by decide) (by decide)),
      decide_eq_false (hne '\r' (by decide) (by decide)), Bool.or_self]

theorem skipBlank_write (j : Json) (cs : List Char) :
    skipBlank (write j ++ cs) = write j ++ cs := by
  obtain ⟨c, ds, hw, hc, -⟩ := write_head j
  rw [hw, List.cons_append, skipBlank_cons hc]

/-! ## One value -/

theorem value?_number {n : Numeral} (hn : n.isWhole = true) {rest : List Char} (hr : Stops rest)
    (fuel : Nat) : value? (fuel + 1) (writeNumber n ++ rest) = some (number n, rest) := by
  have hread := number?_writeNumber hn hr
  obtain ⟨c, cs, hw, hc⟩ := writeNumber_head n
  have hne : ∀ d : Char, d.isDigit = false → d ≠ '-' → c ≠ d := fun _ => ne_of_sign_or_digit hc
  rw [hw, List.cons_append] at hread ⊢
  unfold value?
  split
  case h_7 =>
    rw [hread]
    rfl
  all_goals
    rename_i heq
    exact absurd (List.cons.inj heq).1 (hne _ (by decide) (by decide))

theorem value?_array {fuel : Nat} {c : Char} {cs rest : List Char} {items : List Json}
    (hb : isBlank c = false) (hc : c ≠ ']') (h : items? fuel (c :: cs) = some (items, rest)) :
    value? (fuel + 1) ('[' :: c :: cs) = some (array items, rest) := by
  rw [value?, skipBlank_cons hb]
  split
  · rename_i heq
    exact absurd (List.cons.inj heq).1 hc
  · rw [h]
    rfl

theorem value?_object {fuel : Nat} {c : Char} {cs rest : List Char}
    {members : List (Option String × Json)} (hb : isBlank c = false) (hc : c ≠ '\x7d')
    (h : members? fuel (c :: cs) = some (members, rest)) :
    value? (fuel + 1) ('\x7b' :: c :: cs) = some (object members, rest) := by
  rw [value?, skipBlank_cons hb]
  split
  · rename_i heq
    exact absurd (List.cons.inj heq).1 hc
  · rw [h]
    rfl

theorem writeString_some (s : String) :
    writeString (some s) = '"' :: (s.toList.flatMap escape ++ ['"']) :=
  rfl

theorem writeString_append (s : String) (cs : List Char) :
    writeString (some s) ++ cs = '"' :: (s.toList.flatMap escape ++ '"' :: cs) := by
  rw [writeString_some, List.cons_append, List.append_assoc]
  rfl

theorem writeItems_cons {j : Json} {js : List Json} (hne : js ≠ []) :
    writeItems (j :: js) = write j ++ ',' :: writeItems js := by
  cases js with
  | nil => contradiction
  | cons => rfl

theorem writeMembers_cons {m : Option String × Json} {ms : List (Option String × Json)}
    (hne : ms ≠ []) :
    writeMembers (m :: ms) =
      writeString m.1 ++ ':' :: (write m.2 ++ ',' :: writeMembers ms) := by
  cases ms with
  | nil => contradiction
  | cons => rfl

theorem writeItems_head {items : List Json} (hne : items ≠ []) :
    ∃ c cs, writeItems items = c :: cs ∧ isBlank c = false ∧ c ≠ ']' := by
  obtain ⟨j, js, rfl⟩ := List.exists_cons_of_ne_nil hne
  obtain ⟨c, cs, hw, hb, hc, -⟩ := write_head j
  cases js with
  | nil => exact ⟨c, cs, hw, hb, hc⟩
  | cons => exact ⟨c, _, by rw [writeItems_cons (List.cons_ne_nil _ _), hw]; rfl, hb, hc⟩

theorem writeMembers_head {members : List (Option String × Json)} (hne : members ≠ []) :
    ∃ cs, writeMembers members = '"' :: cs := by
  obtain ⟨⟨name, j⟩, ms, rfl⟩ := List.exists_cons_of_ne_nil hne
  cases ms <;> cases name <;> exact ⟨_, rfl⟩

/-! ## Items and members in turn -/

section Turns

variable {fuel : Nat} {cs rest : List Char} {item : Json} {items : List Json}
  {members : List (Option String × Json)}

theorem items?_last (h : value? fuel cs = some (item, ']' :: rest)) :
    items? (fuel + 1) cs = some ([item], rest) := by
  rw [items?, h]
  rfl

theorem items?_more {js : List Json} (hne : js ≠ [])
    (h : value? fuel cs = some (item, ',' :: (writeItems js ++ rest))) :
    items? (fuel + 1) cs =
      (items? fuel (writeItems js ++ rest)).map fun (items, rest) => (item :: items, rest) := by
  obtain ⟨c, ds, hw, hb, -⟩ := writeItems_head hne
  have hcomma : isBlank ',' = false := rfl
  rw [items?, h]
  simp only [hw, List.cons_append, skipBlank_cons hcomma, skipBlank_cons hb]

theorem members?_last (name : String) (h : value? fuel cs = some (item, '\x7d' :: rest))
    (hb : skipBlank cs = cs) :
    members? (fuel + 1) (writeString (some name) ++ ':' :: cs) =
      some ([(some name, item)], rest) := by
  have hcolon : isBlank ':' = false := rfl
  rw [writeString_append, members?, string?_writeString]
  simp only [skipBlank_cons hcolon, hb, h]
  rfl

theorem members?_more (name : String) {ms : List (Option String × Json)} (hne : ms ≠ [])
    (h : value? fuel cs = some (item, ',' :: (writeMembers ms ++ rest))) (hb : skipBlank cs = cs) :
    members? (fuel + 1) (writeString (some name) ++ ':' :: cs) =
      (members? fuel (writeMembers ms ++ rest)).map fun (members, rest) =>
        ((some name, item) :: members, rest) := by
  obtain ⟨ds, hw⟩ := writeMembers_head hne
  have hcolon : isBlank ':' = false := rfl
  have hcomma : isBlank ',' = false := rfl
  have hquote : isBlank '"' = false := rfl
  rw [writeString_append, members?, string?_writeString]
  simp only [skipBlank_cons hcolon, hb, h, skipBlank_cons hcomma, hw, List.cons_append,
    skipBlank_cons hquote]

end Turns

/-! ## Reading -/

theorem stops_comma (cs : List Char) : Stops (',' :: cs) :=
  stops_cons (by decide) (by decide) (by decide) (by decide) cs

theorem stops_bracket (cs : List Char) : Stops (']' :: cs) :=
  stops_cons (by decide) (by decide) (by decide) (by decide) cs

theorem stops_brace (cs : List Char) : Stops ('\x7d' :: cs) :=
  stops_cons (by decide) (by decide) (by decide) (by decide) cs

mutual

theorem value?_write : ∀ (j : Json) (_ : j.isExact = true) {fuel : Nat}
    (_ : (write j).length < fuel) {rest : List Char} (_ : Stops rest),
    value? fuel (write j ++ rest) = some (j, rest)
  | _, _, 0, hf, _, _ => absurd hf (Nat.not_lt_zero _)
  | null, _, fuel + 1, _, rest, _ => rfl
  | bool true, _, fuel + 1, _, rest, _ => rfl
  | bool false, _, fuel + 1, _, rest, _ => rfl
  | number n, hj, fuel + 1, _, rest, hr => value?_number hj hr fuel
  | string none, hj, _, _, _, _ => by cases hj
  | string (some s), _, fuel + 1, _, rest, _ => by
    rw [write, writeString_append, value?, string?_writeString]
    rfl
  | array [], _, fuel + 1, _, rest, _ => rfl
  | array (j :: js), hj, fuel + 1, hf, rest, _ => by
    have hne := List.cons_ne_nil j js
    have hlength : (writeItems (j :: js)).length + 1 < fuel := by
      simp only [write, List.cons_append, List.length_cons, List.length_append, List.length_nil]
        at hf
      omega
    have hitems := items?_writeItems (j :: js) hne hj hlength rest
    obtain ⟨c, cs, hw, hb, hc⟩ := writeItems_head hne
    rw [hw, List.cons_append] at hitems
    rw [write, List.cons_append, List.cons_append, List.append_assoc, hw]
    exact value?_array hb hc hitems
  | object [], _, fuel + 1, _, rest, _ => rfl
  | object (m :: ms), hj, fuel + 1, hf, rest, _ => by
    have hne := List.cons_ne_nil m ms
    have hlength : (writeMembers (m :: ms)).length + 1 < fuel := by
      simp only [write, List.cons_append, List.length_cons, List.length_append, List.length_nil]
        at hf
      omega
    have hmembers := members?_writeMembers (m :: ms) hne hj hlength rest
    obtain ⟨cs, hw⟩ := writeMembers_head hne
    rw [hw, List.cons_append] at hmembers
    rw [write, List.cons_append, List.cons_append, List.append_assoc, hw]
    exact value?_object (by decide) (by decide) hmembers

theorem items?_writeItems : ∀ (items : List Json) (_ : items ≠ []) (_ : itemsExact items = true)
    {fuel : Nat} (_ : (writeItems items).length + 1 < fuel) (rest : List Char),
    items? fuel (writeItems items ++ ']' :: rest) = some (items, rest)
  | [], hne, _, _, _, _ => absurd rfl hne
  | _, _, _, 0, hf, _ => absurd hf (Nat.not_lt_zero _)
  | [j], _, h, fuel + 1, hf, rest => by
    simp only [itemsExact, Bool.and_true] at h
    exact items?_last (value?_write j h (by simp only [writeItems] at hf; omega) (stops_bracket _))
  | j :: k :: js, _, h, fuel + 1, hf, rest => by
    have hne := List.cons_ne_nil k js
    have hexact := Bool.and_eq_true_iff.mp h
    rw [writeItems_cons hne, List.length_append, List.length_cons] at hf
    have hlength : (write j).length < fuel := by omega
    have hj := value?_write j hexact.1 hlength (stops_comma (writeItems (k :: js) ++ ']' :: rest))
    rw [writeItems_cons hne, List.append_assoc, List.cons_append, items?_more hne hj,
      items?_writeItems (k :: js) hne hexact.2 (by omega) rest]
    rfl

theorem members?_writeMembers : ∀ (members : List (Option String × Json)) (_ : members ≠ [])
    (_ : membersExact members = true) {fuel : Nat} (_ : (writeMembers members).length + 1 < fuel)
    (rest : List Char),
    members? fuel (writeMembers members ++ '\x7d' :: rest) = some (members, rest)
  | [], hne, _, _, _, _ => absurd rfl hne
  | _, _, _, 0, hf, _ => absurd hf (Nat.not_lt_zero _)
  | (none, _) :: _, _, h, _, _, _ => by cases h
  | [(some name, j)], _, h, fuel + 1, hf, rest => by
    simp only [membersExact, Option.isSome_some, Bool.true_and, Bool.and_true] at h
    simp only [writeMembers, List.length_append, List.length_cons] at hf
    have hlength : (write j).length < fuel := by omega
    have hj := value?_write j h hlength (stops_brace rest)
    rw [writeMembers, List.append_assoc, List.cons_append]
    exact members?_last name hj (skipBlank_write j _)
  | (some name, j) :: m :: ms, _, h, fuel + 1, hf, rest => by
    have hne := List.cons_ne_nil m ms
    have hexact := Bool.and_eq_true_iff.mp h
    rw [writeMembers_cons hne] at hf
    simp only [List.length_append, List.length_cons] at hf
    have hlength : (write j).length < fuel := by omega
    have hj := value?_write j (Bool.and_eq_true_iff.mp hexact.1).2 hlength
      (stops_comma (writeMembers (m :: ms) ++ '\x7d' :: rest))
    rw [writeMembers_cons hne, List.append_assoc, List.cons_append, List.append_assoc,
      List.cons_append, members?_more name hne hj (skipBlank_write j _),
      members?_writeMembers (m :: ms) hne hexact.2 (by omega) rest]
    rfl

end

/-- What is written of an exact value is read as that value. -/
theorem parse?_render {j : Json} (hj : j.isExact = true) : parse? j.render = some j := by
  have hread := value?_write j hj (Nat.lt_succ_self (write j).length) stops_nil
  have hblank := skipBlank_write j []
  rw [List.append_nil] at hread hblank
  rw [parse?, render, String.toList_ofList, parseChars?, hblank, hread]
  rfl

end Courier.Json
