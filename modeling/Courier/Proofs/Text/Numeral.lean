import Courier.Text.Blank
import Courier.Text.Numeral

/-! # What numerals stand for

Digits spell a number from the left, and a numeral of such digits is read as that number. Blanks
around a text are taken off it.
-/

namespace Courier.Text

/-- The digits spell the number in the radix. -/
inductive Spells (radix : Nat) : List Char → Nat → Prop

  | digit {c : Char} {d : Nat} (h : digit? radix c = some d) : Spells radix [c] d

  | snoc {cs : List Char} {n : Nat} {c : Char} {d : Nat} (hs : Spells radix cs n)
      (h : digit? radix c = some d) : Spells radix (cs ++ [c]) (n * radix + d)

variable {radix n bound : Nat} {cs : List Char} {s : String}

theorem digit?_toNat {c : Char} {d : Nat} (h : digit? radix c = some d) :
    (48 ≤ c.toNat ∧ c.toNat ≤ 57) ∨ (97 ≤ c.toNat ∧ c.toNat ≤ 122) ∨
      (65 ≤ c.toNat ∧ c.toNat ≤ 90) := by
  by_cases h₁ : 48 ≤ c.toNat ∧ c.toNat ≤ 57
  · exact .inl h₁
  · by_cases h₂ : 97 ≤ c.toNat ∧ c.toNat ≤ 122
    · exact .inr (.inl h₂)
    · by_cases h₃ : 65 ≤ c.toNat ∧ c.toNat ≤ 90
      · exact .inr (.inr h₃)
      · simp [digit?, h₁, h₂, h₃] at h

theorem isBlank_digit {c : Char} {d : Nat} (h : digit? radix c = some d) : isBlank c = false := by
  have := digit?_toNat h
  simp only [isBlank, Bool.or_eq_false_iff, Bool.and_eq_false_iff, decide_eq_false_iff_not,
    beq_eq_false_iff_ne, ne_eq]
  omega

theorem digit?_digitChar {d : Nat} (h : d < radix) (hr : radix ≤ 16) :
    digit? radix d.digitChar = some d := by
  have hv : ∀ d < 16, d.digitChar.toNat = if d < 10 then 48 + d else 87 + d := by decide
  have hd := hv d (Nat.lt_of_lt_of_le h hr)
  unfold digit?
  dsimp only
  rw [hd]
  split <;> split <;> split <;> simp_all <;> omega

namespace Spells

theorem ne_nil (h : Spells radix cs n) : cs ≠ [] := by
  cases h with
  | digit => exact List.cons_ne_nil _ _
  | snoc => simp

theorem digit_of_mem (h : Spells radix cs n) : ∀ c ∈ cs, ∃ d, digit? radix c = some d := by
  induction h with
  | digit hd => exact fun c hc => ⟨_, List.mem_singleton.mp hc ▸ hd⟩
  | snoc _ hd ih =>
    intro c hc
    rcases List.mem_append.mp hc with hc | hc
    · exact ih c hc
    · exact ⟨_, List.mem_singleton.mp hc ▸ hd⟩

theorem not_mem (h : Spells radix cs n) {c : Char} (hc : digit? radix c = none) : c ∉ cs := by
  intro hm
  obtain ⟨d, hd⟩ := h.digit_of_mem c hm
  cases hc.symm.trans hd

theorem toDigits (hr : 1 < radix) (hr' : radix ≤ 16) (n : Nat) :
    Spells radix (Nat.toDigits radix n) n := by
  induction n using Nat.strongRecOn with
  | ind n ih =>
    by_cases hn : n < radix
    · rw [Nat.toDigits_of_lt_base hn]
      exact .digit (digit?_digitChar hn hr')
    · have hle : radix ≤ n := Nat.le_of_not_lt hn
      have hdiv : n / radix < n := Nat.div_lt_self (by omega) hr
      have hmod : n % radix < radix := Nat.mod_lt n (by omega)
      have hs := (ih _ hdiv).snoc (digit?_digitChar hmod hr')
      rwa [← Nat.toDigits_of_base_le hr hle, Nat.mul_comm, Nat.div_add_mod] at hs

theorem digits?_eq (h : Spells radix cs n) : digits? radix cs = some n := by
  have hm : ∃ ds, cs.mapM (digit? radix) = some ds ∧ ofDigits radix ds = n := by
    induction h with
    | @digit c d h =>
      refine ⟨[d], ?_, ?_⟩
      · simp [h]
      · simp [ofDigits]
    | @snoc cs n c d _ h ih =>
      obtain ⟨ds, hds, hn⟩ := ih
      refine ⟨ds ++ [d], ?_, ?_⟩
      · simp [hds, h]
      · rw [ofDigits, List.foldl_append, ← ofDigits, hn]
        rfl
  obtain ⟨ds, hds, hn⟩ := hm
  rw [digits?, if_neg (by simpa using h.ne_nil), hds, Option.map_some, hn]

theorem numeral?_eq (h : Spells radix s.toList n) (hb : n < bound) :
    numeral? radix bound s = some n := by
  have hu : unsigned s.toList = s.toList := by
    unfold unsigned
    split
    · rename_i cs heq
      have hplus : '+' ∈ s.toList := heq ▸ List.mem_cons_self
      exact absurd hplus (h.not_mem (by simp [digit?]))
    · rfl
  rw [numeral?, hu, h.digits?_eq]
  simp [Option.filter, hb]

end Spells

/-! ## What is read as a number -/

theorem Spells.extend (h : Spells radix cs n) {more : List Char}
    (hd : ∀ c ∈ more, ∃ d, digit? radix c = some d) : ∃ k, Spells radix (cs ++ more) k := by
  induction more generalizing cs n with
  | nil => exact ⟨n, by rwa [List.append_nil]⟩
  | cons c more ih =>
    obtain ⟨d, hc⟩ := hd c List.mem_cons_self
    obtain ⟨k, hk⟩ := ih (h.snoc hc) fun c' h' => hd c' (List.mem_cons_of_mem c h')
    exact ⟨k, by rwa [List.append_assoc] at hk⟩

theorem exists_spells (hne : cs ≠ []) (hd : ∀ c ∈ cs, ∃ d, digit? radix c = some d) :
    ∃ n, Spells radix cs n := by
  obtain ⟨c, r, rfl⟩ := List.exists_cons_of_ne_nil hne
  obtain ⟨d, hc⟩ := hd c List.mem_cons_self
  exact (Spells.digit hc).extend fun c' h' => hd c' (List.mem_cons_of_mem c h')

theorem digits_of_mapM {ds : List Nat} (h : cs.mapM (digit? radix) = some ds) :
    ∀ c ∈ cs, ∃ d, digit? radix c = some d := by
  induction cs generalizing ds with
  | nil => simp
  | cons c r ih =>
    simp only [List.mapM_cons, Option.bind_eq_bind, Option.bind_eq_some_iff] at h
    obtain ⟨d, hc, ds', hr, -⟩ := h
    exact List.forall_mem_cons.mpr ⟨⟨d, hc⟩, ih hr⟩

theorem digits?_eq_some_iff : digits? radix cs = some n ↔ Spells radix cs n := by
  refine ⟨fun h => ?_, Spells.digits?_eq⟩
  rw [digits?] at h
  split at h
  · cases h
  · rename_i hne
    obtain ⟨ds, hds, -⟩ := Option.map_eq_some_iff.mp h
    obtain ⟨k, hk⟩ := exists_spells (by simpa using hne) (digits_of_mapM hds)
    have heq := hk.digits?_eq
    rw [digits?, if_neg hne, h] at heq
    cases heq
    exact hk

theorem numeral?_eq_some_iff : numeral? radix bound s = some n ↔
    n < bound ∧ ∃ cs, (s.toList = cs ∨ s.toList = '+' :: cs) ∧ Spells radix cs n := by
  have hplus : digit? radix '+' = none := by simp [digit?]
  rw [numeral?, Option.filter_eq_some_iff, digits?_eq_some_iff, decide_eq_true_iff, and_comm]
  refine and_congr_right fun _ => ⟨fun h => ?_, ?_⟩
  · refine ⟨unsigned s.toList, ?_, h⟩
    unfold unsigned
    split
    · rename_i heq
      exact .inr heq
    · exact .inl rfl
  · rintro ⟨cs, hs | hs, h⟩
    · have hu : unsigned cs = cs := by
        unfold unsigned
        split
        · exact absurd List.mem_cons_self (h.not_mem hplus)
        · rfl
      rwa [hs, hu]
    · rwa [hs]

theorem digit?_ten {c : Char} {d : Nat} :
    digit? 10 c = some d ↔ c.isDigit = true ∧ c.toNat - '0'.toNat = d := by
  have hdigit : c.isDigit = true ↔ 48 ≤ c.toNat ∧ c.toNat ≤ 57 := by
    simp only [Char.isDigit, Bool.and_eq_true, decide_eq_true_iff]
    exact Iff.rfl
  have hzero : '0'.toNat = 48 := rfl
  rw [hdigit, hzero]
  unfold digit?
  dsimp only
  by_cases h : 48 ≤ c.toNat ∧ c.toNat ≤ 57
  · rw [if_pos h, if_pos (by omega), Option.some.injEq, and_iff_right h]
  · have hbig : ¬ (if 97 ≤ c.toNat ∧ c.toNat ≤ 122 then c.toNat - 87
        else if 65 ≤ c.toNat ∧ c.toNat ≤ 90 then c.toNat - 55 else 10) < 10 := by
      split
      · omega
      · split <;> omega
    rw [if_neg h, if_neg hbig]
    simp [h]

theorem spells_ten_iff : Spells 10 cs n ↔
    cs ≠ [] ∧ (∀ c ∈ cs, c.isDigit = true) ∧ Nat.ofDigitChars 10 cs 0 = n := by
  have hvalue : ∀ {cs n}, Spells 10 cs n → Nat.ofDigitChars 10 cs 0 = n := by
    intro cs n h
    induction h with
    | digit hd => simpa [Nat.ofDigitChars_cons] using (digit?_ten.mp hd).2
    | @snoc cs n c d _ hd ih =>
      rw [Nat.ofDigitChars_append, ih, Nat.ofDigitChars_cons, Nat.ofDigitChars_nil,
        (digit?_ten.mp hd).2, Nat.mul_comm]
  constructor
  · intro h
    refine ⟨h.ne_nil, fun c hc => ?_, hvalue h⟩
    obtain ⟨d, hd⟩ := h.digit_of_mem c hc
    exact (digit?_ten.mp hd).1
  · rintro ⟨hne, hdigits, rfl⟩
    obtain ⟨k, hk⟩ : ∃ k, Spells 10 cs k :=
      exists_spells hne fun c hc => ⟨_, digit?_ten.mpr ⟨hdigits c hc, rfl⟩⟩
    rwa [hvalue hk]

/-! ## Blanks -/

section Blanks

variable {α : Type} {p : α → Bool} {l r : List α}

theorem stripBoth_cons {a : α} (h : p a = true) : stripBoth p (a :: l) = stripBoth p l := by
  rw [stripBoth, stripBoth, List.dropWhile_cons_of_pos h]

theorem dropWhile_of_neg (h : ∀ a ∈ l, p a = false) : l.dropWhile p = l := by
  cases l with
  | nil => rfl
  | cons a l => exact List.dropWhile_cons_of_neg (by simp [h a List.mem_cons_self])

theorem stripBoth_append (hl : ∀ a ∈ l, p a = false) (hr : ∀ a ∈ r, p a = true) :
    stripBoth p (l ++ r) = l := by
  have hrev : (l ++ r).reverse.dropWhile p = l.reverse := by
    rw [List.reverse_append,
      List.dropWhile_append_of_pos fun a ha => hr a (List.mem_reverse.mp ha)]
    exact dropWhile_of_neg fun a ha => hl a (List.mem_reverse.mp ha)
  cases l with
  | nil =>
    have hnil : r.dropWhile p = [] := by
      rw [← List.append_nil r, List.dropWhile_append_of_pos hr]
      rfl
    rw [List.nil_append, stripBoth, hnil]
    rfl
  | cons a l =>
    have ha : ¬ p a = true := by simp [hl a List.mem_cons_self]
    rw [stripBoth, List.cons_append, List.dropWhile_cons_of_neg ha, ← List.cons_append, hrev,
      List.reverse_reverse]

theorem stripBoth_prefix (h : ∀ a ∈ l, p a = true) : stripBoth p (l ++ r) = stripBoth p r := by
  rw [stripBoth, stripBoth, List.dropWhile_append_of_pos h]

theorem exists_stripBoth (p : α → Bool) (l : List α) :
    ∃ front back, l = front ++ stripBoth p l ++ back ∧
      (∀ a ∈ front, p a = true) ∧ ∀ a ∈ back, p a = true := by
  refine ⟨l.takeWhile p, ((l.dropWhile p).reverse.takeWhile p).reverse, ?_, ?_, ?_⟩
  · have hback : stripBoth p l ++ ((l.dropWhile p).reverse.takeWhile p).reverse =
        l.dropWhile p := by
      rw [stripBoth, ← List.reverse_append, List.takeWhile_append_dropWhile, List.reverse_reverse]
    rw [List.append_assoc, hback, List.takeWhile_append_dropWhile]
  · exact List.all_eq_true.mp List.all_takeWhile
  · exact fun a ha => List.all_eq_true.mp List.all_takeWhile a (List.mem_reverse.mp ha)

theorem stripBoth_eq_iff (hr : ∀ a ∈ r, p a = false) :
    stripBoth p l = r ↔ ∃ front back, l = front ++ r ++ back ∧
      (∀ a ∈ front, p a = true) ∧ ∀ a ∈ back, p a = true := by
  constructor
  · rintro rfl
    exact exists_stripBoth p l
  · rintro ⟨front, back, rfl, hfront, hback⟩
    rw [List.append_assoc, stripBoth_prefix hfront, stripBoth_append hr hback]

end Blanks

theorem trim_eq_iff {s t : String} (ht : ∀ c ∈ t.toList, isBlank c = false) :
    trim s = t ↔ ∃ front back, s.toList = front ++ t.toList ++ back ∧
      (∀ c ∈ front, isBlank c = true) ∧ ∀ c ∈ back, isBlank c = true := by
  rw [← stripBoth_eq_iff ht, trim, ← String.toList_inj, String.toList_ofList]

theorem trim_space (s : String) : trim (String.ofList (' ' :: s.toList)) = trim s := by
  rw [trim, trim, String.toList_ofList, stripBoth_cons rfl]

theorem trim_digits (h : Spells radix cs n) {blanks : List Char}
    (hb : ∀ c ∈ blanks, isBlank c = true) :
    trim (String.ofList (cs ++ blanks)) = String.ofList cs := by
  have hcs : ∀ c ∈ cs, isBlank c = false := fun c hc =>
    let ⟨_, hd⟩ := h.digit_of_mem c hc
    isBlank_digit hd
  rw [trim, String.toList_ofList, stripBoth_append hcs hb]

end Courier.Text
