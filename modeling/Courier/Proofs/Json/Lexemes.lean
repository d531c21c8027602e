import Courier.Json.Lexical
import Courier.Json.Printer
import Mathlib.Data.List.TakeDrop

/-! # Strings and numbers read back

What is written of a string is read as that string, whatever escapes it takes. So is what is written
of a whole number, if it has a significand of 64 bits and nothing behind it goes on with it.
-/

namespace Courier.Json

/-! ## Strings -/

theorem hexDigit?_hexDigit : ∀ n < 16, hexDigit? (Bytes.hexDigit n) = some n := by
  decide

theorem unit?_control {n : Nat} (h : n < 256) (cs : List Char) :
    unit? ('0' :: '0' :: Bytes.hexDigit (n / 16) :: Bytes.hexDigit (n % 16) :: cs) =
      some (n, cs) := by
  have hzero : hexDigit? '0' = some 0 := rfl
  simp only [unit?, hzero, hexDigit?_hexDigit (n / 16) (by omega),
    hexDigit?_hexDigit (n % 16) (by omega), Option.bind_eq_bind, Option.bind_some]
  have hn : ((0 * 16 + 0) * 16 + n / 16) * 16 + n % 16 = n := by omega
  rw [hn]
  rfl

theorem codes?_plain {c : Char} (hquote : c ≠ '"') (hbackslash : c ≠ '\\')
    (hcontrol : ¬c.toNat < 0x20) (fuel : Nat) (cs : List Char) :
    codes? (fuel + 1) (c :: cs) =
      (codes? fuel cs).map fun (ns, rest) => (c.toNat :: ns, rest) := by
  have hplain : ¬((decide (c.toNat < 0x20) || decide (c = '\\')) = true) := by
    simp only [Bool.or_eq_true, decide_eq_true_eq]
    exact not_or.mpr ⟨hcontrol, hbackslash⟩
  generalize hrest : codes? fuel cs = r
  unfold codes?
  split
  · contradiction
  · rename_i heq
    exact absurd (List.cons.inj heq).1 hquote
  · rename_i heq
    exact absurd (List.cons.inj heq).1 hbackslash
  · rename_i heq
    exact absurd (List.cons.inj heq).1 hbackslash
  · rename_i heq
    obtain ⟨rfl, rfl⟩ := List.cons.inj heq
    rw [if_neg hplain, hrest]
    cases r <;> rfl

theorem codes?_control {c : Char} (h : c.toNat < 0x20) (fuel : Nat) (cs : List Char) :
    codes? (fuel + 1) ('\\' :: 'u' :: '0' :: '0' :: Bytes.hexDigit (c.toNat / 16) ::
        Bytes.hexDigit (c.toNat % 16) :: cs) =
      (codes? fuel cs).map fun (ns, rest) => (c.toNat :: ns, rest) := by
  simp only [codes?, unit?_control (n := c.toNat) (by omega), Option.bind_eq_bind, Option.bind_some]
  cases codes? fuel cs <;> rfl

theorem codes?_simple {c d : Char} (h : simpleEscape? d = some c.toNat) (hd : d ≠ 'u') (fuel : Nat)
    (cs : List Char) :
    codes? (fuel + 1) ('\\' :: d :: cs) =
      (codes? fuel cs).map fun (ns, rest) => (c.toNat :: ns, rest) := by
  simp only [codes?, h, Option.bind_eq_bind, Option.bind_some]
  cases codes? fuel cs <;> rfl

theorem codes?_escape (c : Char) (fuel : Nat) (cs : List Char) :
    codes? (fuel + 1) (escape c ++ cs) =
      (codes? fuel cs).map fun (ns, rest) => (c.toNat :: ns, rest) := by
  unfold escape
  split
  · exact codes?_simple rfl (by decide) fuel cs
  · exact codes?_simple rfl (by decide) fuel cs
  · exact codes?_simple rfl (by decide) fuel cs
  · exact codes?_simple rfl (by decide) fuel cs
  · exact codes?_simple rfl (by decide) fuel cs
  · rename_i hquote hbackslash _ _ _
    split
    · rename_i h
      exact codes?_simple (by rw [h]; rfl) (by decide) fuel cs
    · split
      · rename_i h
        exact codes?_simple (by rw [h]; rfl) (by decide) fuel cs
      · split
        · exact codes?_control ‹_› fuel cs
        · exact codes?_plain hquote hbackslash ‹_› fuel cs

theorem length_le_escaped (cs : List Char) : cs.length ≤ (cs.flatMap escape).length := by
  have hescape : ∀ c, 1 ≤ (escape c).length := by
    intro c
    unfold escape
    split
    all_goals first | exact Nat.le_add_left .. | (repeat' split) <;> exact Nat.le_add_left ..
  induction cs with
  | nil => exact Nat.zero_le 0
  | cons c cs ih =>
    have := hescape c
    rw [List.flatMap_cons, List.length_append, List.length_cons]
    omega

theorem codes?_escaped (cs rest : List Char) {fuel : Nat} (h : cs.length < fuel) :
    codes? fuel (cs.flatMap escape ++ '"' :: rest) = some (cs.map Char.toNat, rest) := by
  induction cs generalizing fuel with
  | nil =>
    obtain ⟨fuel, rfl⟩ := Nat.exists_eq_succ_of_ne_zero (by omega : fuel ≠ 0)
    rfl
  | cons c cs ih =>
    obtain ⟨fuel, rfl⟩ := Nat.exists_eq_succ_of_ne_zero (by omega : fuel ≠ 0)
    rw [List.flatMap_cons, List.append_assoc, codes?_escape, ih (Nat.lt_of_succ_lt_succ h)]
    rfl

theorem text?_toNat (cs : List Char) : text? (cs.map Char.toNat) = some cs := by
  have hscalar : ∀ c : Char, ¬(0xD800 ≤ c.toNat ∧ c.toNat < 0xE000) := by
    intro c
    rcases c.valid with h | h
    · exact fun hc => absurd hc.1 (Nat.not_le.mpr h)
    · exact fun hc => absurd hc.2 (Nat.not_lt.mpr h.1)
  induction cs with
  | nil => rfl
  | cons c cs ih =>
    have hc := hscalar c
    cases cs with
    | nil =>
      rw [List.map_cons, List.map_nil, text?, if_neg hc, Char.ofNat_toNat]
    | cons d cs =>
      rw [List.map_cons] at ih ⊢
      rw [List.map_cons, text?, if_neg (by omega), if_neg (by omega), ih, Char.ofNat_toNat]
      rfl

theorem string?_writeString (s : String) (rest : List Char) :
    string? (s.toList.flatMap escape ++ '"' :: rest) = some (some s, rest) := by
  have hlength : s.toList.length < (s.toList.flatMap escape ++ '"' :: rest).length + 1 := by
    have := length_le_escaped s.toList
    rw [List.length_append]
    omega
  rw [string?, codes?_escaped _ _ hlength]
  simp only [Option.map_some, text?_toNat, String.ofList_toList]

/-! ## Numbers -/

namespace Numeral

/-- Written as an integer, of 64 bits but for its sign. -/
def isWhole (n : Numeral) : Bool :=
  n.integral && n.exponent = 0 && n.finite && n.mantissa < wordSize 64

end Numeral

/-- What may stand behind a number without being read as more of it. -/
def Stops (rest : List Char) : Prop :=
  ∀ c cs, rest = c :: cs → c.isDigit = false ∧ c ≠ '.' ∧ c ≠ 'e' ∧ c ≠ 'E'

theorem stops_nil : Stops [] := by
  rintro c cs ⟨⟩

theorem stops_cons {c : Char} (hd : c.isDigit = false) (hp : c ≠ '.') (he : c ≠ 'e')
    (hE : c ≠ 'E') (cs : List Char) : Stops (c :: cs) := by
  rintro d ds ⟨⟩
  exact ⟨hd, hp, he, hE⟩

theorem digitsValue_eq (cs : List Char) : digitsValue cs = Nat.ofDigitChars 10 cs 0 := by
  have hfold : (fun (n : Nat) (c : Char) => n * 10 + (c.toNat - 48)) =
      fun n c => 10 * n + (c.toNat - '0'.toNat) := by
    funext n c
    rw [Nat.mul_comm]
    rfl
  rw [digitsValue, hfold]
  rfl

theorem digitsValue_toDigits (n : Nat) : digitsValue (Nat.toDigits 10 n) = n := by
  rw [digitsValue_eq, Nat.ofDigitChars_toDigits (by decide) (by decide)]

theorem toList_toString (n : Nat) : (toString n).toList = Nat.toDigits 10 n := by
  rw [Nat.toString_eq_repr, Nat.repr_eq_ofList_toDigits, String.toList_ofList]

theorem toDigits_head {n : Nat} {c : Char} {cs : List Char} (hn : 0 < n)
    (h : Nat.toDigits 10 n = c :: cs) : c ≠ '0' := by
  induction n using Nat.strongRecOn generalizing cs with
  | ind n ih =>
    by_cases hlt : n < 10
    · rw [Nat.toDigits_of_lt_base hlt] at h
      obtain ⟨rfl, -⟩ := List.cons.inj h
      have hdigits : ∀ d < 10, 0 < d → d.digitChar ≠ '0' := by decide
      exact hdigits n hlt hn
    · rw [Nat.toDigits_of_base_le (by decide) (Nat.le_of_not_lt hlt)] at h
      cases hq : Nat.toDigits 10 (n / 10) with
      | nil => exact absurd hq Nat.toDigits_ne_nil
      | cons d ds =>
        rw [hq] at h
        obtain ⟨rfl, -⟩ := List.cons.inj h
        exact ih (n / 10) (by omega) (by omega) hq

theorem digits?_append {ds rest : List Char} (hne : ds ≠ []) (hds : ∀ c ∈ ds, c.isDigit = true)
    (hr : Stops rest) : digits? (ds ++ rest) = some (ds, rest) := by
  have hrest : rest.takeWhile Char.isDigit = [] ∧ rest.dropWhile Char.isDigit = rest := by
    cases rest with
    | nil => exact ⟨rfl, rfl⟩
    | cons c cs =>
      have hc := (hr c cs rfl).1
      exact ⟨List.takeWhile_cons_of_neg (by simp [hc]), List.dropWhile_cons_of_neg (by simp [hc])⟩
  rw [digits?, List.span_eq_takeWhile_dropWhile, List.takeWhile_append_of_pos hds,
    List.dropWhile_append_of_pos hds, hrest.1, hrest.2, List.append_nil]
  dsimp only
  rw [if_neg (by simpa using hne)]

theorem integerPart?_toDigits (n : Nat) {rest : List Char} (hr : Stops rest) :
    integerPart? (Nat.toDigits 10 n ++ rest) = some (Nat.toDigits 10 n, rest) := by
  have hdigits : digits? (Nat.toDigits 10 n ++ rest) = some (Nat.toDigits 10 n, rest) :=
    digits?_append Nat.toDigits_ne_nil
      (fun _ hc => Nat.isDigit_of_mem_toDigits (by decide) (by decide) hc) hr
  rw [integerPart?, hdigits]
  split
  · rename_i cs _ heq
    obtain ⟨heq, -⟩ := Prod.mk.inj (Option.some.inj heq)
    rcases Nat.eq_zero_or_pos n with rfl | hn
    · cases heq
    · exact absurd rfl (toDigits_head hn heq)
  · rfl

theorem fractionPart?_of_stops {rest : List Char} (hr : Stops rest) :
    fractionPart? rest = some ([], rest) := by
  unfold fractionPart?
  split
  · exact absurd rfl (hr _ _ rfl).2.1
  · rfl

theorem exponentPart?_of_stops {rest : List Char} (hr : Stops rest) :
    exponentPart? rest = some (none, rest) := by
  unfold exponentPart?
  split
  · obtain ⟨-, -, he, hE⟩ := hr _ _ rfl
    rw [if_neg (by simp [he, hE])]
  · rfl

theorem absorb_of_lt {ds : List Char} {significand : Nat}
    (h : Nat.ofDigitChars 10 ds significand < wordSize 64) :
    absorb significand ds = (Nat.ofDigitChars 10 ds significand, []) := by
  have hle : ∀ (ds : List Char) (m : Nat), m ≤ Nat.ofDigitChars 10 ds m := by
    intro ds
    induction ds with
    | nil => exact fun m => Nat.le_refl m
    | cons d ds ih =>
      intro m
      rw [Nat.ofDigitChars_cons]
      exact Nat.le_trans (by omega) (ih _)
  induction ds generalizing significand with
  | nil => rfl
  | cons d ds ih =>
    rw [Nat.ofDigitChars_cons] at h ⊢
    have hnext : significand * 10 + (d.toNat - 48) =
        10 * significand + (d.toNat - '0'.toNat) := by
      rw [Nat.mul_comm]
      rfl
    rw [absorb, hnext, if_pos (Nat.lt_of_le_of_lt (hle _ _) h)]
    exact ih h

theorem isFiniteDecimal_toDigits {n : Nat} (h : n < wordSize 64) :
    isFiniteDecimal (Nat.toDigits 10 n) [] 0 = true := by
  have hn : Nat.ofDigitChars 10 (Nat.toDigits 10 n) 0 = n :=
    Nat.ofDigitChars_toDigits (by decide) (by decide)
  rw [isFiniteDecimal, absorb_of_lt (by rwa [hn])]
  simp [absorb, isFinite]

theorem number?_writeNumber {n : Numeral} (hw : n.isWhole = true) {rest : List Char}
    (hr : Stops rest) : number? (writeNumber n ++ rest) = some (n, rest) := by
  obtain ⟨negative, mantissa, exponent, integral, finite⟩ := n
  simp only [Numeral.isWhole, Bool.and_eq_true, decide_eq_true_eq] at hw
  obtain ⟨⟨⟨rfl, rfl⟩, rfl⟩, hm⟩ := hw
  have hsign : ∀ cs, Nat.toDigits 10 mantissa ++ rest ≠ '-' :: cs := by
    intro cs h
    cases hcs : Nat.toDigits 10 mantissa with
    | nil => exact Nat.toDigits_ne_nil hcs
    | cons d ds =>
      rw [hcs] at h
      obtain ⟨rfl, -⟩ := List.cons.inj h
      have hd : '-'.isDigit = true :=
        Nat.isDigit_of_mem_toDigits (by decide) (by decide) (hcs ▸ List.mem_cons_self)
      cases hd
  rw [writeNumber, toList_toString, if_pos rfl, List.append_nil, List.append_assoc]
  unfold number?
  split
  -- The sign is either written or, as no digit is one, not found.
  rename_i sign cs hfound
  have hfound : (sign, cs) = (negative, Nat.toDigits 10 mantissa ++ rest) := by
    cases negative with
    | true => exact hfound.symm
    | false =>
      split at hfound
      · exact absurd ‹_› (hsign _)
      · exact hfound.symm
  cases hfound
  simp only [integerPart?_toDigits _ hr, fractionPart?_of_stops hr, exponentPart?_of_stops hr,
    Option.bind_eq_bind, Option.bind_some, List.append_nil, digitsValue_toDigits,
    Option.getD_none, isFiniteDecimal_toDigits hm]
  rfl

end Courier.Json
