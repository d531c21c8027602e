import Courier.Integrity.Upload
import Courier.Proofs.Text.Numeral
import Courier.Text.Fold

/-! # The digest that an entity tag names

A tag names a digest if it is the digest in hexadecimal, in letters of either case, with quotes
around it or none and white space around these. No other tag names one, so an upload is refused only
over a digest that stands in its tag.
-/

namespace Courier

/-! ## Hexadecimal digits -/

namespace Text

theorem toNat_toLower (c : Char) :
    c.toLower.toNat = if 65 ≤ c.toNat ∧ c.toNat ≤ 90 then c.toNat + 32 else c.toNat := by
  have hrange : (c.val ≥ 'A'.val ∧ c.val ≤ 'Z'.val) ↔ (65 ≤ c.toNat ∧ c.toNat ≤ 90) := Iff.rfl
  unfold Char.toLower
  by_cases h : 65 ≤ c.toNat ∧ c.toNat ≤ 90
  · rw [dif_pos (hrange.mpr h), if_pos h]
    change (c.val + 32).toNat = c.val.toNat + 32
    have hlt : c.val.toNat ≤ 90 := h.2
    rw [UInt32.toNat_add]
    exact Nat.mod_eq_of_lt (by simp only [UInt32.reduceToNat]; omega)
  · rw [dif_neg fun hr => h (hrange.mp hr), if_neg h]

theorem toNat_hexDigit {n : Nat} (h : n < 16) :
    (Bytes.hexDigit n).toNat = if n < 10 then n + 48 else n + 87 := by
  revert n
  decide

theorem digit?_sixteen {c : Char} {n : Nat} :
    digit? 16 c = some n ↔ n < 16 ∧ c.toLower = Bytes.hexDigit n := by
  have hvalue : digit? 16 c = some n ↔ n < 16 ∧
      c.toLower.toNat = if n < 10 then n + 48 else n + 87 := by
    rw [toNat_toLower]
    unfold digit?
    grind
  rw [hvalue]
  refine and_congr_right fun h => ?_
  rw [← toNat_hexDigit h, Char.toNat_inj]

end Text

namespace EntityTag

variable {tag : String} {d : Digest} {cs : List Char} {bytes : Bytes}

theorem hexPair_ofNat {m n : Nat} (hm : m < 16) (hn : n < 16) :
    Bytes.hexPair (UInt8.ofNat (m * 16 + n)) = [Bytes.hexDigit m, Bytes.hexDigit n] := by
  have hb : (UInt8.ofNat (m * 16 + n)).toNat = m * 16 + n := by
    rw [UInt8.toNat_ofNat']
    omega
  rw [Bytes.hexPair, hb, show (m * 16 + n) / 16 = m by omega, show (m * 16 + n) % 16 = n by omega]

theorem lower_of_ofHex? (h : ofHex? cs = some bytes) :
    cs.map Char.toLower = bytes.flatMap Bytes.hexPair := by
  fun_induction ofHex? cs generalizing bytes with
  | case1 =>
    cases h
    rfl
  | case2 x y r m n tail hr hy hx ih =>
    cases h
    obtain ⟨hm, hx⟩ := Text.digit?_sixteen.mp hx
    obtain ⟨hn, hy⟩ := Text.digit?_sixteen.mp hy
    rw [List.flatMap_cons, hexPair_ofNat hm hn, ← ih hr, List.map_cons, List.map_cons, hx, hy]
    rfl
  | case3 => cases h
  | case4 => cases h

theorem ofHex?_of_lower (h : cs.map Char.toLower = bytes.flatMap Bytes.hexPair) :
    ofHex? cs = some bytes := by
  induction bytes generalizing cs with
  | nil =>
    rw [List.map_eq_nil_iff.mp h]
    rfl
  | cons b bytes ih =>
    obtain ⟨x, cs, rfl, hx, h⟩ := List.map_eq_cons_iff.mp h
    obtain ⟨y, r, rfl, hy, hr⟩ := List.map_eq_cons_iff.mp h
    have hb : b.toNat < 256 := b.toNat_lt
    have hx := Text.digit?_sixteen.mpr ⟨Nat.div_lt_of_lt_mul hb, hx⟩
    have hy := Text.digit?_sixteen.mpr ⟨Nat.mod_lt b.toNat (by decide), hy⟩
    rw [ofHex?, hx, hy, ih hr]
    dsimp only
    rw [Nat.div_add_mod', UInt8.ofNat_toNat]

/-- The bytes that digits spell are those that are written with them, but for the case of letters. -/
theorem ofHex?_eq_some_iff :
    ofHex? cs = some bytes ↔ cs.map Char.toLower = bytes.flatMap Bytes.hexPair :=
  ⟨lower_of_ofHex?, ofHex?_of_lower⟩

theorem fold_hex (d : Digest) : Text.fold (Bytes.hex d) = d.flatMap Bytes.hexPair := by
  have hdigit : ∀ n < 16, (Bytes.hexDigit n).toLower = Bytes.hexDigit n := by decide
  have hpair : ∀ b : UInt8, (Bytes.hexPair b).map Char.toLower = Bytes.hexPair b := by
    intro b
    have hb : b.toNat < 256 := b.toNat_lt
    rw [Bytes.hexPair, List.map_cons, List.map_cons, List.map_nil,
      hdigit _ (Nat.div_lt_of_lt_mul hb), hdigit _ (Nat.mod_lt b.toNat (by decide))]
  rw [Text.fold, Bytes.hex, String.toList_ofList, List.map_flatMap]
  exact congrArg (d.flatMap ·) (funext hpair)

theorem length_hex (d : Digest) : (d.flatMap Bytes.hexPair).length = 2 * d.length := by
  induction d with
  | nil => rfl
  | cons b d ih =>
    rw [List.flatMap_cons, List.length_append, ih, List.length_cons]
    change 2 + 2 * d.length = _
    omega

/-! ## Tags -/

/-- The texts that stand for a digest: its digits in either case, quotes around them, and white
space around these. -/
inductive Writes (d : Digest) : String → Prop
  | intro {front opening digits closing back : String}
      (hfront : ∀ c ∈ front.toList, Text.isBlank c = true) (hopening : ∀ c ∈ opening.toList, c = '"')
      (hdigits : Text.sameFold digits (Bytes.hex d) = true) (hclosing : ∀ c ∈ closing.toList, c = '"')
      (hback : ∀ c ∈ back.toList, Text.isBlank c = true) :
      Writes d (front ++ (opening ++ digits ++ closing) ++ back)

theorem exists_bare (tag : String) :
    ∃ front opening closing back : String,
      tag = front ++ (opening ++ String.ofList (bare tag) ++ closing) ++ back ∧
        (∀ c ∈ front.toList, Text.isBlank c = true) ∧ (∀ c ∈ opening.toList, c = '"') ∧
        (∀ c ∈ closing.toList, c = '"') ∧ ∀ c ∈ back.toList, Text.isBlank c = true := by
  obtain ⟨front, back, htag, hfront, hback⟩ := Text.exists_stripBoth Text.isBlank tag.toList
  obtain ⟨opening, closing, htrim, hopening, hclosing⟩ :=
    Text.exists_stripBoth (· == '"') (Text.trim tag).toList
  refine ⟨.ofList front, .ofList opening, .ofList closing, .ofList back, ?_, by simpa using hfront,
    by simpa using hopening, by simpa using hclosing, by simpa using hback⟩
  rw [Text.trim, String.toList_ofList] at htrim
  rw [← String.toList_inj, htag, htrim]
  simp [bare, Text.trim]

theorem bare_eq {front opening digits closing back : String}
    (hfront : ∀ c ∈ front.toList, Text.isBlank c = true) (hopening : ∀ c ∈ opening.toList, c = '"')
    (hdigits : ∀ c ∈ digits.toList, ∃ n, Text.digit? 16 c = some n)
    (hclosing : ∀ c ∈ closing.toList, c = '"') (hback : ∀ c ∈ back.toList, Text.isBlank c = true) :
    bare (front ++ (opening ++ digits ++ closing) ++ back) = digits.toList := by
  have hblank : ∀ c ∈ (opening ++ digits ++ closing).toList, Text.isBlank c = false := by
    intro c hc
    rw [String.toList_append, String.toList_append, List.mem_append, List.mem_append] at hc
    rcases hc with (hc | hc) | hc
    · exact hopening c hc ▸ rfl
    · obtain ⟨n, hn⟩ := hdigits c hc
      exact Text.isBlank_digit hn
    · exact hclosing c hc ▸ rfl
  have hquote : ∀ c ∈ digits.toList, (c == '"') = false := by
    intro c hc
    obtain ⟨n, hn⟩ := hdigits c hc
    refine beq_eq_false_iff_ne.mpr fun h => ?_
    rw [h] at hn
    cases hn
  have htrim : Text.trim (front ++ (opening ++ digits ++ closing) ++ back) =
      opening ++ digits ++ closing :=
    (Text.trim_eq_iff hblank).mpr ⟨front.toList, back.toList, by simp, hfront, hback⟩
  rw [bare, htrim]
  exact (Text.stripBoth_eq_iff hquote).mpr
    ⟨opening.toList, closing.toList, by simp, by simpa using hopening, by simpa using hclosing⟩

theorem digit_of_lower (h : cs.map Char.toLower = d.flatMap Bytes.hexPair) :
    ∀ c ∈ cs, ∃ n, Text.digit? 16 c = some n := by
  intro c hc
  have hmem : c.toLower ∈ d.flatMap Bytes.hexPair := h ▸ List.mem_map_of_mem hc
  obtain ⟨b, -, hb⟩ := List.mem_flatMap.mp hmem
  have hlt : b.toNat < 256 := b.toNat_lt
  simp only [Bytes.hexPair, List.mem_cons, List.not_mem_nil, or_false] at hb
  rcases hb with hb | hb
  · exact ⟨_, Text.digit?_sixteen.mpr ⟨Nat.div_lt_of_lt_mul hlt, hb⟩⟩
  · exact ⟨_, Text.digit?_sixteen.mpr ⟨Nat.mod_lt b.toNat (by decide), hb⟩⟩

theorem writes_iff : Writes d tag ↔ (bare tag).map Char.toLower = d.flatMap Bytes.hexPair := by
  rw [← fold_hex]
  constructor
  · rintro ⟨hfront, hopening, hdigits, hclosing, hback⟩
    rename_i digits _ _
    have hlower : digits.toList.map Char.toLower = Text.fold (Bytes.hex d) :=
      Text.sameFold_iff.mp hdigits
    rw [bare_eq hfront hopening (digit_of_lower (hlower.trans (fold_hex d))) hclosing hback, hlower]
  · intro h
    obtain ⟨front, opening, closing, back, htag, hfront, hopening, hclosing, hback⟩ :=
      exists_bare tag
    rw [htag]
    refine .intro hfront hopening (Text.sameFold_iff.mpr ?_) hclosing hback
    rw [← h, Text.fold, String.toList_ofList]

theorem digest?_eq_some_iff : digest? tag = some d ↔ d.length = 16 ∧ Writes d tag := by
  rw [digest?, Option.filter_eq_some_iff, ofHex?_eq_some_iff, decide_eq_true_iff, writes_iff,
    and_comm]

end EntityTag

/-! ## Uploads -/

namespace Integrity

theorem verifyUpload_eq_error_iff {computed : Option Digest} {head : ResponseHead} {e : Error} :
    verifyUpload computed head = .error e ↔
      ∃ tag expected got, head.headers.first? Headers.entityTag = some tag ∧
        EntityTag.digest? tag = some expected ∧ computed = some got ∧ expected ≠ got ∧
        e = .integrityMismatch ⟨.upload, expected, got⟩ := by
  constructor
  · intro h
    unfold verifyUpload at h
    split at h
    · rename_i expected got htag
      obtain ⟨tag, hfirst, hdigest⟩ := Option.bind_eq_some_iff.mp htag
      split at h
      · cases h
      · rename_i hne
        cases h
        exact ⟨tag, expected, got, hfirst, hdigest, rfl, hne, rfl⟩
    · cases h
  · rintro ⟨tag, expected, got, hfirst, hdigest, rfl, hne, rfl⟩
    unfold verifyUpload
    rw [hfirst, Option.bind_some, hdigest]
    exact if_neg hne

/-- A tag names a digest exactly if it is the digest in hexadecimal, in letters of either case,
bare or in quotes, with any white space around. What it names can be told from what is left of it
without white space around it and then without quotes: thirty-two hexadecimal digits, which spell
the digest, and no digest is named where anything else is left. So an upload is refused only over a
digest which the tag spells and which is not the one of the body that was sent. -/
theorem tags_name_what_they_spell :
    (∀ (tag : String) (d : Digest),
      (EntityTag.digest? tag = some d ↔ d.length = 16 ∧ EntityTag.Writes d tag) ∧
      (EntityTag.digest? tag = some d ↔ (EntityTag.bare tag).length = 32 ∧
        (EntityTag.bare tag).map Char.toLower = (Bytes.hex d).toList)) ∧
    ∀ (computed : Option Digest) (head : ResponseHead) (e : Error),
      verifyUpload computed head = .error e ↔
        ∃ tag expected got, head.headers.first? Headers.entityTag = some tag ∧
          (expected.length = 16 ∧ EntityTag.Writes expected tag) ∧ computed = some got ∧
          expected ≠ got ∧ e = .integrityMismatch ⟨.upload, expected, got⟩ := by
  refine ⟨fun tag d => ⟨EntityTag.digest?_eq_some_iff, ?_⟩, fun computed head e => ?_⟩
  · rw [EntityTag.digest?_eq_some_iff, EntityTag.writes_iff, Bytes.hex, String.toList_ofList]
    refine and_congr_left fun h => ?_
    have hlength := congrArg List.length h
    rw [List.length_map, EntityTag.length_hex] at hlength
    omega
  · simp only [verifyUpload_eq_error_iff, EntityTag.digest?_eq_some_iff]

end Integrity

end Courier
