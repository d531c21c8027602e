import Mathlib.Algebra.GroupWithZero.Nat
import Courier.Proofs.Text.Numeral
import Courier.Proofs.Text.Utf8
import Courier.Wire.ChunkSize

/-! # What a size line says

A size line is a text that holds hexadecimal digits in front of its first semicolon, between blanks
or none, and the number they spell is the size. One plus sign is let through before the digits. Any
other line is refused, as a response that cannot be decoded.
-/

namespace Courier.Wire

/-- The lines that give a size: blanks, the sign, hexadecimal digits that spell the size, blanks,
and nothing more or a semicolon and anything. -/
inductive WritesSize (sign : String) (n : Nat) : Bytes → Prop
  | intro {front digits back extension : String}
      (hfront : ∀ c ∈ front.toList, Text.isBlank c = true)
      (hdigits : Text.Spells 16 digits.toList n)
      (hback : ∀ c ∈ back.toList, Text.isBlank c = true)
      (hextension : extension = "" ∨ ∃ rest, extension = ";" ++ rest) :
      WritesSize sign n (Bytes.ofText (front ++ (sign ++ digits) ++ back ++ extension))

theorem takeWhile_ne_eq_iff {α : Type} [DecidableEq α] {a : α} {l front : List α} :
    l.takeWhile (· ≠ a) = front ↔
      a ∉ front ∧ ∃ rest, l = front ++ rest ∧ (rest = [] ∨ ∃ r, rest = a :: r) := by
  constructor
  · rintro rfl
    refine ⟨fun ha => ?_, l.dropWhile (· ≠ a), List.takeWhile_append_dropWhile.symm, ?_⟩
    · have hne := List.all_eq_true.mp List.all_takeWhile a ha
      simp at hne
    · cases hd : l.dropWhile (· ≠ a) with
      | nil => exact .inl rfl
      | cons x r =>
        have hx := List.head?_dropWhile_not (· ≠ a) l
        rw [hd] at hx
        exact .inr ⟨r, by simpa using hx⟩
  · rintro ⟨ha, rest, rfl, hrest⟩
    have hne : ∀ x ∈ front, decide (x ≠ a) = true :=
      fun x hx => decide_eq_true fun he : x = a => ha (he ▸ hx)
    rw [List.takeWhile_append_of_pos hne]
    rcases hrest with rfl | ⟨r, rfl⟩
    · simp
    · simp

def sizeText (text : String) : String :=
  Text.trim (String.ofList (text.toList.takeWhile (· ≠ ';')))

section Numerals

variable {sign digits text : String} {n : Nat}

theorem isBlank_numeral (hs : sign = "" ∨ sign = "+") (hd : Text.Spells 16 digits.toList n) :
    ∀ c ∈ (sign ++ digits).toList, Text.isBlank c = false := by
  intro c hc
  rcases List.mem_append.mp (String.toList_append ▸ hc) with hc | hc
  · rcases hs with rfl | rfl
    · exact absurd hc List.not_mem_nil
    · exact List.mem_singleton.mp hc ▸ rfl
  · obtain ⟨d, hd⟩ := hd.digit_of_mem c hc
    exact Text.isBlank_digit hd

theorem semicolon_not_mem_numeral (hs : sign = "" ∨ sign = "+")
    (hd : Text.Spells 16 digits.toList n) : ';' ∉ (sign ++ digits).toList := by
  rw [String.toList_append, List.mem_append]
  rintro (hc | hc)
  · rcases hs with rfl | rfl
    · exact absurd hc List.not_mem_nil
    · exact absurd (List.mem_singleton.mp hc) (by decide)
  · exact hd.not_mem rfl hc

theorem writesSize_iff (hs : sign = "" ∨ sign = "+") :
    WritesSize sign n (Bytes.ofText text) ↔
      ∃ digits, sizeText text = sign ++ digits ∧ Text.Spells 16 digits.toList n := by
  constructor
  · generalize hb : Bytes.ofText text = line
    rintro ⟨hfront, hdigits, hback, hextension⟩
    rename_i front digits back extension
    refine ⟨digits, ?_, hdigits⟩
    have htext := Option.some.inj ((Bytes.text?_ofText text).symm.trans
      (Bytes.text?_eq_some_iff.mpr hb))
    have hblank : ∀ {t : String}, (∀ c ∈ t.toList, Text.isBlank c = true) → ';' ∉ t.toList :=
      fun ht hc => absurd (ht _ hc) (by decide)
    have htake : text.toList.takeWhile (· ≠ ';') = (front ++ (sign ++ digits) ++ back).toList := by
      refine takeWhile_ne_eq_iff.mpr ⟨?_, extension.toList, ?_, ?_⟩
      · rw [String.toList_append, String.toList_append, List.mem_append, List.mem_append]
        rintro ((hc | hc) | hc)
        · exact hblank hfront hc
        · exact semicolon_not_mem_numeral hs hdigits hc
        · exact hblank hback hc
      · rw [htext, String.toList_append]
      · rcases hextension with rfl | ⟨rest, rfl⟩
        · exact .inl rfl
        · exact .inr ⟨rest.toList, String.toList_append⟩
    rw [sizeText, htake, String.ofList_toList]
    refine (Text.trim_eq_iff (isBlank_numeral hs hdigits)).mpr ⟨front.toList, back.toList, ?_,
      hfront, hback⟩
    rw [String.toList_append, String.toList_append]
  · rintro ⟨digits, hsize, hdigits⟩
    obtain ⟨front, back, htake, hfront, hback⟩ :=
      (Text.trim_eq_iff (isBlank_numeral hs hdigits)).mp hsize
    rw [String.toList_ofList] at htake
    obtain ⟨-, rest, htext, hrest⟩ := takeWhile_ne_eq_iff.mp htake
    have heq : text = String.ofList front ++ (sign ++ digits) ++ String.ofList back ++
        String.ofList rest := by
      rw [← String.toList_inj, htext]
      simp
    rw [heq]
    refine .intro (by simpa using hfront) hdigits (by simpa using hback) ?_
    rcases hrest with rfl | ⟨r, rfl⟩
    · exact .inl rfl
    · exact .inr ⟨String.ofList r, by rw [← String.toList_inj]; simp⟩

end Numerals

theorem chunkSize_ofText (text : String) :
    chunkSize (Bytes.ofText text) =
      (Text.numeral? 16 (wordSize 64) (sizeText text)).elim (.error (.chunkSize (sizeText text)))
        .ok := by
  unfold chunkSize sizeText
  rw [Bytes.text?_ofText]
  dsimp only
  generalize Text.trim _ = digits
  cases Text.numeral? 16 (wordSize 64) digits <;> rfl

theorem chunkSize_ofText_eq_ok_iff {text : String} {n : Nat} :
    chunkSize (Bytes.ofText text) = .ok n ↔ n < 2 ^ 64 ∧
      (WritesSize "" n (Bytes.ofText text) ∨ WritesSize "+" n (Bytes.ofText text)) := by
  have hread : chunkSize (Bytes.ofText text) = .ok n ↔
      Text.numeral? 16 (wordSize 64) (sizeText text) = some n := by
    rw [chunkSize_ofText]
    cases Text.numeral? 16 (wordSize 64) (sizeText text) <;> simp
  rw [hread, Text.numeral?_eq_some_iff, writesSize_iff (.inl rfl), writesSize_iff (.inr rfl)]
  refine and_congr_right fun _ => ⟨?_, ?_⟩
  · rintro ⟨cs, hcs | hcs, hspells⟩
    · refine .inl ⟨sizeText text, String.empty_append.symm, hcs ▸ hspells⟩
    · refine .inr ⟨String.ofList cs, ?_, by rwa [String.toList_ofList]⟩
      rw [← String.toList_inj, hcs]
      simp
  · rintro (⟨digits, hsize, hspells⟩ | ⟨digits, hsize, hspells⟩)
    · exact ⟨digits.toList, .inl (by rw [hsize, String.empty_append]), hspells⟩
    · exact ⟨digits.toList, .inr (by rw [hsize, String.toList_append]; rfl), hspells⟩

/-- A size line is read as a size that fits a word exactly if it is a text whose part in front of
the first semicolon is, but for blanks around it, hexadecimal digits of that value, with at most one
plus sign before them. Every other line is an error in decoding the response. -/
theorem chunkSize_exact (line : Bytes) :
    (∀ n, chunkSize line = .ok n ↔
      n < 2 ^ 64 ∧ (WritesSize "" n line ∨ WritesSize "+" n line)) ∧
    ((∃ n, chunkSize line = .ok n) ∨
      (line.text? = none ∧ (chunkSize line).mapError Fault.error =
        .error (.responseDecode "invalid chunk size line")) ∨
      ∃ text, line.text? = some text ∧ (chunkSize line).mapError Fault.error =
        .error (.responseDecode ("invalid chunk size: " ++ sizeText text))) := by
  cases ht : line.text? with
  | none =>
    have herror : chunkSize line = .error .chunkSizeNotText := by rw [chunkSize, ht]
    have hno : ∀ sign n, ¬ WritesSize sign n line := by
      rintro sign n ⟨⟩
      rw [Bytes.text?_ofText] at ht
      cases ht
    refine ⟨fun n => ?_, .inr (.inl ⟨rfl, by rw [herror]; rfl⟩)⟩
    simp [herror, hno]
  | some text =>
    obtain rfl := Bytes.text?_eq_some_iff.mp ht
    refine ⟨fun n => chunkSize_ofText_eq_ok_iff, ?_⟩
    rw [chunkSize_ofText]
    cases Text.numeral? 16 (wordSize 64) (sizeText text) with
    | none => exact .inr (.inr ⟨text, rfl, rfl⟩)
    | some n => exact .inl ⟨n, rfl⟩

/-- A sign is no hexadecimal digit, and yet a size is read behind it. -/
theorem size_behind_sign :
    chunkSize (Bytes.ofText "+2") = .ok 2 ∧ ∀ n, ¬ WritesSize "" n (Bytes.ofText "+2") := by
  have hsize : sizeText "+2" = "+2" := by decide +kernel
  refine ⟨by rfl, fun n h => ?_⟩
  obtain ⟨digits, hdigits, hspells⟩ := (writesSize_iff (.inl rfl)).mp h
  rw [hsize, String.empty_append] at hdigits
  have hplus : '+' ∈ digits.toList := hdigits ▸ by decide
  exact hspells.not_mem rfl hplus

end Courier.Wire
