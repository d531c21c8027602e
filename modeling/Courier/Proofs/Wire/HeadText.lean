import Courier.Proofs.Text.Numeral
import Courier.Proofs.Text.Utf8
import Courier.Proofs.Wire.Decoding

/-! # Heads as they are written

A well-formed head is read back as it was written, ends where it was ended, and fits into the bound
on heads.
-/

namespace Courier.Wire

structure HeadText where
  status : Nat
  reason : String
  fields : List (String × String)
  deriving DecidableEq, Repr

theorem ofText_lines (ls : List String) :
    Bytes.ofText (String.join (ls.map (· ++ "\r\n"))) = ended (ls.map Bytes.ofText) := by
  have hc : Bytes.ofText "\r\n" = crlf := rfl
  rw [Bytes.ofText_join, ended, List.flatMap_map, List.flatMap_map]
  simp only [Bytes.ofText_append, hc]

namespace HeadText

def statusLine (h : HeadText) : String :=
  "HTTP/1.1 " ++ toString h.status ++ " " ++ h.reason

def fieldLine (f : String × String) : String :=
  f.1 ++ ": " ++ f.2

def text (h : HeadText) : String :=
  h.statusLine ++ "\r\n" ++ String.join (h.fields.map fun f => fieldLine f ++ "\r\n") ++ "\r\n"

def bytes (h : HeadText) : Bytes :=
  Bytes.ofText h.text

/-- A trimmed name without a colon and a trimmed value, on one line. -/
structure FieldOk (f : String × String) : Prop where
  name : Text.trim f.1 = f.1
  noColon : ':' ∉ f.1.toList
  value : Text.trim f.2 = f.2
  oneLine : OneLine (fieldLine f).toList

structure WellFormed (h : HeadText) : Prop where
  status : h.status < Head.statusBound
  oneLine : OneLine h.statusLine.toList
  fields : ∀ f ∈ h.fields, FieldOk f
  size : h.bytes.length ≤ Connection.maxHead

def body (h : HeadText) : String :=
  h.statusLine ++ String.join (h.fields.map fun f => "\r\n" ++ fieldLine f)

def headers (h : HeadText) : Headers :=
  ⟨h.fields⟩

def parsed (h : HeadText) : Head :=
  ⟨⟨h.status, h.reason, h.headers⟩, Head.isChunked h.headers,
    Head.keepsAlive "HTTP/1.1".toList h.headers⟩

variable {h : HeadText}

theorem ofText_body (h : HeadText) :
    Bytes.ofText h.body =
      joined (Bytes.ofText h.statusLine) (h.fields.map fun f => Bytes.ofText (fieldLine f)) := by
  rw [body, Bytes.ofText_append, Bytes.ofText_join, joined, List.flatMap_map, List.flatMap_map]
  simp only [Bytes.ofText_append]
  rfl

theorem bytes_eq (h : HeadText) : h.bytes = Bytes.ofText h.body ++ headEnd := by
  have hc : Bytes.ofText "\r\n" = crlf := rfl
  have hb : h.bytes =
      ended (Bytes.ofText h.statusLine :: h.fields.map fun f => Bytes.ofText (fieldLine f)) ++
        crlf := by
    have hfields := ofText_lines (h.fields.map fieldLine)
    rw [List.map_map, List.map_map] at hfields
    rw [bytes, text, Bytes.ofText_append, Bytes.ofText_append, Bytes.ofText_append, ended_cons, hc]
    exact congrArg (_ ++ crlf ++ · ++ crlf) hfields
  rw [hb, ended_eq_joined, ofText_body, List.append_assoc]
  rfl

theorem fieldLine_ne_nil (f : String × String) : Bytes.ofText (fieldLine f) ≠ [] := by
  rw [fieldLine, Bytes.ofText_append, Bytes.ofText_append]
  exact List.append_ne_nil_of_left_ne_nil (List.append_ne_nil_of_right_ne_nil _ (by decide)) _

theorem cutAt?_bytes (hw : h.WellFormed) (s : Bytes) :
    cutAt? headEnd (h.bytes ++ s) = some (Bytes.ofText h.body, s) := by
  rw [bytes_eq, ofText_body]
  refine cutAt?_block (Bytes.crlf_not_infix hw.oneLine) ?_ s
  intro m hm
  obtain ⟨f, hf, rfl⟩ := List.mem_map.mp hm
  exact ⟨fieldLine_ne_nil f, Bytes.crlf_not_infix (hw.fields f hf).oneLine⟩

theorem word_append {cs : List Char} (hc : ' ' ∉ cs) (r : List Char) :
    Head.word (cs ++ ' ' :: r) = (cs, some r) := by
  rw [Head.word, cutAt?_elem hc]

theorem statusLine?_eq (hw : h.WellFormed) :
    Head.statusLine? h.statusLine.toList =
      some ("HTTP/1.1".toList, h.status, h.reason.toList) := by
  have hs : Text.Spells 10 (toString h.status).toList h.status := by
    have hd : Text.Spells 10 (Nat.toDigits 10 h.status) h.status :=
      Text.Spells.toDigits (by decide) (by decide) h.status
    rwa [Nat.toString_eq_repr, Nat.repr_eq_ofList_toDigits, String.toList_ofList]
  have hn : ' ' ∉ (toString h.status).toList := hs.not_mem rfl
  have hline : h.statusLine.toList =
      "HTTP/1.1".toList ++ ' ' :: ((toString h.status).toList ++ ' ' :: h.reason.toList) := by
    rw [statusLine, String.toList_append, String.toList_append, String.toList_append]
    simp
  have hdec : Text.decimal? Head.statusBound (String.ofList (toString h.status).toList) =
      some h.status := by
    rw [String.ofList_toList]
    exact hs.numeral?_eq hw.status
  rw [hline, Head.statusLine?, word_append (by decide)]
  dsimp only
  rw [if_pos (by decide), Option.map_some, word_append hn]
  dsimp only
  rw [hdec]
  rfl

theorem headerLine_eq {f : String × String} (hf : FieldOk f) :
    Head.headerLine (fieldLine f).toList = .ok f := by
  have hline : (fieldLine f).toList = f.1.toList ++ ':' :: (' ' :: f.2.toList) := by
    rw [fieldLine, String.toList_append, String.toList_append]
    simp
  rw [hline, Head.headerLine, cutAt?_elem hf.noColon]
  dsimp only
  rw [String.ofList_toList, hf.name, Text.trim_space, hf.value]

theorem headers_eq {fields : List (String × String)} (hf : ∀ f ∈ fields, FieldOk f) :
    Head.headers (fields.map fun f => (fieldLine f).toList) = .ok ⟨fields⟩ := by
  have hm : (fields.map fun f => (fieldLine f).toList).mapM Head.headerLine = .ok fields := by
    induction fields with
    | nil => rfl
    | cons f fields ih =>
      obtain ⟨hf, hfs⟩ := List.forall_mem_cons.mp hf
      rw [List.map_cons, List.mapM_cons, headerLine_eq hf, ih hfs]
      rfl
  rw [Head.headers, hm]
  rfl

theorem parse_body (hw : h.WellFormed) : Head.parse (Bytes.ofText h.body) = .ok h.parsed := by
  have hl : lines h.body.toList =
      h.statusLine.toList :: h.fields.map fun f => (fieldLine f).toList := by
    have hb : h.body.toList =
        h.statusLine.toList ++
          (h.fields.map fun f => (fieldLine f).toList).flatMap fun m => '\r' :: '\n' :: m := by
      rw [body, String.toList_append, String.toList_join, List.flatMap_map, List.flatMap_map]
      simp only [String.toList_append]
      rfl
    rw [hb]
    refine lines_joined hw.oneLine fun m hm => ?_
    obtain ⟨f, hf, rfl⟩ := List.mem_map.mp hm
    exact (hw.fields f hf).oneLine
  rw [Head.parse, Bytes.text?_ofText]
  dsimp only
  rw [Head.ofText, hl]
  dsimp only
  rw [statusLine?_eq hw]
  dsimp only
  rw [headers_eq hw.fields]
  dsimp only
  rw [String.ofList_toList]
  rfl

/-! ## Interim and final heads -/

/-- The head of a response that comes before the one awaited. -/
def Interim (h : HeadText) : Prop :=
  100 ≤ h.status ∧ h.status < 200 ∧ h.status ≠ 101

def Final (h : HeadText) : Prop :=
  ¬ (100 ≤ h.status ∧ h.status < 200)

def interimBytes (hs : List HeadText) : Bytes :=
  hs.flatMap bytes

theorem isInterim_parsed (h : HeadText) : h.parsed.isInterim = true ↔ h.Interim := by
  rw [Head.isInterim, Bool.and_eq_true, Bool.and_eq_true, decide_eq_true_iff, decide_eq_true_iff,
    bne_iff_ne, and_assoc]
  rfl

theorem not_interim (hf : h.Final) : ¬ h.Interim :=
  fun hi => hf ⟨hi.1, hi.2.1⟩

theorem headOf_bytes (hw : h.WellFormed) (hf : h.Final) (s : Bytes) :
    headOf (h.bytes ++ s) = .ok (h.parsed, s) := by
  rw [headOf_some (cutAt?_bytes hw s), parse_body hw]
  dsimp only
  rw [if_neg fun hi => not_interim hf (h.isInterim_parsed.mp hi)]

theorem headOf_interim (hw : h.WellFormed) (hi : h.Interim) (s : Bytes) :
    headOf (h.bytes ++ s) = headOf s := by
  rw [headOf_some (cutAt?_bytes hw s), parse_body hw]
  dsimp only
  rw [if_pos (h.isInterim_parsed.mpr hi)]

theorem headsFit_bytes (hw : h.WellFormed) {s : Bytes} (next : h.Interim → HeadsFit s) :
    HeadsFit (h.bytes ++ s) := by
  refine .block (cutAt?_bytes hw s) ?_ fun head hp hi => ?_
  · rw [← bytes_eq]
    exact hw.size
  · cases (parse_body hw).symm.trans hp
    exact next (h.isInterim_parsed.mp hi)

theorem headOf_interimBytes {hs : List HeadText} (hhs : ∀ i ∈ hs, i.WellFormed ∧ i.Interim)
    (hw : h.WellFormed) (hf : h.Final) (s : Bytes) :
    headOf (interimBytes hs ++ (h.bytes ++ s)) = .ok (h.parsed, s) ∧
      HeadsFit (interimBytes hs ++ (h.bytes ++ s)) := by
  induction hs with
  | nil =>
    exact ⟨headOf_bytes hw hf s, headsFit_bytes hw fun hi => absurd hi (not_interim hf)⟩
  | cons i hs ih =>
    obtain ⟨⟨hiw, hi⟩, hhs⟩ := List.forall_mem_cons.mp hhs
    obtain ⟨hhead, hfit⟩ := ih hhs
    rw [interimBytes, List.flatMap_cons, List.append_assoc, ← interimBytes]
    exact ⟨(headOf_interim hiw hi _).trans hhead, headsFit_bytes hiw fun _ => hfit⟩

/-- Does the peer leave the connection open? -/
def KeepsOpen (h : HeadText) : Prop :=
  ∀ v, h.headers.first? Headers.connection = some v → Text.mentions v "close" = false

theorem keepsAlive_iff (h : HeadText) :
    Head.keepsAlive "HTTP/1.1".toList h.headers = true ↔ h.KeepsOpen := by
  unfold Head.keepsAlive KeepsOpen
  dsimp only
  cases h.headers.first? Headers.connection with
  | none =>
    rw [Option.getD_none]
    simp [show Text.mentions "" "close" = false by decide]
  | some v =>
    rw [Option.getD_some]
    cases hv : Text.mentions v "close" <;> simp [hv]

end HeadText

end Courier.Wire
