import Courier.Proofs.Wire.HeadText

/-! # Bodies as they are written

A body that fits its head is read back as its payload, with what was written behind it left over. It
is a payload of the declared length, a list of chunks, or nothing where no body is due.
-/

namespace Courier.Wire

/-- The digits of a chunk's size, and the extension behind them. -/
structure SizeLine where
  digits : String
  extension : String
  deriving DecidableEq, Repr

structure Chunk where
  size : SizeLine
  data : Bytes
  deriving DecidableEq, Repr

inductive BodyText
  | absent
  | sized (payload : Bytes)
  | chunked (chunks : List Chunk) (last : SizeLine) (trailers : List Bytes)
  deriving DecidableEq, Repr

namespace SizeLine

def text (l : SizeLine) : String :=
  l.digits ++ l.extension

/-- The digits spell the number, a word, and but for blanks the extension begins with a semicolon. -/
structure Gives (l : SizeLine) (n : Nat) : Prop where
  spells : Text.Spells 16 l.digits.toList n
  word : n < wordSize 64
  blank : ∀ c ∈ l.extension.toList.takeWhile (· ≠ ';'), Text.isBlank c = true
  oneLine : OneLine l.text.toList

theorem chunkSize_text {l : SizeLine} {n : Nat} (h : l.Gives n) :
    chunkSize (Bytes.ofText l.text) = .ok n := by
  have hsemi : ';' ∉ l.digits.toList := h.spells.not_mem rfl
  have hd : ∀ c ∈ l.digits.toList, c ≠ ';' := fun c hc he => hsemi (he ▸ hc)
  have htrim : Text.trim (String.ofList (l.text.toList.takeWhile (· ≠ ';'))) = l.digits := by
    rw [text, String.toList_append, List.takeWhile_append_of_pos (by simpa using hd),
      Text.trim_digits h.spells h.blank, String.ofList_toList]
  rw [chunkSize, Bytes.text?_ofText]
  dsimp only
  rw [htrim, h.spells.numeral?_eq h.word]

end SizeLine

namespace Chunk

def bytes (c : Chunk) : Bytes :=
  Bytes.ofText c.size.text ++ crlf ++ c.data ++ crlf

structure WellFormed (c : Chunk) : Prop where
  size : c.size.Gives c.data.length
  nonempty : c.data ≠ []

theorem chunkedBody_bytes {c : Chunk} (h : c.WellFormed) (s : Bytes) :
    chunkedBody .size (c.bytes ++ s) = (chunkedBody .size s).after c.data := by
  have hline : cutAt? crlf (c.bytes ++ s) =
      some (Bytes.ofText c.size.text, c.data ++ (crlf ++ s)) := by
    rw [bytes, List.append_assoc, List.append_assoc]
    exact cutAt?_line (Bytes.crlf_not_infix h.size.oneLine) _
  have hend : cutAt? crlf (crlf ++ s) = some ([], s) := cutAt?_mark_append crlf s
  obtain ⟨n, hn⟩ : ∃ n, c.data.length = n + 1 :=
    Nat.exists_eq_succ_of_ne_zero (Nat.ne_of_gt (List.length_pos_iff.mpr h.nonempty))
  have hsize := SizeLine.chunkSize_text h.size
  rw [hn] at hsize
  rw [chunkedBody_size hline, hsize]
  dsimp only
  rw [← hn, chunkedBody_data_append (Nat.le_refl _), Nat.sub_self, chunkedBody_data_zero,
    chunkedBody_dataEnd hend, if_pos rfl]

end Chunk

theorem chunkedBody_ended {trailers : List Bytes} (h : ∀ t ∈ trailers, t ≠ [] ∧ ¬ crlf <:+: t)
    (s : Bytes) : chunkedBody .trailers (ended trailers ++ (crlf ++ s)) = ⟨[], .ok s⟩ := by
  induction trailers with
  | nil =>
    have hend : cutAt? crlf (crlf ++ s) = some ([], s) := cutAt?_mark_append crlf s
    rw [ended_nil, List.nil_append, chunkedBody_trailers hend, if_pos rfl]
  | cons t trailers ih =>
    obtain ⟨⟨hne, ht⟩, hts⟩ := List.forall_mem_cons.mp h
    have hline : cutAt? crlf (ended (t :: trailers) ++ (crlf ++ s)) =
        some (t, ended trailers ++ (crlf ++ s)) := by
      rw [ended_cons, List.append_assoc]
      exact cutAt?_line ht _
    rw [chunkedBody_trailers hline, if_neg hne, ih hts]

namespace BodyText

def payload : BodyText → Bytes
  | absent => []
  | sized p => p
  | chunked chunks _ _ => chunks.flatMap (·.data)

def bytes : BodyText → Bytes
  | absent => []
  | sized p => p
  | chunked chunks last trailers =>
    chunks.flatMap (·.bytes) ++ (Bytes.ofText last.text ++ crlf ++ (ended trailers ++ crlf))

/-- No body follows this head in answer to this method. -/
def Bodiless (method : Method) (h : HeadText) : Prop :=
  method = .head ∨ h.status = 204 ∨ h.status = 304

/-- The body is framed as the head says. -/
inductive Fits (method : Method) (h : HeadText) : BodyText → Prop

  | absent (hb : Bodiless method h) : Fits method h .absent

  | sized {p : Bytes} {v : String} (hb : ¬ Bodiless method h)
      (hc : Head.isChunked h.headers = false)
      (hv : h.headers.first? Headers.contentLength = some v)
      (hs : Text.Spells 10 v.toList p.length) (hw : p.length < wordSize 64) :
      Fits method h (.sized p)

  | chunked {chunks : List Chunk} {last : SizeLine} {trailers : List Bytes}
      (hb : ¬ Bodiless method h) (hc : Head.isChunked h.headers = true)
      (hchunks : ∀ c ∈ chunks, c.WellFormed) (hlast : last.Gives 0)
      (htrailers : ∀ t ∈ trailers, t ≠ [] ∧ ¬ crlf <:+: t) :
      Fits method h (.chunked chunks last trailers)

variable {method : Method} {h : HeadText}

theorem chunkedBody_bytes {chunks : List Chunk} {last : SizeLine} {trailers : List Bytes}
    (hchunks : ∀ c ∈ chunks, c.WellFormed) (hlast : last.Gives 0)
    (htrailers : ∀ t ∈ trailers, t ≠ [] ∧ ¬ crlf <:+: t) (s : Bytes) :
    chunkedBody .size ((BodyText.chunked chunks last trailers).bytes ++ s) =
      ⟨(BodyText.chunked chunks last trailers).payload, .ok s⟩ := by
  dsimp only [bytes, payload]
  induction chunks with
  | nil =>
    have hline : cutAt? crlf (Bytes.ofText last.text ++ crlf ++ (ended trailers ++ crlf) ++ s) =
        some (Bytes.ofText last.text, ended trailers ++ (crlf ++ s)) := by
      rw [List.append_assoc, List.append_assoc (ended trailers)]
      exact cutAt?_line (Bytes.crlf_not_infix hlast.oneLine) _
    rw [List.flatMap_nil, List.nil_append, List.flatMap_nil, chunkedBody_size hline,
      SizeLine.chunkSize_text hlast]
    exact chunkedBody_ended htrailers s
  | cons c chunks ih =>
    obtain ⟨hc, hcs⟩ := List.forall_mem_cons.mp hchunks
    rw [List.flatMap_cons, List.flatMap_cons, List.append_assoc, List.append_assoc,
      Chunk.chunkedBody_bytes hc, ← List.append_assoc, ih hcs]
    rfl

theorem framingOf_parsed (method : Method) (h : HeadText) :
    (Bodiless method h → framingOf (some method) h.parsed = (.done, h.parsed.keepAlive)) ∧
      (¬ Bodiless method h → framingOf (some method) h.parsed =
        if Head.isChunked h.headers then (.chunked .size, h.parsed.keepAlive)
        else
          match h.headers.declaredLength? with
          | some 0 => (.done, h.parsed.keepAlive)
          | some n => (.length n, h.parsed.keepAlive)
          | none => (.untilClose, false)) := by
  have hcond : (some method = some Method.head || h.status = 204 || h.status = 304 : Bool) = true ↔
      Bodiless method h := by
    simp [Bodiless, or_assoc]
  exact ⟨fun hb => if_pos (hcond.mpr hb), fun hb => if_neg fun hc => hb (hcond.mp hc)⟩

theorem declaredLength?_eq {v : String} {n : Nat}
    (hv : h.headers.first? Headers.contentLength = some v) (hs : Text.Spells 10 v.toList n)
    (hn : n < wordSize 64) : h.headers.declaredLength? = some n := by
  have htrim : Text.trim v = v := by
    have ht : Text.trim (String.ofList (v.toList ++ [])) = String.ofList v.toList :=
      Text.trim_digits hs fun _ hc => absurd hc List.not_mem_nil
    rwa [List.append_nil, String.ofList_toList] at ht
  rw [Headers.declaredLength?, hv, Option.bind_some, htrim]
  exact hs.numeral?_eq hn

/-- A body that fits its head is read back as its payload, and the peer decides on keeping open. -/
theorem Fits.bodyOf_eq {body : BodyText} (hf : Fits method h body) (s : Bytes) :
    bodyOf (framingOf (some method) h.parsed).1 (body.bytes ++ s) = ⟨body.payload, .ok s⟩ ∧
      (framingOf (some method) h.parsed).2 = h.parsed.keepAlive := by
  obtain ⟨hbodiless, hframed⟩ := framingOf_parsed method h
  cases hf with
  | absent hb =>
    rw [hbodiless hb]
    exact ⟨rfl, rfl⟩
  | @sized p v hb hc hv hs hw =>
    rw [hframed hb, hc, declaredLength?_eq hv hs hw]
    dsimp only [Bool.false_eq_true, if_false, bytes, payload]
    have hl : lengthBody p.length (p ++ s) = ⟨p, .ok s⟩ := by
      rw [lengthBody_append (Nat.le_refl _), Nat.sub_self, lengthBody_zero, Decoded.after,
        List.append_nil]
    cases p with
    | nil => exact ⟨rfl, rfl⟩
    | cons b p => exact ⟨hl, rfl⟩
  | chunked hb hc hchunks hlast htrailers =>
    rw [hframed hb, hc]
    exact ⟨chunkedBody_bytes hchunks hlast htrailers s, rfl⟩

end BodyText

end Courier.Wire
