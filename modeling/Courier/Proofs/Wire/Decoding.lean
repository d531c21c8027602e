import Courier.Proofs.Wire.Arrival

/-! # Responses as functions of the bytes

The head and the body at the front of some bytes, computed from all of them at once. A connection
that faces the bytes reads that head and, piece by piece, that body, and fails as they say.
-/

namespace Courier.Wire

def headOf (s : Bytes) : Except Fault (Head × Bytes) :=
  match _ : cutAt? headEnd s with
  | none => .error (if Connection.maxHead < s.length then .headTooLarge else .closedBeforeHead)
  | some (raw, rest) =>
    match Head.parse raw with
    | .error f => .error f
    | .ok head => if head.isInterim then headOf rest else .ok (head, rest)
termination_by s.length
decreasing_by
  have := length_of_cutAt? ‹cutAt? headEnd s = _›
  simp only [headEnd, List.length_cons] at this
  omega

section Heads

variable {s : Bytes}

theorem headOf_some {raw rest : Bytes} (hc : cutAt? headEnd s = some (raw, rest)) :
    headOf s =
      match Head.parse raw with
      | .error f => .error f
      | .ok head => if head.isInterim then headOf rest else .ok (head, rest) := by
  rw [headOf]
  split
  · rename_i h
    cases hc.symm.trans h
  · rename_i h
    cases hc.symm.trans h
    rfl

theorem headOf_none (hc : cutAt? headEnd s = none) :
    headOf s = .error (if Connection.maxHead < s.length then .headTooLarge else .closedBeforeHead) := by
  rw [headOf]
  split
  · rfl
  · rename_i h
    cases hc.symm.trans h

end Heads

/-- Up to the final head, each head ends within the bound or not at all. -/
inductive HeadsFit : Bytes → Prop

  | endless {s : Bytes} (hc : cutAt? headEnd s = none) : HeadsFit s

  | block {s raw rest : Bytes} (hc : cutAt? headEnd s = some (raw, rest))
      (hle : (raw ++ headEnd).length ≤ Connection.maxHead)
      (next : ∀ head, Head.parse raw = .ok head → head.isInterim = true → HeadsFit rest) :
      HeadsFit s

/-- The bytes of a body, and what is behind it unless it breaks off. -/
structure Decoded where
  body : Bytes
  ending : Except Fault Bytes

namespace Decoded

def after (d : Decoded) (piece : Bytes) : Decoded :=
  ⟨piece ++ d.body, d.ending⟩

def error? (d : Decoded) : Option Error :=
  match d.ending with
  | .error f => some f.error
  | .ok _ => none

@[simp] theorem after_nil (d : Decoded) : d.after [] = d := rfl

theorem after_append (d : Decoded) (a b : Bytes) : (d.after b).after a = d.after (a ++ b) := by
  simp [after]

end Decoded

def ChunkState.rank : ChunkState → Nat
  | .data _ => 1
  | _ => 0

def chunkedBody : ChunkState → Bytes → Decoded
  | .size, s =>
    match _ : cutAt? crlf s with
    | none => ⟨[], .error .closedInChunkedBody⟩
    | some (line, rest) =>
      match chunkSize line with
      | .error f => ⟨[], .error f⟩
      | .ok 0 => chunkedBody .trailers rest
      | .ok (n + 1) => chunkedBody (.data (n + 1)) rest
  | .data n, s =>
    if s.length < n then ⟨s, .error .closedInChunk⟩
    else (chunkedBody .dataEnd (s.drop n)).after (s.take n)
  | .dataEnd, s =>
    match _ : cutAt? crlf s with
    | none => ⟨[], .error .closedInChunkedBody⟩
    | some ([], rest) => chunkedBody .size rest
    | some (_ :: _, _) => ⟨[], .error .chunkEnd⟩
  | .trailers, s =>
    match _ : cutAt? crlf s with
    | none => ⟨[], .error .closedInChunkedBody⟩
    | some ([], rest) => ⟨[], .ok rest⟩
    | some (_ :: _, rest) => chunkedBody .trailers rest
termination_by state s => (s.length, state.rank)
decreasing_by
  all_goals
    first
    | (have hlen := length_of_cutAt? ‹cutAt? crlf s = _›
       simp only [crlf, List.length_cons, List.length_nil] at hlen
       refine Prod.Lex.left _ _ ?_
       omega)
    | (rw [List.length_drop]
       rcases Nat.lt_or_ge (s.length - n) s.length with hlt | hge
       · exact Prod.Lex.left _ _ hlt
       · rw [show s.length - n = s.length by omega]
         exact Prod.Lex.right _ Nat.one_pos)

def lengthBody (n : Nat) (s : Bytes) : Decoded :=
  if s.length < n then ⟨s, .error (.closedInBody (n - s.length))⟩
  else ⟨s.take n, .ok (s.drop n)⟩

def bodyOf : Framing → Bytes → Decoded
  | .done, s => ⟨[], .ok s⟩
  | .length n, s => lengthBody n s
  | .chunked state, s => chunkedBody state s
  | .untilClose, s => ⟨s, .ok []⟩

/-- Where a count of bytes is outstanding, it is not zero. -/
def Framing.Live : Framing → Prop
  | .length n => 0 < n
  | .chunked (.data n) => 0 < n
  | _ => True

/-- How the body behind a head is framed, and whether the connection is kept. -/
def framingOf (method : Option Method) (h : Head) : Framing × Bool :=
  if method = some .head || h.head.status = 204 || h.head.status = 304 then (.done, h.keepAlive)
  else if h.chunked then (.chunked .size, h.keepAlive)
  else
    match h.head.headers.declaredLength? with
    | some 0 => (.done, h.keepAlive)
    | some n => (.length n, h.keepAlive)
    | none => (.untilClose, false)

theorem framingOf_live (method : Option Method) (h : Head) : (framingOf method h).1.Live := by
  unfold framingOf
  split
  · trivial
  · split
    · trivial
    · rcases h.head.headers.declaredLength? with _ | _ | n
      · trivial
      · trivial
      · exact Nat.succ_pos n

theorem lengthBody_zero (s : Bytes) : lengthBody 0 s = ⟨[], .ok s⟩ := by
  simp [lengthBody]

theorem lengthBody_append {n : Nat} {piece rest : Bytes} (h : piece.length ≤ n) :
    lengthBody n (piece ++ rest) = (lengthBody (n - piece.length) rest).after piece := by
  unfold lengthBody
  by_cases hlt : rest.length < n - piece.length
  · rw [if_pos (by rw [List.length_append]; omega), if_pos hlt, List.length_append,
      Nat.sub_add_eq]
    rfl
  · rw [if_neg (by rw [List.length_append]; omega), if_neg hlt, List.take_append,
      List.drop_append, List.take_of_length_le h, List.drop_of_length_le h]
    rfl

section Equations

variable {s line rest : Bytes}

theorem chunkedBody_none {state : ChunkState} (hc : cutAt? crlf s = none)
    (hst : state.rank = 0) : chunkedBody state s = ⟨[], .error .closedInChunkedBody⟩ := by
  cases state with
  | data => cases hst
  | _ =>
    rw [chunkedBody]
    split <;> simp_all

theorem chunkedBody_size (hc : cutAt? crlf s = some (line, rest)) :
    chunkedBody .size s =
      match chunkSize line with
      | .error f => ⟨[], .error f⟩
      | .ok 0 => chunkedBody .trailers rest
      | .ok (n + 1) => chunkedBody (.data (n + 1)) rest := by
  rw [chunkedBody]
  split <;> simp_all

theorem chunkedBody_dataEnd (hc : cutAt? crlf s = some (line, rest)) :
    chunkedBody .dataEnd s =
      if line = [] then chunkedBody .size rest else ⟨[], .error .chunkEnd⟩ := by
  conv => lhs; rw [chunkedBody]
  split
  · rename_i h
    cases hc.symm.trans h
  · rename_i h
    cases hc.symm.trans h
    rw [if_pos rfl]
  · rename_i h
    cases hc.symm.trans h
    rw [if_neg (List.cons_ne_nil _ _)]

theorem chunkedBody_trailers (hc : cutAt? crlf s = some (line, rest)) :
    chunkedBody .trailers s =
      if line = [] then ⟨[], .ok rest⟩ else chunkedBody .trailers rest := by
  conv => lhs; rw [chunkedBody]
  split
  · rename_i h
    cases hc.symm.trans h
  · rename_i h
    cases hc.symm.trans h
    rw [if_pos rfl]
  · rename_i h
    cases hc.symm.trans h
    rw [if_neg (List.cons_ne_nil _ _)]

end Equations

theorem chunkedBody_data_zero (s : Bytes) :
    chunkedBody (.data 0) s = chunkedBody .dataEnd s := by
  rw [chunkedBody]
  simp

theorem chunkedBody_data_append {n : Nat} {piece rest : Bytes} (h : piece.length ≤ n) :
    chunkedBody (.data n) (piece ++ rest) =
      (chunkedBody (.data (n - piece.length)) rest).after piece := by
  rw [chunkedBody, chunkedBody]
  by_cases hlt : rest.length < n - piece.length
  · rw [if_pos (by rw [List.length_append]; omega), if_pos hlt]
    rfl
  · rw [if_neg (by rw [List.length_append]; omega), if_neg hlt, List.take_append,
      List.drop_append, List.take_of_length_le h, List.drop_of_length_le h, Decoded.after_append,
      List.nil_append]

namespace Connection

variable {base c : Connection} {s : Bytes}

/-! ## Heads -/

/-- What a reading of the head comes to, and what is ahead then. -/
inductive HeadRead (base : Connection) (s : Bytes) :
    Except Error ResponseHead → Connection → Prop

  | failed {f : Fault} {rest : Bytes} {c : Connection} (h : headOf s = .error f)
      (hf : Facing base.breakOff rest c) : HeadRead base s (.error f.error) c

  | read {head : Head} {rest : Bytes} {c : Connection} (h : headOf s = .ok (head, rest))
      (hf : Facing (base.adopt head) rest c) : HeadRead base s (.ok head.head) c

theorem HeadRead.of_eq {s' : Bytes} {r : Except Error ResponseHead} (hs : headOf s = headOf s')
    (h : HeadRead base s' r c) : HeadRead base s r c := by
  cases h with
  | failed h hf => exact .failed (hs.trans h) hf
  | read h hf => exact .read (hs.trans h) hf

theorem adopt_eq (c : Connection) (h : Head) :
    c.adopt h =
      { c with framing := (framingOf c.method h).1, keepAlive := (framingOf c.method h).2 } := by
  unfold Connection.adopt framingOf
  dsimp only
  split
  · rfl
  · split
    · rfl
    · rcases h.head.headers.declaredLength? with _ | _ | n <;> rfl

theorem Facing.adopt (h : Facing base s c) (head : Head) :
    Facing (base.adopt head) s (c.adopt head) := by
  refine h.update (g := fun c => c.adopt head) fun buffer cuts => ?_
  rw [adopt_eq, adopt_eq]
  rfl

/-- Whether the buffer is too long for a head can be told from the bytes ahead. -/
theorem Facing.head_bounded (h : Facing base s c) (hfit : HeadsFit s)
    (hb : cutAt? headEnd c.buffer = none) (hlt : maxHead < c.buffer.length) :
    headOf s = .error .headTooLarge := by
  obtain ⟨more, hm⟩ := h.buffer_prefix
  cases hfit with
  | endless hc =>
    have hle : c.buffer.length ≤ s.length := h.buffer_prefix.length_le
    rw [headOf_none hc, if_pos (by omega)]
  | block hc hle _ =>
    rw [← hm] at hc
    have hshort := length_lt_of_cutAt?_none hb hc
    rw [List.length_append] at hle
    omega

theorem Facing.awaitHead {rounds : Nat} (h : Facing base s c) (hfit : HeadsFit s)
    (hr : c.unread < rounds) :
    HeadRead base s (awaitHead rounds c).1 (awaitHead rounds c).2 := by
  induction rounds generalizing c s with
  | zero => omega
  | succ rounds ih =>
    unfold Connection.awaitHead
    split
    · rename_i raw behind hb
      obtain ⟨rest, hs, hf⟩ := h.cut hb
      have hhead := headOf_some hs
      dsimp only
      split
      · rename_i f hp
        rw [hp] at hhead
        exact .failed hhead hf.breakOff
      · rename_i head hp
        rw [hp] at hhead
        dsimp only at hhead
        by_cases hi : head.isInterim = true
        · rw [if_pos hi]
          rw [if_pos hi] at hhead
          have hfit' : HeadsFit rest := by
            cases hfit with
            | endless hc => cases hc.symm.trans hs
            | block hc _ next =>
              cases hc.symm.trans hs
              exact next head hp hi
          have hu := unread_cut (c := c) (by decide) hb
          exact (ih hf hfit' (by omega)).of_eq hhead
        · rw [if_neg hi]
          rw [if_neg hi] at hhead
          exact .read hhead (hf.adopt head)
    · rename_i hb
      by_cases hlt : maxHead < c.buffer.length
      · rw [if_pos hlt]
        exact .failed (h.head_bounded hfit hb hlt) h.breakOff
      · rw [if_neg hlt]
        rcases h.fill with ⟨hs, hfill⟩ | ⟨n, c', hfill, hf, -, -, hu⟩
        · rw [hfill]
          rw [hs] at hb hlt
          have hhead := headOf_none hb
          rw [if_neg hlt] at hhead
          exact .failed hhead h.breakOff
        · rw [hfill]
          exact ih hf hfit (by omega)

theorem Facing.readHead (h : Facing base s c) (hfit : HeadsFit s) :
    HeadRead base s c.readHead.1 c.readHead.2 :=
  h.awaitHead hfit (Nat.lt_succ_self _)

/-! ## Bodies -/

/-- The pieces of the calls that follow one another from a call's result on, up to the one that
ends the body or fails. -/
inductive Drains : Except Error (Option Bytes) × Connection → List Bytes → Option Error →
    Connection → Prop

  | ended {c : Connection} : Drains (.ok none, c) [] none c

  | failed {e : Error} {c : Connection} : Drains (.error e, c) [] (some e) c

  | piece {c c' : Connection} {bytes : Bytes} {pieces : List Bytes} {e : Option Error}
      (next : Drains c.readChunk pieces e c') :
      Drains (.ok (some bytes), c) (bytes :: pieces) e c'

theorem Drains.unique {r : Except Error (Option Bytes) × Connection} {pieces pieces' : List Bytes}
    {e e' : Option Error} {c' : Connection} (h : Drains r pieces e c)
    (h' : Drains r pieces' e' c') : pieces = pieces' ∧ e = e' ∧ c = c' := by
  induction h generalizing pieces' with
  | ended =>
    cases h'
    exact ⟨rfl, rfl, rfl⟩
  | failed =>
    cases h'
    exact ⟨rfl, rfl, rfl⟩
  | piece _ ih =>
    cases h' with
    | piece next =>
      obtain ⟨rfl, rfl, rfl⟩ := ih next
      exact ⟨rfl, rfl, rfl⟩

def finished (c : Connection) : Connection :=
  { c with framing := .done }

/-- From a call's result on, the reader gets the decoded body. -/
def Delivers (base : Connection) (d : Decoded) (r : Except Error (Option Bytes) × Connection) :
    Prop :=
  ∃ pieces c, Drains r pieces d.error? c ∧ pieces.flatten = d.body ∧
    ∀ rest, d.ending = .ok rest → Facing base.finished rest c

namespace Delivers

theorem ended (h : Facing base s c) (hd : c.framing = .done) :
    Delivers base ⟨[], .ok s⟩ (.ok none, c) := by
  refine ⟨[], c, .ended, rfl, fun rest hrest => ?_⟩
  cases hrest
  have hc : ({ c with framing := .done } : Connection) = c := by rw [← hd]
  exact hc ▸ h.inFraming .done

theorem failed (f : Fault) : Delivers base ⟨[], .error f⟩ (.error f.error, c) :=
  ⟨[], c, .failed, rfl, fun _ h => by cases h⟩

theorem piece {d : Decoded} (bytes : Bytes) (h : Delivers base d c.readChunk) :
    Delivers base (d.after bytes) (.ok (some bytes), c) := by
  obtain ⟨pieces, c', hdr, hb, he⟩ := h
  exact ⟨bytes :: pieces, c', .piece hdr, by rw [List.flatten_cons, hb]; rfl, he⟩

end Delivers

theorem Facing.readDone (h : Facing base s c) (hd : c.framing = .done) :
    Delivers base ⟨[], .ok s⟩ c.readChunk := by
  rw [readChunk, hd]
  exact .ended h hd

theorem Facing.readLength {n : Nat} (h : Facing base s c) (hn : 0 < n) :
    Delivers base (lengthBody n s) (c.readLength n) := by
  induction n using Nat.strongRecOn generalizing base s c with
  | ind n ih =>
    unfold Connection.readLength
    by_cases hs : s = []
    · subst hs
      rw [h.ensure_nil, lengthBody, if_pos (by simpa using hn)]
      exact .failed _
    · obtain ⟨c₁, piece, rest, c₂, he, ht, rfl, hf, hne, hle⟩ := h.take_some hs hn
      have hpos : 0 < piece.length := List.length_pos_iff.mpr hne
      rw [he, lengthBody_append hle]
      dsimp only
      rw [ht]
      refine .piece piece ?_
      by_cases hz : n - piece.length = 0
      · rw [hz, lengthBody_zero]
        exact (hf.inFraming .done).readDone rfl
      · dsimp only
        rw [if_neg hz]
        have hf' := hf.inFraming (.length (n - piece.length))
        have hd := ih (n - piece.length) (by omega) hf' (by omega)
        exact hd

theorem Facing.readUntilClose (h : Facing base s c) (hc : c.framing = .untilClose) :
    Delivers base ⟨s, .ok []⟩ c.readChunk := by
  induction hl : s.length using Nat.strongRecOn generalizing s c with
  | ind n ih =>
    rw [readChunk, hc]
    dsimp only [Connection.readUntilClose]
    by_cases hs : s = []
    · subst hs
      rw [h.ensure_nil]
      have hd : Delivers base.finished ⟨[], .ok []⟩ (.ok none, c.finished) :=
        .ended (h.inFraming .done) rfl
      exact hd
    · obtain ⟨c', he, hf, hne⟩ := h.ensure_cons hs
      obtain ⟨rest, rfl, hf'⟩ := hf.advance (List.append_nil c'.buffer).symm
      rw [he]
      have hpos : 0 < c'.buffer.length := List.length_pos_iff.mpr hne
      have hfr : c'.framing = .untilClose := by rw [hf.framing_eq, ← h.framing_eq, hc]
      refine .piece (d := ⟨rest, .ok []⟩) c'.buffer (ih rest.length ?_ hf' hfr rfl)
      rw [← hl, List.length_append]
      omega

theorem Facing.inChunk (h : Facing base s c) (state : ChunkState) :
    Facing (base.inChunk state) s (c.inChunk state) :=
  h.inFraming (.chunked state)

theorem Facing.readData {n : Nat} (h : Facing base s c) (hn : 0 < n)
    (next : ∀ {c' : Connection}, n ≤ s.length → Facing (base.inChunk .dataEnd) (s.drop n) c' →
      Delivers base (chunkedBody .dataEnd (s.drop n)) c'.readChunk) (rounds : Nat) :
    Delivers base (chunkedBody (.data n) s) (readChunked (rounds + 1) (.data n) c) := by
  induction n using Nat.strongRecOn generalizing base s c rounds with
  | ind n ih =>
    unfold readChunked
    by_cases hs : s = []
    · subst hs
      rw [h.ensure_nil, chunkedBody, if_pos (by simpa using hn)]
      exact .failed .closedInChunk
    · obtain ⟨c₁, piece, rest, c₂, he, ht, rfl, hf, hne, hle⟩ := h.take_some hs hn
      have hpos : 0 < piece.length := List.length_pos_iff.mpr hne
      rw [List.length_append, List.drop_append, List.drop_of_length_le hle, List.nil_append] at next
      rw [he, chunkedBody_data_append hle]
      dsimp only
      rw [ht]
      refine .piece piece ?_
      by_cases hz : n - piece.length = 0
      · rw [hz] at next
        dsimp only
        rw [hz, chunkedBody_data_zero, if_pos rfl]
        exact next (by omega) (hf.inChunk .dataEnd)
      · dsimp only
        rw [if_neg hz]
        have hf' := hf.inChunk (.data (n - piece.length))
        have hd := ih (n - piece.length) (by omega) hf' (by omega)
          fun hle' hf'' => next (by omega) hf''
        exact hd ((c₂.inChunk (.data (n - piece.length))).unread + 1)

theorem Facing.readChunked_none {state : ChunkState} (h : Facing base s c)
    (hc : cutAt? crlf s = none) (hst : state.rank = 0) (rounds : Nat) :
    Delivers base (chunkedBody state s) (readChunked (rounds + 1) state c) := by
  obtain ⟨c', hl⟩ := h.takeLine_none hc
  rw [chunkedBody_none hc hst]
  cases state with
  | data => cases hst
  | _ =>
    rw [readChunked, hl]
    exact .failed .closedInChunkedBody

theorem Facing.readChunked {state : ChunkState} {rounds : Nat} (h : Facing base s c)
    (hr : c.unread < rounds) (hst : ∀ n, state = .data n → 0 < n) :
    Delivers base (chunkedBody state s) (readChunked rounds state c) := by
  induction state, s using chunkedBody.induct generalizing base c rounds with
  | case1 s hc =>
    obtain ⟨k, rfl⟩ := Nat.exists_eq_add_of_lt hr
    exact h.readChunked_none hc rfl _
  | case2 s line rest hc f hsize =>
    obtain ⟨k, rfl⟩ := Nat.exists_eq_add_of_lt hr
    obtain ⟨c', hl, -, -⟩ := h.takeLine_some hc
    rw [chunkedBody_size hc, Connection.readChunked, hl]
    dsimp only
    rw [hsize]
    exact .failed f
  | case3 s line rest hc hsize ih =>
    obtain ⟨k, rfl⟩ := Nat.exists_eq_add_of_lt hr
    obtain ⟨c', hl, hf, hu⟩ := h.takeLine_some hc
    have hd := ih (hf.inChunk .trailers) (Nat.lt_add_right k hu) fun _ h => by cases h
    rw [chunkedBody_size hc, Connection.readChunked, hl]
    dsimp only
    rw [hsize]
    exact hd
  | case4 s line rest hc n hsize ih =>
    obtain ⟨k, rfl⟩ := Nat.exists_eq_add_of_lt hr
    obtain ⟨c', hl, hf, hu⟩ := h.takeLine_some hc
    have hd := ih (hf.inChunk (.data (n + 1))) (Nat.lt_add_right k hu) fun _ h => by
      cases h
      exact Nat.succ_pos n
    rw [chunkedBody_size hc, Connection.readChunked, hl]
    dsimp only
    rw [hsize]
    exact hd
  | case5 n s hlt =>
    obtain ⟨k, rfl⟩ := Nat.exists_eq_add_of_lt hr
    exact h.readData (hst n rfl) (fun hle => absurd hlt (Nat.not_lt.mpr hle)) _
  | case6 n s hle ih =>
    obtain ⟨k, rfl⟩ := Nat.exists_eq_add_of_lt hr
    refine h.readData (hst n rfl) (fun {c'} _ hf => ?_) _
    have hd := ih hf (Nat.lt_add_of_pos_right Nat.two_pos) fun _ h => by cases h
    have hfr : c'.framing = .chunked .dataEnd := hf.framing_eq
    rw [readChunk, hfr]
    exact hd
  | case7 s hc =>
    obtain ⟨k, rfl⟩ := Nat.exists_eq_add_of_lt hr
    exact h.readChunked_none hc rfl _
  | case8 s rest hc ih =>
    obtain ⟨k, rfl⟩ := Nat.exists_eq_add_of_lt hr
    obtain ⟨c', hl, hf, hu⟩ := h.takeLine_some hc
    have hd := ih (hf.inChunk .size) (Nat.lt_add_right k hu) fun _ h => by cases h
    rw [chunkedBody_dataEnd hc, if_pos rfl, Connection.readChunked, hl]
    exact hd
  | case9 s x line rest hc =>
    obtain ⟨k, rfl⟩ := Nat.exists_eq_add_of_lt hr
    obtain ⟨c', hl, -, -⟩ := h.takeLine_some hc
    rw [chunkedBody_dataEnd hc, if_neg (List.cons_ne_nil x line), Connection.readChunked, hl]
    exact .failed .chunkEnd
  | case10 s hc =>
    obtain ⟨k, rfl⟩ := Nat.exists_eq_add_of_lt hr
    exact h.readChunked_none hc rfl _
  | case11 s rest hc =>
    obtain ⟨k, rfl⟩ := Nat.exists_eq_add_of_lt hr
    obtain ⟨c', hl, hf, -⟩ := h.takeLine_some hc
    have hd := Delivers.ended (hf.inFraming .done) rfl
    rw [chunkedBody_trailers hc, if_pos rfl, Connection.readChunked, hl]
    exact hd
  | case12 s x line rest hc ih =>
    obtain ⟨k, rfl⟩ := Nat.exists_eq_add_of_lt hr
    obtain ⟨c', hl, hf, hu⟩ := h.takeLine_some hc
    have hd := ih (hf.inChunk .trailers) (Nat.lt_add_right k hu) fun _ h => by cases h
    rw [chunkedBody_trailers hc, if_neg (List.cons_ne_nil x line), Connection.readChunked, hl]
    exact hd

theorem Facing.readChunk (h : Facing base s c) (hlive : base.framing.Live) :
    Delivers base (bodyOf base.framing s) c.readChunk := by
  have hfr := h.framing_eq
  cases hf : base.framing with
  | done =>
    exact h.readDone (hfr.trans hf)
  | length n =>
    rw [hf] at hlive
    rw [Connection.readChunk, hfr, hf]
    exact h.readLength hlive
  | chunked state =>
    rw [Connection.readChunk, hfr, hf]
    rw [hf] at hlive
    refine h.readChunked (Nat.lt_add_of_pos_right Nat.two_pos) fun n hn => ?_
    subst hn
    exact hlive
  | untilClose =>
    exact h.readUntilClose (hfr.trans hf)

end Connection

end Courier.Wire
