import Courier.Proofs.Wire.HeadText
import Courier.Proofs.Wire.RequestFraming

/-! # The lines of a request head

A request head goes out as it is put together: nothing in a path, a name or a value is looked at.
So a line break in one of them breaks its own line there and no other, and the lines are the ones
that were meant exactly if there is no such break.
-/

namespace Courier

namespace Wire

theorem oneLine_toString (n : Nat) : OneLine (toString n).toList := by
  refine oneLine_of_not_mem fun h => ?_
  rw [Nat.toString_eq_repr, Nat.repr_eq_ofList_toDigits, String.toList_ofList] at h
  exact absurd (Nat.isDigit_of_mem_toDigits (by decide) (by decide) h) (by decide)

end Wire

open Wire

namespace Headers

/-- No name and no value holds a line break. -/
def Unbroken (h : Headers) : Prop :=
  ∀ e ∈ h.entries, OneLine e.1.toList ∧ OneLine e.2.toList

theorem unbroken_insert {h : Headers} {name value : String} (hc : h.contains name = false)
    (hname : OneLine name.toList) :
    (h.insert name value).Unbroken ↔ h.Unbroken ∧ OneLine value.toList := by
  rw [insert_of_not_contains hc]
  simp only [Unbroken, append, List.forall_mem_append, List.forall_mem_singleton, hname, true_and]

end Headers

/-- Neither the path nor a header holds a line break. -/
structure RequestHead.Unbroken (head : RequestHead) : Prop where
  path : OneLine head.path.toList
  headers : head.headers.Unbroken

namespace Request

/-- The same of a request, whose host goes into the head if no Host header is given. -/
structure Unbroken (r : Request) : Prop where
  path : OneLine r.path.toList
  headers : r.headers.Unbroken
  host : r.headers.contains Headers.host = false → OneLine r.endpoint.host.toList

theorem oneLine_authority (e : Endpoint) :
    OneLine e.authority.toList ↔ OneLine e.host.toList := by
  unfold Endpoint.authority
  split
  · rfl
  · have hlist : (e.host ++ ":" ++ toString e.port).toList =
        e.host.toList ++ ':' :: (toString e.port).toList := by simp
    rw [hlist, oneLine_append_cons (by decide) (by decide)]
    exact and_iff_left (oneLine_toString e.port)

theorem unbroken_wireHeaders (r : Request) :
    r.wireHeaders.Unbroken ↔ r.headers.Unbroken ∧
      (r.headers.contains Headers.host = false → OneLine r.endpoint.host.toList) := by
  have hhost : (if r.headers.contains Headers.host then r.headers
      else r.headers.insert Headers.host r.endpoint.authority).Unbroken ↔ r.headers.Unbroken ∧
        (r.headers.contains Headers.host = false → OneLine r.endpoint.host.toList) := by
    cases hc : r.headers.contains Headers.host with
    | true => simp
    | false =>
      rw [if_neg Bool.false_ne_true, Headers.unbroken_insert hc (oneLine_of_not_mem (by decide)),
        oneLine_authority]
      simp
  rw [← hhost]
  unfold wireHeaders
  dsimp only
  generalize (if r.headers.contains Headers.host then r.headers
    else r.headers.insert Headers.host r.endpoint.authority) = h
  split
  · rename_i hlength
    rw [Bool.and_eq_true, Bool.not_eq_true'] at hlength
    split
    · rw [Headers.unbroken_insert hlength.2 (oneLine_of_not_mem (by decide))]
      exact and_iff_left (oneLine_toString _)
    · rfl
  · rfl

theorem unbroken_head (r : Request) : r.head.Unbroken ↔ r.Unbroken := by
  constructor
  · rintro ⟨hp, hh⟩
    obtain ⟨hgiven, hhost⟩ := r.unbroken_wireHeaders.mp hh
    exact ⟨hp, hgiven, hhost⟩
  · rintro ⟨hp, hgiven, hhost⟩
    exact ⟨hp, r.unbroken_wireHeaders.mpr ⟨hgiven, hhost⟩⟩

end Request

namespace Wire

theorem Transport.written_write (t : Transport) (data : Bytes) :
    ∃ front, front <+: data ∧ (t.write data).2.written = t.written ++ front := by
  unfold Transport.write
  split
  · dsimp only
    generalize (if t.writeMax = some 0 then 0 else min _ data.length) = taken
    exact ⟨data.take taken, List.take_prefix taken data, by split <;> rfl⟩
  · split
    · exact ⟨[], List.nil_prefix, (List.append_nil _).symm⟩
    · exact ⟨data, List.prefix_rfl, rfl⟩

namespace Connection

variable {c c' : Connection} {head : RequestHead} {chunked : Bool}

/-! ## A head as its lines -/

def requestLine (head : RequestHead) : String :=
  head.method.name ++ " " ++ head.path ++ " HTTP/1.1"

def headLines (head : RequestHead) (chunked : Bool) : List String :=
  requestLine head :: head.headers.entries.map HeadText.fieldLine ++
    if chunked then ["Transfer-Encoding: chunked"] else []

theorem headText_eq (head : RequestHead) (chunked : Bool) :
    headText head chunked =
      String.join ((headLines head chunked).map (· ++ "\r\n")) ++ "\r\n" := by
  have hline : " HTTP/1.1\r\n" = " HTTP/1.1" ++ "\r\n" := rfl
  cases chunked <;>
    simp [headText, headLines, requestLine, HeadText.fieldLine, hline, String.append_assoc,
      Function.comp_def]

theorem toList_headText (head : RequestHead) (chunked : Bool) :
    (headText head chunked).toList =
      ((headLines head chunked).map String.toList).flatMap (· ++ ['\r', '\n']) ++
        ['\r', '\n'] := by
  have hc : "\r\n".toList = ['\r', '\n'] := rfl
  rw [headText_eq, String.toList_append, hc]
  rw [String.toList_join, List.flatMap_map, List.flatMap_map]
  simp only [String.toList_append, hc]

theorem lines_headText (head : RequestHead) (chunked : Bool) :
    lines (headText head chunked).toList =
      ((headLines head chunked).map String.toList).flatMap lines ++ [[], []] := by
  rw [toList_headText, lines_flatMap]
  rfl

theorem oneLine_requestLine (head : RequestHead) :
    OneLine (requestLine head).toList ↔ OneLine head.path.toList := by
  have hlist : (requestLine head).toList =
      head.method.name.toList ++ ' ' :: (head.path.toList ++ ' ' :: "HTTP/1.1".toList) := by
    simp [requestLine]
  have hmethod : OneLine head.method.name.toList :=
    oneLine_of_not_mem (by cases head.method <;> decide)
  have hversion : OneLine "HTTP/1.1".toList := oneLine_of_not_mem (by decide)
  rw [hlist, oneLine_append_cons (by decide) (by decide),
    oneLine_append_cons (by decide) (by decide)]
  simp only [hmethod, hversion, true_and, and_true]

theorem oneLine_fieldLine (e : String × String) :
    OneLine (HeadText.fieldLine e).toList ↔ OneLine e.1.toList ∧ OneLine e.2.toList := by
  have hlist : (HeadText.fieldLine e).toList =
      e.1.toList ++ ':' :: ([] ++ ' ' :: e.2.toList) := by
    simp [HeadText.fieldLine]
  have hnil : OneLine [] := by decide
  rw [hlist, oneLine_append_cons (by decide) (by decide),
    oneLine_append_cons (by decide) (by decide)]
  simp only [hnil, true_and]

theorem unbroken_iff (head : RequestHead) (chunked : Bool) :
    head.Unbroken ↔ ∀ l ∈ headLines head chunked, OneLine l.toList := by
  have hlast : ∀ l ∈ if chunked then ["Transfer-Encoding: chunked"] else [], OneLine l.toList := by
    cases chunked with
    | true =>
      rw [if_pos rfl, List.forall_mem_singleton]
      exact oneLine_of_not_mem (by decide)
    | false => simp
  simp only [headLines, List.cons_append, List.forall_mem_cons, List.forall_mem_append,
    List.forall_mem_map, oneLine_requestLine, oneLine_fieldLine]
  constructor
  · rintro ⟨hp, hh⟩
    exact ⟨hp, hh, hlast⟩
  · rintro ⟨hp, hh, -⟩
    exact ⟨hp, hh⟩

theorem lines_headText_iff (head : RequestHead) (chunked : Bool) :
    lines (headText head chunked).toList =
        (headLines head chunked).map String.toList ++ [[], []] ↔ head.Unbroken := by
  rw [lines_headText, List.append_cancel_right_eq, flatMap_lines_eq_iff, List.forall_mem_map,
    ← unbroken_iff]

theorem cutAt?_headText (head : RequestHead) (chunked : Bool) :
    ∃ front, Bytes.ofText (headText head chunked) = front ++ headEnd ∧
      (head.Unbroken → ∀ s,
        cutAt? headEnd (Bytes.ofText (headText head chunked) ++ s) = some (front, s)) := by
  have hc : Bytes.ofText "\r\n" = crlf := rfl
  have hblock : Bytes.ofText (headText head chunked) =
      ended ((headLines head chunked).map Bytes.ofText) ++ crlf := by
    rw [headText_eq, Bytes.ofText_append, ofText_lines, hc]
  rw [headLines, List.cons_append, List.map_cons, ended_eq_joined, List.append_assoc] at hblock
  refine ⟨_, hblock, fun hu s => ?_⟩
  have hone := (unbroken_iff head chunked).mp hu
  rw [hblock]
  refine cutAt?_block (Bytes.crlf_not_infix (hone _ List.mem_cons_self)) ?_ s
  intro m hm
  obtain ⟨l, hl, rfl⟩ := List.mem_map.mp hm
  refine ⟨?_, Bytes.crlf_not_infix (hone l (List.mem_cons_of_mem _ hl))⟩
  rcases List.mem_append.mp hl with hl | hl
  · obtain ⟨e, -, rfl⟩ := List.mem_map.mp hl
    exact HeadText.fieldLine_ne_nil e
  · cases chunked with
    | true =>
      rw [List.mem_singleton.mp hl]
      decide
    | false => cases hl

/-! ## What goes out first -/

theorem written_write (c : Connection) (data : Bytes) :
    ∃ front, front <+: data ∧
      (c.write data).2.transport.written = c.transport.written ++ front := by
  obtain ⟨front, hfront, hw⟩ := c.transport.written_write data
  refine ⟨front, hfront, ?_⟩
  unfold Connection.write
  rw [← hw]
  split <;> rename_i ht <;> rw [ht]

theorem prefix_write (c : Connection) (data : Bytes) :
    c.transport.written <+: (c.write data).2.transport.written := by
  obtain ⟨front, -, hw⟩ := c.written_write data
  rw [hw]
  exact List.prefix_append _ _

theorem prefix_writeParts (parts : List Bytes) (c : Connection) :
    c.transport.written <+: (writeParts parts c).2.transport.written := by
  induction parts generalizing c with
  | nil => exact List.prefix_rfl
  | cons part parts ih =>
    unfold writeParts
    have hp := c.prefix_write part
    rcases hw : c.write part with ⟨e | _, c'⟩
    · rwa [hw] at hp
    · rw [hw] at hp
      exact hp.trans (ih c')

theorem prefix_writeChunks (chunked : Bool) (pulls : Nat) (c : Connection) (sub : Subscription)
    (ch : Channel) (cells : Cells) :
    c.transport.written <+:
      (writeChunks chunked pulls c sub ch cells).connection.transport.written := by
  induction pulls generalizing c sub ch cells with
  | zero => exact List.prefix_rfl
  | succ pulls ih =>
    unfold writeChunks
    dsimp only
    cases (sub.pull ch cells).outcome with
    | pending => exact List.prefix_rfl
    | failed e => exact List.prefix_rfl
    | chunk chunk =>
      dsimp only
      have hp := prefix_writeParts (if chunked then chunkParts chunk else [chunk]) c
      generalize writeParts (if chunked then chunkParts chunk else [chunk]) c = p at hp ⊢
      rcases p with ⟨e | _, c'⟩
      · exact hp
      · exact hp.trans (ih c' _ _ _)
    | finished =>
      cases chunked with
      | true => exact c.prefix_write lastChunk
      | false => exact List.prefix_rfl

theorem prefix_writeBody? (c : Connection) (chunked : Bool) (body : Option ByteStream)
    (cells : Cells) :
    c.transport.written <+:
      (c.writeBody? chunked body cells).flushed.connection.transport.written := by
  have hflushed (sent : Sent) :
      sent.flushed.connection.transport.written = sent.connection.transport.written := by
    unfold Sent.flushed
    split
    · unfold Connection.flush
      split <;> rfl
    · rfl
  rw [hflushed]
  cases body with
  | none => exact List.prefix_rfl
  | some body =>
    unfold writeBody? writeBody
    dsimp only
    cases body.subscribe with
    | error e => exact List.prefix_rfl
    | ok taken => exact prefix_writeChunks chunked _ c _ _ cells

theorem head_goes_first (c : Connection) (head : RequestHead) (body : Option ByteStream)
    (cells : Cells) :
    let block := Bytes.ofText (headText head (isChunkedRequest head body))
    let sent := c.sendRequest head body cells
    c.transport.written ++ block <+: sent.connection.transport.written ∨
      ∃ e front, sent.outcome = some (.error e) ∧ front <+: block ∧
        sent.connection.transport.written = c.transport.written ++ front := by
  intro block sent
  obtain ⟨front, hfront, hw⟩ := (c.begin head.method).written_write block
  change ((c.begin head.method).writeHead head _).2.transport.written = _ at hw
  unfold sent
  rw [sendRequest_eq]
  rcases hh : (c.begin head.method).writeHead head (isChunkedRequest head body) with ⟨e | _, c'⟩
  · rw [hh] at hw
    exact .inr ⟨e, front, rfl, hfront, hw⟩
  · refine .inl ?_
    have hwhole : c'.transport.written = c.transport.written ++ block :=
      written_of_write (c := c.begin head.method) hh
    rw [← hwhole]
    exact c'.prefix_writeBody? _ body cells

/-- Whatever request is sent, over whatever connection and with whatever body: its head goes out
first, or a part of it if the sending fails. The head is the request line, a line for each header in
their order and the line that tells of chunks, each with its end, and a blank line. Told apart at
the ends of line, every line is where it was put, and a break in one of them breaks that line only.
So they come out as they were put exactly if there is no break in the path, nor in a header, nor in
a host that goes into the head; and the head then ends at its blank line, whatever follows. -/
theorem head_told_apart (c : Connection) (r : Request) (body : Option ByteStream) (cells : Cells) :
    let chunked := isChunkedRequest r.head body
    let text := headText r.head chunked
    let sent := c.sendRequest r.head body cells
    (c.transport.written ++ Bytes.ofText text <+: sent.connection.transport.written ∨
      ∃ e front, sent.outcome = some (.error e) ∧ front <+: Bytes.ofText text ∧
        sent.connection.transport.written = c.transport.written ++ front) ∧
    lines text.toList =
      ((headLines r.head chunked).map String.toList).flatMap lines ++ [[], []] ∧
    (lines text.toList = (headLines r.head chunked).map String.toList ++ [[], []] ↔ r.Unbroken) ∧
    ∃ front, Bytes.ofText text = front ++ headEnd ∧
      (r.Unbroken → ∀ s, cutAt? headEnd (Bytes.ofText text ++ s) = some (front, s)) := by
  intro chunked text sent
  obtain ⟨front, hfront, hcut⟩ := cutAt?_headText r.head chunked
  refine ⟨head_goes_first c r.head body cells, lines_headText r.head chunked, ?_, front, hfront,
    fun hu => hcut (r.unbroken_head.mpr hu)⟩
  rw [lines_headText_iff, r.unbroken_head]

/-- A break in a value makes a header line of its own. -/
theorem broken_value_adds_header :
    let plain : Request := ⟨.get, ⟨⟨.http, "storage.local", 9000⟩, "/bucket/key"⟩, .empty, .empty⟩
    let r := plain.withHeader "x-note" "a\r\nx-admin: yes"
    let sent := (ofTransport (.ofReads [])).sendRequest r.head none .empty
    Request.parse .get "http://storage.local:9000/bucket/key" = .ok plain ∧
      sent.outcome = some (.ok ()) ∧
      sent.connection.transport.written = Bytes.ofText (headText r.head false) ∧
      lines (headText r.head false).toList ≠
        (headLines r.head false).map String.toList ++ [[], []] ∧
      "x-admin: yes".toList ∈ lines (headText r.head false).toList := by
  intro plain r sent
  exact ⟨by rfl, by decide +kernel, by decide +kernel, by decide +kernel, by decide +kernel⟩

end Connection

end Wire

end Courier
