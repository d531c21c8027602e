import Courier.Proofs.Integrity.Uploading
import Courier.Proofs.Stream.Folding
import Courier.Proofs.Wire.Reuse
import Courier.Proofs.Wire.Sending
import Courier.Http.Request
import Courier.Stream.Rules

/-! # Requests whose length is declared

A request goes out as its head and then what its body gave when it was read, in chunks only if the
head declares no length. The length that is declared is the one the body declares, and nothing holds
the body to it: the bytes behind the head are as many as declared if the body keeps its word, and a
body that was shortened by a filter does not.
-/

namespace Courier

theorem Filter.fold_nil (cells : Cells) (chunks : List Bytes) :
    fold [] cells chunks = ⟨.ok chunks.flatten, [], cells⟩ := by
  induction chunks with
  | nil => rfl
  | cons chunk chunks ih =>
    have hpush : pushAll [] chunk = (.ok (some chunk), []) := rfl
    rw [fold_cons_through hpush, ih]
    rfl

/-! ## The length in the head -/

theorem Request.first?_head {r : Request} {n : Nat}
    (hgiven : r.headers.contains Headers.contentLength = false) (hp : r.body.isPresent = true)
    (hn : r.body.declared = some n) :
    r.head.headers.first? Headers.contentLength = some (toString n) := by
  have hhost : (if r.headers.contains Headers.host then r.headers
      else r.headers.insert Headers.host r.endpoint.authority).contains Headers.contentLength =
        false := by
    split
    · exact hgiven
    · rw [Headers.contains_insert_of_ne _ (by decide)]
      exact hgiven
  simp only [Request.head, Request.wireHeaders, hp, hhost, hn, Bool.not_false, Bool.and_self,
    if_true]
  exact Headers.first?_insert _ _ _

/-! ## Bodies that keep their word -/

namespace RequestBody

/-- Whatever the body gives is as long as it declares. -/
def KeepsLength (b : RequestBody) : Prop :=
  ∀ n bytes, b.declared = some n → b.Gives bytes → bytes.length = n

theorem keepsLength_buffered (bytes : Bytes) : (buffered bytes).KeepsLength := by
  rintro n _ ⟨⟩ ⟨⟩
  rfl

theorem keepsLength_oneShot (k : Counter) (chunks : List Bytes) :
    (streaming (.oneShot k (.ofChunks chunks))).KeepsLength := by
  intro n bytes hn hg
  have hdeclared : Bytes.totalLength chunks = n := Option.some.inj hn
  cases hg with
  | @streamed _ opened given hy =>
    obtain ⟨c', hr⟩ := hy .empty
    cases opened with
    | zero =>
      have hcollect := (ByteStream.collects_withFilters chunks [] .empty).1
      have hread : ((ByteStream.ofChunks chunks).withFilters []).readAll .empty =
          (given, .finished, c') := hr
      simp only [ByteStream.collect, hread, collected, Filter.fold_nil, Prod.mk.injEq,
        Option.some.injEq, Except.ok.injEq] at hcollect
      rw [hcollect.1, List.flatten_filter_not_isEmpty, ← Bytes.totalLength_eq, hdeclared]
    | succ => cases hr

theorem gives_of_readAll {b : RequestBody} {cells cells' c : Cells} {body : ByteStream}
    {chunks : List Bytes} (ho : b.openStream cells = (some body, cells'))
    (hr : body.readAll cells' = (chunks, .finished, c)) : b.Gives chunks.flatten := by
  cases b with
  | empty => cases ho
  | buffered bytes =>
    cases ho
    obtain ⟨held, hread, hflat⟩ := ByteStream.readAll_ofBytes bytes cells
    rw [hread] at hr
    cases hr
    rw [hflat]
    exact .held
  | streaming p =>
    cases ho
    exact .streamed (p.yields_of_opened (ByteStream.yields_of_readAll hr))

end RequestBody

namespace Wire

theorem Transport.written_of_write {t t' : Transport} {data : Bytes}
    (h : t.write data = (.ok (), t')) : t'.written = t.written ++ data := by
  unfold Transport.write at h
  split at h
  · dsimp only at h
    generalize (if t.writeMax = some 0 then 0 else min _ data.length) = taken at h
    by_cases htaken : taken = data.length
    · rw [if_pos htaken] at h
      cases h
      rw [htaken, List.take_length]
    · rw [if_neg htaken] at h
      cases h
  · split at h
    · cases h
    · cases h
      rfl

namespace Connection

variable {c c' : Connection} {chunked : Bool}

/-! ## What is written -/

/-- What goes out for a body that is read in these chunks. -/
def bodyBytes (chunked : Bool) (chunks : List Bytes) : Bytes :=
  if chunked then chunks.flatMap (fun chunk => (chunkParts chunk).flatten) ++ lastChunk
  else chunks.flatten

theorem bodyBytes_cons (chunked : Bool) (chunk : Bytes) (chunks : List Bytes) :
    bodyBytes chunked (chunk :: chunks) =
      (if chunked then chunkParts chunk else [chunk]).flatten ++ bodyBytes chunked chunks := by
  cases chunked with
  | true => simp only [bodyBytes, if_true, List.flatMap_cons, List.append_assoc]
  | false => simp [bodyBytes]

theorem written_of_write {data : Bytes} (h : c.write data = (.ok (), c')) :
    c'.transport.written = c.transport.written ++ data := by
  unfold Connection.write at h
  split at h
  · rename_i t ht
    cases h
    exact Transport.written_of_write ht
  · cases h

theorem written_of_flush (h : c.flush = (.ok (), c')) :
    c'.transport.written = c.transport.written := by
  unfold Connection.flush at h
  split at h
  · cases h
    rfl
  · cases h

theorem written_of_writeParts {parts : List Bytes} (h : writeParts parts c = (.ok (), c')) :
    c'.transport.written = c.transport.written ++ parts.flatten := by
  induction parts generalizing c with
  | nil =>
    cases h
    simp
  | cons part parts ih =>
    unfold writeParts at h
    split at h
    · rename_i hw
      rw [ih h, written_of_write hw, List.flatten_cons, List.append_assoc]
    · rename_i hw
      exact absurd h (hw c')

/-- Each chunk goes out as it is pulled, so the induction is on the pulls. -/
theorem written_of_writeChunks {pulls : Nat} {sub : Subscription} {ch : Channel} {cells : Cells}
    (ho : (writeChunks chunked pulls c sub ch cells).outcome = some (.ok ())) :
    (writeChunks chunked pulls c sub ch cells).connection.transport.written =
      c.transport.written ++ bodyBytes chunked (sub.pullAll pulls ch cells).1 := by
  induction pulls generalizing c sub ch cells with
  | zero => cases ho
  | succ pulls ih =>
    unfold writeChunks at ho ⊢
    unfold Subscription.pullAll
    dsimp only at ho ⊢
    cases hp : (sub.pull ch cells).outcome with
    | pending =>
      rw [hp] at ho
      cases ho
    | failed e =>
      rw [hp] at ho
      cases ho
    | chunk chunk =>
      rw [hp] at ho
      dsimp only at ho ⊢
      rw [bodyBytes_cons]
      generalize (if chunked = true then chunkParts chunk else [chunk]) = parts at ho ⊢
      rcases hw : writeParts parts c with ⟨e | _, c'⟩
      · rw [hw] at ho
        cases ho
      · rw [hw] at ho
        rw [← List.append_assoc, ← written_of_writeParts hw]
        exact ih ho
    | finished =>
      rw [hp] at ho
      dsimp only at ho ⊢
      cases chunked with
      | false => simp [bodyBytes]
      | true =>
        rw [if_pos rfl] at ho ⊢
        rcases hw : c.write lastChunk with ⟨e | _, c'⟩
        · rw [hw] at ho
          cases ho
        · exact written_of_write hw

theorem written_of_writeBody {body : ByteStream} {cells c₁ : Cells} {chunks : List Bytes}
    (hr : body.readAll cells = (chunks, .finished, c₁))
    (ho : (c.writeBody chunked body cells).outcome = some (.ok ())) :
    (c.writeBody chunked body cells).connection.transport.written =
      c.transport.written ++ bodyBytes chunked chunks := by
  unfold writeBody at ho ⊢
  unfold ByteStream.readAll at hr
  cases hs : body.subscribe with
  | error e =>
    rw [hs] at ho
    cases ho
  | ok taken =>
    rw [hs] at ho hr
    have hchunks : (taken.1.readAll taken.2.channel cells).1 = chunks := (Prod.mk.inj hr).1
    rw [← hchunks]
    exact written_of_writeChunks ho

theorem written_of_flushed {sent : Sent} (ho : sent.flushed.outcome = some (.ok ())) :
    sent.flushed.connection.transport.written = sent.connection.transport.written := by
  obtain ⟨hout, -⟩ := Sent.outcome_of_flushed ho
  unfold Sent.flushed at ho ⊢
  rw [hout] at ho ⊢
  exact written_of_flush (Prod.ext (Option.some.inj ho) rfl)

theorem written_of_sendRequest {head : RequestHead} {body : ByteStream} {cells : Cells}
    (ho : (c.sendRequest head (some body) cells).outcome = some (.ok ())) :
    ∃ chunks, body.readAll cells =
        (chunks, .finished, (c.sendRequest head (some body) cells).cells) ∧
      (c.sendRequest head (some body) cells).connection.transport.written =
        c.transport.written ++
          Bytes.ofText (headText head (isChunkedRequest head (some body))) ++
            bodyBytes (isChunkedRequest head (some body)) chunks := by
  obtain ⟨chunks, hr⟩ := sendRequest_reads ho
  refine ⟨chunks, hr, ?_⟩
  rw [sendRequest_eq] at ho ⊢
  generalize isChunkedRequest head (some body) = chunked at ho ⊢
  rcases hw : (c.begin head.method).writeHead head chunked with ⟨e | _, c'⟩
  · rw [hw] at ho
    cases ho
  · rw [hw] at ho
    have hhead := written_of_write hw
    obtain ⟨hout, -⟩ := Sent.outcome_of_flushed ho
    dsimp only at ho ⊢
    rw [written_of_flushed ho]
    exact (written_of_writeBody hr hout).trans (congrArg (· ++ _) hhead)

/-! ## Behind the blank line -/

theorem join_ended {α : Type} (line : α → String) (as : List α) (text : String) :
    ∃ lines, text ++ "\r\n" ++ String.join (as.map fun a => line a ++ "\r\n") =
      lines ++ "\r\n" := by
  induction as generalizing text with
  | nil => exact ⟨text, by simp⟩
  | cons a as ih =>
    obtain ⟨lines, h⟩ := ih (text ++ "\r\n" ++ line a)
    refine ⟨lines, ?_⟩
    rw [← h, List.map_cons, String.join_cons]
    simp only [String.append_assoc]

theorem headText_blank (head : RequestHead) :
    ∃ lines, headText head false = lines ++ "\r\n\r\n" := by
  obtain ⟨lines, h⟩ := join_ended (fun e : String × String => e.1 ++ ": " ++ e.2)
    head.headers.entries (head.method.name ++ " " ++ head.path ++ " HTTP/1.1")
  refine ⟨lines, ?_⟩
  have hline : " HTTP/1.1\r\n" = " HTTP/1.1" ++ "\r\n" := rfl
  have hblank : "\r\n\r\n" = "\r\n" ++ "\r\n" := rfl
  have hended := congrArg (· ++ "\r\n") h
  rw [headText, if_neg Bool.false_ne_true, hline, hblank]
  simp only [String.append_assoc, String.empty_append] at hended ⊢
  exact hended

/-- Take a request whose length the body declares and no header gives, and a body opened from it. If
the request goes out, the head gives that length, and what is written behind its blank line is what
the body gave when it was read to its end, chunk after chunk. That is as many bytes as declared if
the body keeps its word, as one in memory does. -/
theorem body_follows_head {r : Request} {n : Nat} {body : ByteStream} {cells cells' : Cells}
    (hgiven : r.headers.contains Headers.contentLength = false)
    (hn : r.body.declared = some n) (ho : r.body.openStream cells = (some body, cells'))
    (hsent : (c.sendRequest r.head (some body) cells').outcome = some (.ok ())) :
    r.head.headers.first? Headers.contentLength = some (toString n) ∧
      ∃ lines chunks,
        headText r.head false = lines ++ "\r\n\r\n" ∧
        body.readAll cells' =
          (chunks, .finished, (c.sendRequest r.head (some body) cells').cells) ∧
        (c.sendRequest r.head (some body) cells').connection.transport.written =
          c.transport.written ++ Bytes.ofText (lines ++ "\r\n\r\n") ++ chunks.flatten ∧
        r.body.Gives chunks.flatten ∧ (r.body.KeepsLength → chunks.flatten.length = n) := by
  have hp : r.body.isPresent = true := by
    cases hb : r.body with
    | empty =>
      rw [hb] at ho
      cases ho
    | buffered => rfl
    | streaming => rfl
  have hlength := r.first?_head hgiven hp hn
  have hplain : isChunkedRequest r.head (some body) = false := by
    rw [isChunkedRequest, Headers.contains_of_first? hlength]
    rfl
  obtain ⟨lines, hlines⟩ := headText_blank r.head
  obtain ⟨chunks, hr, hw⟩ := written_of_sendRequest hsent
  have hgives := RequestBody.gives_of_readAll ho hr
  rw [hplain, hlines] at hw
  exact ⟨hlength, lines, chunks, hlines, hr, hw, hgives, fun hk => hk n _ hn hgives⟩

/-- A body in two chunks that can be read once. -/
theorem body_follows_head_two_chunks :
    let body := RequestBody.streaming (.oneShot ⟨0⟩ (.ofChunks [[97, 98], [99, 100]]))
    let r : Request := ⟨.put, ⟨⟨.http, "storage.local", 9000⟩, "/bucket/key"⟩, .empty, body⟩
    ∃ (lines : String) (chunks : List Bytes),
      headText r.head false = lines ++ "\r\n\r\n" ∧
      ((ofTransport (.ofReads [])).sendRequest r.head (r.body.openStream ⟨[], [0]⟩).1
        ⟨[], [1]⟩).connection.transport.written =
          Bytes.ofText (lines ++ "\r\n\r\n") ++ chunks.flatten ∧
      chunks.flatten.length = 4 := by
  intro body r
  obtain ⟨-, lines, chunks, hlines, -, hw, -, hk⟩ :=
    body_follows_head (c := ofTransport (.ofReads [])) (r := r) (n := 4) (by decide) (by decide)
      (show r.body.openStream ⟨[], [0]⟩ = _ from rfl) (by decide +kernel)
  exact ⟨lines, chunks, hlines, hw, hk (RequestBody.keepsLength_oneShot _ _)⟩

/-- Of two chunks, which are what is declared, a filter withholds the second. The request goes out,
two bytes short of the length that its head gives, and the connection may be used again. -/
theorem filtered_body_falls_short :
    let stream := (ByteStream.ofChunks [[97, 98], [99, 100]]).withFilter
      (.ofRule (.everyOther "drop-even"))
    let r : Request := ⟨.put, ⟨⟨.http, "storage.local", 9000⟩, "/bucket/key"⟩, .empty,
      .streaming (.oneShot ⟨0⟩ stream)⟩
    let sent := (ofTransport (.ofReads [])).sendRequest r.head
      (r.body.openStream ⟨[], [0]⟩).1 (r.body.openStream ⟨[], [0]⟩).2
    r.headers.contains Headers.contentLength = false ∧ r.body.declared = some 4 ∧
      r.head.headers.first? Headers.contentLength = some "4" ∧
      sent.outcome = some (.ok ()) ∧
      sent.connection.transport.written = Bytes.ofText (headText r.head false) ++ [97, 98] ∧
      sent.connection.isReusable = true := by
  intro stream r sent
  refine ⟨by decide +kernel, by decide +kernel, by decide +kernel, by decide +kernel,
    by decide +kernel, by decide +kernel⟩

end Connection

end Wire

end Courier
