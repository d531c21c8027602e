import Mathlib.Data.List.TakeWhile
import Courier.Proofs.Integrity.Releasing
import Courier.Proofs.Wire.Conversation
import Courier.Proofs.Wire.RequestFraming

/-! # Requests sent in chunks

What is written for a body in chunks is a chunked body as an answer may carry it, so it is read back
as it was given. That takes chunks that are not empty: an empty one is written as the end of the
body, which is therefore read up to it, with what comes behind it left over.
-/

namespace Courier

/-! ## Streams without empty chunks -/

/-- A splitter sets something free or nothing, but no empty chunk. -/
theorem Trailing.Splitter.ne_nil_of_push {s s' : Splitter} {chunk out : Bytes} (hne : chunk ≠ [])
    (h : s.push chunk = (.ok (some out), s')) : out ≠ [] := by
  have htakes := s.takes_push chunk
  rw [h] at htakes
  generalize hp : ((.ok (some out), s') : Except Fault (Option Bytes) × Splitter) = p at htakes
  cases htakes with
  | inside =>
    cases hp
    exact hne
  | matched =>
    rw [Prod.mk.injEq, Except.ok.injEq] at hp
    have ho := hp.1
    split at ho
    · cases ho
    · rename_i he
      cases ho
      exact mt List.isEmpty_iff.mpr he
  | _ => cases hp

namespace Filter

/-- What it makes of a chunk that is not empty is not empty either. -/
def Substantial : Filter → Prop
  | trailing _ => True
  | uploadDigest _ _ => True
  | custom rule _ => ∀ seen chunk out, chunk ≠ [] → rule.onChunk seen chunk = .ok (some out) →
      out ≠ []

variable {f f' : Filter} {fs fs' : List Filter} {chunk out : Bytes}
  {res : Except Error (Option Bytes)}

theorem Substantial.push (h : f.Substantial) (hne : chunk ≠ []) (hp : f.push chunk = (res, f')) :
    f'.Substantial ∧ ∀ out, res = .ok (some out) → out ≠ [] := by
  cases f with
  | trailing s =>
    unfold Filter.push at hp
    rcases hpush : s.push chunk with ⟨e | released, s'⟩
    · simp only [hpush] at hp
      cases hp
      exact ⟨trivial, fun _ ho => by cases ho⟩
    · simp only [hpush] at hp
      cases hp
      refine ⟨trivial, fun out ho => ?_⟩
      cases ho
      exact Trailing.Splitter.ne_nil_of_push hne hpush
  | uploadDigest slot hasher =>
    cases hp
    refine ⟨trivial, fun out ho => ?_⟩
    cases ho
    exact hne
  | custom rule seen =>
    cases hp
    exact ⟨h, fun out ho => h seen chunk out hne ho⟩

theorem substantial_pushAll (h : ∀ f ∈ fs, f.Substantial) (hne : chunk ≠ [])
    (hp : pushAll fs chunk = (res, fs')) :
    (∀ f ∈ fs', f.Substantial) ∧ ∀ out, res = .ok (some out) → out ≠ [] := by
  induction fs generalizing chunk res fs' with
  | nil =>
    cases hp
    refine ⟨h, fun out ho => ?_⟩
    cases ho
    exact hne
  | cons f fs ih =>
    obtain ⟨hf, hfs⟩ := List.forall_mem_cons.mp h
    unfold pushAll at hp
    rcases hpush : f.push chunk with ⟨e | _ | next, f'⟩
    · rw [hpush] at hp
      cases hp
      exact ⟨List.forall_mem_cons.mpr ⟨(hf.push hne hpush).1, hfs⟩, fun _ ho => by cases ho⟩
    · rw [hpush] at hp
      cases hp
      exact ⟨List.forall_mem_cons.mpr ⟨(hf.push hne hpush).1, hfs⟩, fun _ ho => by cases ho⟩
    · rw [hpush] at hp
      obtain ⟨hf', hnext⟩ := hf.push hne hpush
      rcases hrest : pushAll fs next with ⟨res', fs''⟩
      obtain ⟨hfs'', hout⟩ := ih hfs (hnext next rfl) hrest
      dsimp only at hp
      rw [hrest] at hp
      cases hp
      exact ⟨List.forall_mem_cons.mpr ⟨hf', hfs''⟩, hout⟩

end Filter

namespace Subscription

variable {fs : List Filter} {ch : Channel} {cells : Cells} {chunks : List Bytes}

/-- The induction is on the chunks still to come, as for what they come to when collected. -/
theorem ne_nil_of_mem_look (h : ch.Stores chunks) (hc : ∀ chunk ∈ chunks, chunk ≠ [])
    (hf : ∀ f ∈ fs, f.Substantial) {looks pulls : Nat} (hl : chunks.length < looks)
    (hp : chunks.length ≤ pulls) :
    ∀ out ∈ (goOn pulls (look true looks ⟨fs, false⟩ ch cells)).1, out ≠ [] := by
  induction chunks generalizing fs ch looks pulls with
  | nil =>
    obtain ⟨looks, rfl⟩ := Nat.exists_eq_add_one_of_ne_zero (Nat.ne_of_gt hl)
    obtain ⟨hq, ht⟩ := h.primed_nil
    rw [look_terminal hq ht, goOn_of_close]
    exact fun _ hm => absurd hm List.not_mem_nil
  | cons chunk chunks ih =>
    obtain ⟨looks, rfl⟩ := Nat.exists_eq_add_one_of_ne_zero (Nat.ne_zero_of_lt hl)
    obtain ⟨rest, hq, hs⟩ := h.primed_cons
    obtain ⟨hne, hcs⟩ := List.forall_mem_cons.mp hc
    rw [List.length_cons] at hl hp
    rw [look_cons hq]
    rcases hpush : Filter.pushAll fs chunk with ⟨e | _ | out, fs'⟩
    · exact fun _ hm => absurd hm List.not_mem_nil
    · obtain ⟨hf', -⟩ := Filter.substantial_pushAll hf hne hpush
      exact ih (hs.grant 1) hcs hf' (by omega) (by omega)
    · obtain ⟨hf', hout⟩ := Filter.substantial_pushAll hf hne hpush
      obtain ⟨pulls, rfl⟩ := Nat.exists_eq_add_one_of_ne_zero (Nat.ne_zero_of_lt hp)
      have hpull := pullAll_succ pulls ⟨fs', false⟩ { ch.primed true with queue := rest } cells
      rw [pull_of_awake hs.awake] at hpull
      simp only [goOn]
      rw [hpull]
      refine List.forall_mem_cons.mpr ⟨hout out rfl, ih hs.resume hcs hf' ?_ ?_⟩
      · rw [hs.stored]
        exact Nat.lt_succ_self _
      · exact Nat.le_of_succ_le_succ hp

end Subscription

/-- No chunk of a stream from memory is empty, unless a filter makes one so. -/
theorem ByteStream.ne_nil_of_mem_readAll (chunks : List Bytes) {fs : List Filter}
    (hf : ∀ f ∈ fs, f.Substantial) (cells : Cells) :
    ∀ out ∈ (((ofChunks chunks).withFilters fs).readAll cells).1, out ≠ [] := by
  obtain ⟨t, ht, hs⟩ := subscribe_withFilters chunks fs
  have hc : ∀ chunk ∈ chunks.filter (!·.isEmpty), chunk ≠ [] := by
    intro chunk hm
    have := (List.mem_filter.mp hm).2
    simpa using this
  have hstored := hs.stored
  unfold readAll
  rw [ht]
  change ∀ out ∈ (Subscription.pullAll (t.channel.stored + 1) ⟨fs, false⟩ t.channel cells).1, _
  rw [Subscription.pullAll_succ, Subscription.pull_of_awake hs.awake]
  exact Subscription.ne_nil_of_mem_look hs.resume hc hf
    (Nat.lt_succ_of_le (Nat.le_of_eq hstored.symm)) (Nat.le_of_eq hstored.symm)

namespace Wire

/-! ## Chunks as they are written -/

/-- A chunk whose size line tells its length and is not that of the last. -/
def Encodable (chunk : Bytes) : Prop :=
  chunk ≠ [] ∧ chunk.length < wordSize 64

/-- The chunk as it stands in a body. -/
def Chunk.written (data : Bytes) : Chunk :=
  ⟨⟨String.ofList (Nat.toDigits 16 data.length), ""⟩, data⟩

def SizeLine.last : SizeLine :=
  ⟨"0", ""⟩

theorem SizeLine.last_gives : SizeLine.last.Gives 0 where
  spells := .digit rfl
  word := by decide
  blank := nofun
  oneLine := by decide

theorem Chunk.written_wellFormed {data : Bytes} (h : Encodable data) :
    (Chunk.written data).WellFormed := by
  have hspells : Text.Spells 16 (Nat.toDigits 16 data.length) data.length :=
    .toDigits (by decide) (by decide) _
  refine ⟨⟨?_, h.2, nofun, ?_⟩, h.1⟩
  · rwa [written, String.toList_ofList]
  · have htext : (Chunk.written data).size.text.toList = Nat.toDigits 16 data.length := by
      simp [written, SizeLine.text]
    rw [htext]
    exact oneLine_of_not_mem (hspells.not_mem rfl)

theorem Chunk.wellFormed_of_mem_written {chunks : List Bytes}
    (h : ∀ chunk ∈ chunks, Encodable chunk) : ∀ c ∈ chunks.map Chunk.written, c.WellFormed := by
  intro c hc
  obtain ⟨chunk, hm, rfl⟩ := List.mem_map.mp hc
  exact Chunk.written_wellFormed (h chunk hm)

theorem payload_written (chunks : List Bytes) :
    (BodyText.chunked (chunks.map Chunk.written) .last []).payload = chunks.flatten := by
  rw [BodyText.payload, List.flatMap_map]
  exact List.flatMap_id'

theorem bodyBytes_eq (chunks : List Bytes) :
    Connection.bodyBytes true chunks =
      (BodyText.chunked (chunks.map Chunk.written) .last []).bytes := by
  have hlast : lastChunk = Bytes.ofText SizeLine.last.text ++ crlf ++ (ended [] ++ crlf) := by
    decide
  have hchunk (chunk : Bytes) : (chunkParts chunk).flatten = (Chunk.written chunk).bytes := by
    simp [chunkParts, Chunk.bytes, Chunk.written, SizeLine.text]
  rw [Connection.bodyBytes, if_pos rfl, hlast, BodyText.bytes, List.flatMap_map]
  simp only [hchunk]

/-! ## Empty chunks -/

/-- An empty chunk is written as the end of a body. -/
theorem bodyBytes_cons_nil (chunks : List Bytes) :
    Connection.bodyBytes true ([] :: chunks) =
      Connection.bodyBytes true [] ++ Connection.bodyBytes true chunks := by
  have hparts : (chunkParts []).flatten = lastChunk := by decide
  rw [Connection.bodyBytes_cons, if_pos rfl, hparts]
  rfl

/-- The chunks before the first empty one. -/
def lead (chunks : List Bytes) : List Bytes :=
  chunks.takeWhile (!·.isEmpty)

/-- What is written behind the first empty chunk. -/
def leftover (chunks : List Bytes) : Bytes :=
  match chunks.dropWhile (!·.isEmpty) with
  | [] => []
  | _ :: behind => Connection.bodyBytes true behind

theorem bodyBytes_lead (chunks : List Bytes) :
    Connection.bodyBytes true chunks =
      Connection.bodyBytes true (lead chunks) ++ leftover chunks := by
  induction chunks with
  | nil => simp [lead, leftover]
  | cons chunk chunks ih =>
    cases chunk with
    | nil => simpa [lead, leftover] using bodyBytes_cons_nil chunks
    | cons byte bytes =>
      have hlead : lead ((byte :: bytes) :: chunks) = (byte :: bytes) :: lead chunks := rfl
      have hleft : leftover ((byte :: bytes) :: chunks) = leftover chunks := rfl
      rw [hlead, hleft, Connection.bodyBytes_cons, Connection.bodyBytes_cons, ih,
        List.append_assoc]

theorem leftover_eq_nil {chunks : List Bytes} :
    leftover chunks = [] ↔ ∀ chunk ∈ chunks, chunk ≠ [] := by
  have hlast (chunks : List Bytes) : Connection.bodyBytes true chunks ≠ [] := by
    rw [Connection.bodyBytes, if_pos rfl]
    exact List.append_ne_nil_of_right_ne_nil _ (by decide)
  induction chunks with
  | nil => exact iff_of_true rfl fun _ hm => absurd hm List.not_mem_nil
  | cons chunk chunks ih =>
    cases chunk with
    | nil => exact iff_of_false (hlast chunks) fun h => h [] List.mem_cons_self rfl
    | cons byte bytes =>
      refine ih.trans ⟨fun h => ?_, fun h => (List.forall_mem_cons.mp h).2⟩
      exact List.forall_mem_cons.mpr ⟨List.cons_ne_nil byte bytes, h⟩

theorem lead_eq_self {chunks : List Bytes} (h : ∀ chunk ∈ chunks, chunk ≠ []) :
    lead chunks = chunks := by
  refine List.takeWhile_eq_self_iff.mpr fun chunk hm => ?_
  simpa using h chunk hm

theorem encodable_of_mem_lead {chunks : List Bytes} {chunk : Bytes}
    (h : ∀ chunk ∈ chunks, chunk.length < wordSize 64) (hm : chunk ∈ lead chunks) :
    Encodable chunk := by
  have hne := List.mem_takeWhile_imp hm
  exact ⟨by simpa using hne, h chunk ((List.takeWhile_prefix _).subset hm)⟩

namespace Connection

variable {base c : Connection} {s : Bytes}

/-- The connection reads this head and then this body, in whatever pieces, and these bytes are
left. -/
def ReadsBack (c : Connection) (h : HeadText) (body left : Bytes) : Prop :=
  ∃ c₁ c₂ pieces, c.readHead = (.ok ⟨h.status, h.reason, ⟨h.fields⟩⟩, c₁) ∧
    Drains c₁.readChunk pieces none c₂ ∧ pieces.flatten = body ∧ c₂.ahead = left

theorem ReadsBack.unique {h : HeadText} {body body' left left' : Bytes}
    (hr : c.ReadsBack h body left) (hr' : c.ReadsBack h body' left') :
    body = body' ∧ left = left' := by
  obtain ⟨c₁, c₂, pieces, hread, hd, rfl, rfl⟩ := hr
  obtain ⟨c₁', c₂', pieces', hread', hd', rfl, rfl⟩ := hr'
  cases hread.symm.trans hread'
  obtain ⟨rfl, -, rfl⟩ := hd.unique hd'
  exact ⟨rfl, rfl⟩

/-- The head and the chunks up to the first empty one make an answer, which is read as any other. -/
theorem Facing.readsBack {h : HeadText} {method : Method} {chunks : List Bytes}
    (hf : Facing base (h.bytes ++ bodyBytes true chunks) c) (hm : base.method = some method)
    (hw : h.WellFormed) (hfinal : h.Final) (hb : ¬ BodyText.Bodiless method h)
    (hc : Head.isChunked h.headers = true)
    (hword : ∀ chunk ∈ chunks, chunk.length < wordSize 64) :
    c.ReadsBack h (lead chunks).flatten (leftover chunks) := by
  have ha : Answer.WellFormed method ⟨[], h, .chunked ((lead chunks).map Chunk.written) .last []⟩ :=
    ⟨fun _ hi => absurd hi List.not_mem_nil, hw, hfinal,
      .chunked hb hc (Chunk.wellFormed_of_mem_written fun _ => encodable_of_mem_lead hword)
        SizeLine.last_gives fun _ ht => absurd ht List.not_mem_nil⟩
  rw [bodyBytes_lead, bodyBytes_eq, ← List.append_assoc] at hf
  obtain ⟨c₁, c₂, pieces, hr, hd, hpay, hf₂⟩ := hf.readAnswer hm ha
  exact ⟨c₁, c₂, pieces, hr, hd, hpay.trans (payload_written _), hf₂.ahead_eq⟩

/-- Take a body that gives some bytes when it is collected, and a head that declares no length. Over
a transport that takes all that is written the request goes out; and if it goes out, what is written
behind its head is read back, behind any head of an answer that announces chunks and admits a body,
however the reads cut it: as the chunks up to the first empty one, with the end after them and all
that was written behind it left. So it is read back as those bytes, with no byte left, just if the
body gives no empty chunk. -/
theorem chunks_read_back {head : RequestHead} {body : ByteStream} {cells : Cells} {b : Bytes}
    (hlength : head.headers.contains Headers.contentLength = false)
    (hb : (body.collect cells).1 = some (.ok b))
    (hword : ∀ chunk ∈ (body.readAll cells).1, chunk.length < wordSize 64) :
    let sent := c.sendRequest head (some body) cells
    let chunks := (body.readAll cells).1
    (c.transport.Willing → sent.outcome = some (.ok ())) ∧
      (sent.outcome = some (.ok ()) → ∃ w,
        sent.connection.transport.written =
          c.transport.written ++ Bytes.ofText (headText head true) ++ w ∧
        ∀ (t : Transport) (method : Method) (h : HeadText) (cuts : List Bytes),
          h.WellFormed → h.Final → ¬ BodyText.Bodiless method h →
            Head.isChunked h.headers = true → Cuts cuts (h.bytes ++ w) →
              let reader := (ofTransport { t with reads := cuts.map .data }).begin method
              reader.ReadsBack h (lead chunks).flatten (leftover chunks) ∧
                (reader.ReadsBack h b [] ↔ ∀ chunk ∈ chunks, chunk ≠ [])) := by
  intro sent chunks
  rcases hr : body.readAll cells with ⟨chunks', outcome, cells'⟩
  obtain rfl : chunks = chunks' := congrArg Prod.fst hr
  have hcollected : collected chunks outcome = some (.ok b) := by
    rw [← hb, ByteStream.collect, hr]
  have hfinished : outcome = .finished ∧ chunks.flatten = b := by
    cases outcome <;> cases hcollected
    exact ⟨rfl, rfl⟩
  obtain ⟨rfl, rfl⟩ := hfinished
  have hchunked : isChunkedRequest head (some body) = true := by
    simp [isChunkedRequest, hlength]
  constructor
  · intro ht
    have hreadable : Readable (some body) cells := by
      rintro _ ⟨⟩
      rw [hr]
    obtain ⟨_, hout, _⟩ := sendRequest_willing ht head hreadable
    exact hout
  · intro hout
    obtain ⟨chunks', hr', hw⟩ := written_of_sendRequest hout
    cases hr.symm.trans hr'
    rw [hchunked] at hw
    refine ⟨_, hw, fun t method h cuts hwf hfinal hbody hc hcuts => ?_⟩
    intro reader
    have hfacing := (facing_fresh (t := t) hcuts).update (g := fun c => c.begin method)
      fun _ _ => rfl
    have hread : reader.ReadsBack h (lead chunks).flatten (leftover chunks) :=
      hfacing.readsBack rfl hwf hfinal hbody hc hword
    refine ⟨hread, fun h => leftover_eq_nil.mp (hread.unique h).2, fun hne => ?_⟩
    rwa [lead_eq_self hne, leftover_eq_nil.mpr hne] at hread

/-- Three letters in two chunks, with an empty one between them that the stream leaves out, and a
digest taken on the way. -/
theorem chunks_read_back_abc :
    let body := (ByteStream.ofChunks [[97, 98], [], [99]]).withFilters [.digestInto ⟨0⟩]
    let head : RequestHead := ⟨.put, "/bucket/key", .empty⟩
    let h : HeadText := ⟨200, "OK", [("Transfer-Encoding", "chunked")]⟩
    head.headers.contains Headers.contentLength = false ∧
      (body.collect .empty).1 = some (.ok [97, 98, 99]) ∧
      (∀ chunk ∈ (body.readAll .empty).1, chunk.length < wordSize 64) ∧
      ∃ w, ((ofTransport (.ofReads [])).sendRequest head (some body)
          .empty).connection.transport.written = Bytes.ofText (headText head true) ++ w ∧
        ((ofTransport { Transport.ofReads [] with
          reads := [h.bytes ++ w].map .data }).begin .put).ReadsBack h [97, 98, 99] [] := by
  intro body head h
  have hlength : head.headers.contains Headers.contentLength = false := rfl
  have hb : (body.collect .empty).1 = some (.ok [97, 98, 99]) := by decide +kernel
  have hword : ∀ chunk ∈ (body.readAll .empty).1, chunk.length < wordSize 64 := by decide +kernel
  have hne : ∀ chunk ∈ (body.readAll .empty).1, chunk ≠ [] := fun _ =>
    ByteStream.ne_nil_of_mem_readAll _ (by simp [Filter.digestInto, Filter.Substantial]) _ _
  obtain ⟨hout, hsent⟩ :=
    chunks_read_back (c := ofTransport (.ofReads [])) hlength hb hword
  obtain ⟨w, hw, hread⟩ := hsent (hout ⟨rfl, by decide, rfl⟩)
  refine ⟨hlength, hb, hword, w, hw,
    (hread _ .put h [h.bytes ++ w] ?_ ?_ ?_ ?_ ?_).2.mpr hne⟩
  · refine ⟨by decide +kernel, by decide +kernel, ?_, by decide +kernel⟩
    intro f hf
    cases List.mem_singleton.mp hf
    exact ⟨by decide +kernel, by decide +kernel, by decide +kernel, by decide +kernel⟩
  · unfold HeadText.Final
    decide
  · unfold BodyText.Bodiless
    decide
  · decide +kernel
  · refine ⟨?_, List.flatten_singleton⟩
    rw [List.forall_mem_singleton]
    exact List.append_ne_nil_of_left_ne_nil (by decide +kernel) w

theorem not_readsBack {h : HeadText} {body : Bytes} (hne : body ≠ [])
    (hend : c.readHead.2.readChunk.1 = .ok none) : ¬ c.ReadsBack h body [] := by
  rintro ⟨c₁, c₂, pieces, hr, hd, rfl, -⟩
  rw [hr] at hend
  generalize c₁.readChunk = p at hd hend
  cases hd with
  | ended => exact hne rfl
  | piece => cases hend

/-- Behind a head that admits no body the chunks are not read. Nor are they if a filter, which takes
a letter out, leaves nothing of the first chunk. -/
theorem chunks_not_read_back :
    let head : RequestHead := ⟨.get, "/bucket/key", .empty⟩
    let sent (body : ByteStream) := (ofTransport (.ofReads [])).sendRequest head (some body) .empty
    let facing (h : HeadText) (w : Bytes) :=
      (ofTransport (.ofReads [.data (h.bytes ++ w)])).begin .get
    let fields := [("Transfer-Encoding", "chunked")]
    (let body := ByteStream.ofChunks [[97, 98], [99]]
      let w := bodyBytes true [[97, 98], [99]]
      (body.collect .empty).1 = some (.ok [97, 98, 99]) ∧ (sent body).outcome = some (.ok ()) ∧
        (sent body).connection.transport.written = Bytes.ofText (headText head true) ++ w ∧
        ¬ (facing ⟨304, "Not Modified", fields⟩ w).ReadsBack ⟨304, "Not Modified", fields⟩
          [97, 98, 99] []) ∧
    (let body := (ByteStream.ofChunks [[97], [98]]).withFilter
        (.ofRule (.mapping "without-a" (·.filter (· ≠ 97))))
      let w := bodyBytes true [[], [98]]
      (body.collect .empty).1 = some (.ok [98]) ∧ (sent body).outcome = some (.ok ()) ∧
        (sent body).connection.transport.written = Bytes.ofText (headText head true) ++ w ∧
        ¬ (facing ⟨200, "OK", fields⟩ w).ReadsBack ⟨200, "OK", fields⟩ [98] []) := by
  intro head sent facing fields
  refine ⟨⟨?_, ?_, ?_, ?_⟩, ?_, ?_, ?_, ?_⟩
  · decide +kernel
  · decide +kernel
  · decide +kernel
  · exact not_readsBack (by decide) (by decide +kernel)
  · decide +kernel
  · decide +kernel
  · decide +kernel
  · exact not_readsBack (by decide) (by decide +kernel)

end Connection

end Wire

end Courier
