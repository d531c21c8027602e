import Courier.Proofs.Wire.Arrival

/-! # Requests going out

Sending does not look at what is to be read and leaves it alone. Over a transport that takes all
that is written, a request goes out whole if its body can be read to its end.
-/

namespace Courier.Wire

theorem Transport.write_reads (t : Transport) (reads : List ReadItem) (data : Bytes) :
    ({ t with reads } : Transport).write data =
      ((t.write data).1, { (t.write data).2 with reads }) := by
  unfold Transport.write
  dsimp only
  split
  · split <;> split <;> rfl
  · split <;> rfl

/-- The transport takes all that is written. -/
structure Transport.Willing (t : Transport) : Prop where
  room : t.room = none
  writeMax : t.writeMax ≠ some 0
  flushFault : t.flushFault = none

namespace Connection

variable {c base : Connection} {s : Bytes}

/-! ## The parts of a sending -/

def begin (c : Connection) (method : Method) : Connection :=
  { c with method := some method, framing := .done }

def writeHead (c : Connection) (head : RequestHead) (chunked : Bool) :
    Except Error Unit × Connection :=
  c.write (Bytes.ofText (headText head chunked))

def writeBody? (c : Connection) (chunked : Bool) (body : Option ByteStream) (cells : Cells) : Sent :=
  match body with
  | some body => c.writeBody chunked body cells
  | none => ⟨some (.ok ()), c, cells⟩

def Sent.flushed (sent : Sent) : Sent :=
  match sent.outcome with
  | some (.ok ()) => ⟨some sent.connection.flush.1, sent.connection.flush.2, sent.cells⟩
  | _ => sent

theorem sendRequest_eq (c : Connection) (head : RequestHead) (body : Option ByteStream)
    (cells : Cells) :
    c.sendRequest head body cells =
      match (c.begin head.method).writeHead head (isChunkedRequest head body) with
      | (.error e, c) => ⟨some (.error e), c, cells⟩
      | (.ok (), c) => (c.writeBody? (isChunkedRequest head body) body cells).flushed :=
  rfl

/-! ## What a sending can come to -/

/-- Only the transport changes, and the connection is broken if the writing fails. -/
inductive Wrote (c : Connection) : Except Error Unit × Connection → Prop

  | whole (t : Transport) : Wrote c (.ok (), { c with transport := t })

  | broke (e : Error) (t : Transport) : Wrote c (.error e, { c with transport := t, broken := true })

/-- What has become of a request. Only one whose body has been subscribed to before fails and leaves
the connection unbroken. -/
inductive Went (c : Connection) (body : Option ByteStream) : Sent → Prop

  | out (t : Transport) (cells : Cells) : Went c body ⟨some (.ok ()), { c with transport := t }, cells⟩

  | broke (e : Error) (t : Transport) (cells : Cells) :
      Went c body ⟨some (.error e), { c with transport := t, broken := true }, cells⟩

  | stuck (t : Transport) (cells : Cells) : Went c body ⟨none, { c with transport := t }, cells⟩

  | refused {b : ByteStream} {e : Error} (hb : body = some b) (hs : b.subscribe = .error e)
      (t : Transport) (cells : Cells) :
      Went c body ⟨some (.error e), { c with transport := t }, cells⟩

theorem Went.method_eq {body : Option ByteStream} {sent : Sent} (h : Went c body sent) :
    sent.connection.method = c.method := by
  cases h <;> rfl

theorem Went.framing_eq {body : Option ByteStream} {sent : Sent} (h : Went c body sent) :
    sent.connection.framing = c.framing := by
  cases h <;> rfl

theorem wrote_write (c : Connection) (data : Bytes) : Wrote c (c.write data) := by
  unfold Connection.write
  rcases c.transport.write data with ⟨message | _, t⟩
  · exact .broke _ t
  · exact .whole t

theorem wrote_flush (c : Connection) : Wrote c c.flush := by
  unfold Connection.flush
  rcases c.transport.flush with message | _
  · exact .broke _ c.transport
  · exact .whole c.transport

theorem Wrote.of_transport {t : Transport} {r : Except Error Unit × Connection}
    (h : Wrote { c with transport := t } r) : Wrote c r := by
  cases h with
  | whole t' => exact .whole t'
  | broke e t' => exact .broke e t'

theorem wrote_writeParts (parts : List Bytes) (c : Connection) : Wrote c (writeParts parts c) := by
  induction parts generalizing c with
  | nil => exact .whole c.transport
  | cons part parts ih =>
    unfold writeParts
    have hw := wrote_write c part
    generalize c.write part = r at hw ⊢
    cases hw with
    | whole t => exact (ih _).of_transport
    | broke e t => exact .broke e t

theorem Went.of_transport {t : Transport} {body : Option ByteStream} {sent : Sent}
    (h : Went { c with transport := t } body sent) : Went c body sent := by
  cases h with
  | out t' cells => exact .out t' cells
  | broke e t' cells => exact .broke e t' cells
  | stuck t' cells => exact .stuck t' cells
  | refused hb hs t' cells => exact .refused hb hs t' cells

theorem went_writeChunks (chunked : Bool) (pulls : Nat) (c : Connection) (sub : Subscription)
    (ch : Channel) (cells : Cells) (body : Option ByteStream) :
    Went c body (writeChunks chunked pulls c sub ch cells) := by
  induction pulls generalizing c sub ch cells with
  | zero => exact .stuck c.transport cells
  | succ pulls ih =>
    unfold writeChunks
    dsimp only
    cases (sub.pull ch cells).outcome with
    | pending => exact .stuck c.transport _
    | failed e => exact .broke e c.transport _
    | chunk chunk =>
      dsimp only
      have hw := wrote_writeParts (if chunked then chunkParts chunk else [chunk]) c
      generalize writeParts (if chunked then chunkParts chunk else [chunk]) c = r at hw ⊢
      cases hw with
      | whole t => exact (ih _ _ _ _).of_transport
      | broke e t => exact .broke e t _
    | finished =>
      cases chunked with
      | true =>
        dsimp only
        rw [if_pos rfl]
        have hw := wrote_write c lastChunk
        generalize c.write lastChunk = r at hw ⊢
        cases hw with
        | whole t => exact .out t _
        | broke e t => exact .broke e t _
      | false => exact .out c.transport _

theorem went_writeBody? (c : Connection) (chunked : Bool) (body : Option ByteStream)
    (cells : Cells) : Went c body (c.writeBody? chunked body cells) := by
  cases body with
  | none => exact .out c.transport cells
  | some b =>
    unfold writeBody? writeBody
    dsimp only
    cases hs : b.subscribe with
    | error e => exact .refused rfl hs c.transport cells
    | ok taken => exact went_writeChunks chunked _ c _ _ cells _

theorem went_sendRequest (c : Connection) (head : RequestHead) (body : Option ByteStream)
    (cells : Cells) : Went (c.begin head.method) body (c.sendRequest head body cells) := by
  rw [sendRequest_eq]
  have hw : Wrote (c.begin head.method)
      ((c.begin head.method).writeHead head (isChunkedRequest head body)) := wrote_write _ _
  generalize (c.begin head.method).writeHead head (isChunkedRequest head body) = r at hw ⊢
  cases hw with
  | broke e t => exact .broke e t cells
  | whole t =>
    refine Went.of_transport (t := t) ?_
    dsimp only
    have hb := went_writeBody? { c.begin head.method with transport := t }
      (isChunkedRequest head body) body cells
    generalize Connection.writeBody? _ (isChunkedRequest head body) body cells = sent at hb ⊢
    cases hb with
    | out t' cells' =>
      dsimp only [Sent.flushed]
      have hf := wrote_flush { c.begin head.method with transport := t' }
      generalize Connection.flush { c.begin head.method with transport := t' } = r at hf ⊢
      cases hf with
      | whole t'' => exact .out t'' cells'
      | broke e t'' => exact .broke e t'' cells'
    | broke e t' cells' => exact .broke e t' cells'
    | stuck t' cells' => exact .stuck t' cells'
    | refused hb hs t' cells' => exact .refused hb hs t' cells'

/-! ## What is read of the body -/

theorem writeChunks_reads {chunked : Bool} {pulls : Nat} {sub : Subscription} {ch : Channel}
    {cells : Cells} (ho : (writeChunks chunked pulls c sub ch cells).outcome = some (.ok ())) :
    (sub.pullAll pulls ch cells).2.outcome = .finished ∧
      (sub.pullAll pulls ch cells).2.cells = (writeChunks chunked pulls c sub ch cells).cells := by
  induction pulls generalizing c sub ch cells with
  | zero => cases ho
  | succ pulls ih =>
    unfold writeChunks at ho ⊢
    unfold Subscription.pullAll
    dsimp only at ho ⊢
    cases hp : (sub.pull ch cells).outcome with
    | pending =>
      rw [hp] at ho
      cases ho
    | failed e =>
      rw [hp] at ho
      cases ho
    | chunk chunk =>
      rw [hp] at ho
      dsimp only at ho ⊢
      generalize writeParts (if chunked = true then chunkParts chunk else [chunk]) c = r at ho ⊢
      obtain ⟨e | ⟨⟩, c'⟩ := r
      · cases ho
      · exact ih ho
    | finished => exact ⟨hp, rfl⟩

theorem Sent.outcome_of_flushed {sent : Sent} (ho : sent.flushed.outcome = some (.ok ())) :
    sent.outcome = some (.ok ()) ∧ sent.flushed.cells = sent.cells := by
  unfold Sent.flushed at ho ⊢
  split
  · exact ⟨‹_›, rfl⟩
  · rename_i hn
    split at ho
    · exact absurd ‹_› hn
    · exact ⟨ho, rfl⟩

theorem sendRequest_reads {head : RequestHead} {body : ByteStream} {cells : Cells}
    (ho : (c.sendRequest head (some body) cells).outcome = some (.ok ())) :
    ∃ chunks, body.readAll cells =
      (chunks, .finished, (c.sendRequest head (some body) cells).cells) := by
  rw [sendRequest_eq] at ho ⊢
  generalize (c.begin head.method).writeHead head (isChunkedRequest head (some body)) = r at ho ⊢
  obtain ⟨e | ⟨⟩, c'⟩ := r
  · cases ho
  · obtain ⟨ho, hcells⟩ := Sent.outcome_of_flushed ho
    dsimp only
    rw [hcells]
    unfold writeBody? writeBody at ho ⊢
    unfold ByteStream.readAll
    dsimp only at ho ⊢
    cases hs : body.subscribe with
    | error e =>
      rw [hs] at ho
      cases ho
    | ok taken =>
      rw [hs] at ho
      obtain ⟨hout, hc⟩ := writeChunks_reads ho
      exact ⟨_, Prod.ext rfl (Prod.ext hout hc)⟩

/-! ## What is to be read -/

section Holding

variable (buffer : Bytes) (cuts : List Bytes)

def Sent.holding (sent : Sent) : Sent :=
  { sent with connection := sent.connection.holding buffer cuts }

theorem write_holding (c : Connection) (data : Bytes) :
    (c.holding buffer cuts).write data =
      ((c.write data).1, (c.write data).2.holding buffer cuts) := by
  have ht := c.transport.write_reads (cuts.map .data) data
  unfold Connection.write
  rw [show (c.holding buffer cuts).transport = { c.transport with reads := cuts.map .data } from rfl,
    ht]
  rcases c.transport.write data with ⟨_ | _, t⟩ <;> rfl

theorem flush_holding (c : Connection) :
    (c.holding buffer cuts).flush = (c.flush.1, c.flush.2.holding buffer cuts) := by
  unfold Connection.flush
  rw [show (c.holding buffer cuts).transport.flush = c.transport.flush from rfl]
  rcases c.transport.flush with _ | _ <;> rfl

theorem writeParts_holding (parts : List Bytes) (c : Connection) :
    writeParts parts (c.holding buffer cuts) =
      ((writeParts parts c).1, (writeParts parts c).2.holding buffer cuts) := by
  induction parts generalizing c with
  | nil => rfl
  | cons part parts ih =>
    unfold writeParts
    rw [write_holding]
    rcases c.write part with ⟨_ | _, c'⟩
    · rfl
    · exact ih c'

theorem writeChunks_holding (chunked : Bool) (pulls : Nat) (c : Connection) (sub : Subscription)
    (ch : Channel) (cells : Cells) :
    writeChunks chunked pulls (c.holding buffer cuts) sub ch cells =
      (writeChunks chunked pulls c sub ch cells).holding buffer cuts := by
  induction pulls generalizing c sub ch cells with
  | zero => rfl
  | succ pulls ih =>
    unfold writeChunks
    dsimp only
    rcases (sub.pull ch cells).outcome with _ | chunk | e | _
    · rfl
    · dsimp only
      rw [writeParts_holding]
      rcases writeParts (if chunked then chunkParts chunk else [chunk]) c with ⟨_ | _, c'⟩
      · rfl
      · exact ih c' _ _ _
    · rfl
    · cases chunked with
      | true =>
        dsimp only
        rw [if_pos rfl, if_pos rfl, write_holding]
        rfl
      | false => rfl

theorem writeBody?_holding (c : Connection) (chunked : Bool) (body : Option ByteStream)
    (cells : Cells) :
    (c.holding buffer cuts).writeBody? chunked body cells =
      (c.writeBody? chunked body cells).holding buffer cuts := by
  cases body with
  | none => rfl
  | some body =>
    unfold writeBody? writeBody
    dsimp only
    rcases body.subscribe with e | ⟨sub, body⟩
    · rfl
    · exact writeChunks_holding buffer cuts chunked _ c sub _ cells

theorem Sent.flushed_holding (sent : Sent) :
    (sent.holding buffer cuts).flushed = sent.flushed.holding buffer cuts := by
  have hf := flush_holding buffer cuts sent.connection
  rcases sent with ⟨_ | e | _, c, cells⟩
  · rfl
  · rfl
  · unfold flushed holding
    dsimp only at hf ⊢
    rw [hf]

theorem sendRequest_holding (c : Connection) (head : RequestHead) (body : Option ByteStream)
    (cells : Cells) :
    (c.holding buffer cuts).sendRequest head body cells =
      (c.sendRequest head body cells).holding buffer cuts := by
  have hw : ((c.holding buffer cuts).begin head.method).writeHead head
        (isChunkedRequest head body) = _ :=
    write_holding buffer cuts (c.begin head.method)
      (Bytes.ofText (headText head (isChunkedRequest head body)))
  rw [sendRequest_eq, sendRequest_eq, hw, ← writeHead]
  rcases (c.begin head.method).writeHead head (isChunkedRequest head body) with ⟨_ | _, c'⟩
  · rfl
  · dsimp only
    rw [writeBody?_holding, Sent.flushed_holding]

end Holding

theorem Facing.sendRequest_outcome (h : Facing base s c) (head : RequestHead)
    (body : Option ByteStream) (cells : Cells) :
    (c.sendRequest head body cells).outcome = (base.sendRequest head body cells).outcome := by
  cases h with
  | intro _ _ =>
    rw [sendRequest_holding]
    rfl

theorem Facing.sendRequest (h : Facing base s c) (head : RequestHead) (body : Option ByteStream)
    (cells : Cells) :
    Facing (base.sendRequest head body cells).connection s
      (c.sendRequest head body cells).connection :=
  h.update (g := fun c => (c.sendRequest head body cells).connection) fun buffer cuts =>
    congrArg Sent.connection (sendRequest_holding buffer cuts base head body cells)

/-! ## Going out whole -/

def wrote (c : Connection) (data : Bytes) : Connection :=
  { c with transport := { c.transport with written := c.transport.written ++ data } }

@[simp] theorem wrote_nil (c : Connection) : c.wrote [] = c := by
  simp [wrote]

@[simp] theorem wrote_wrote (c : Connection) (a b : Bytes) :
    (c.wrote a).wrote b = c.wrote (a ++ b) := by
  simp [wrote]

theorem willing_wrote (h : c.transport.Willing) (data : Bytes) :
    (c.wrote data).transport.Willing :=
  ⟨h.room, h.writeMax, h.flushFault⟩

theorem write_willing (h : c.transport.Willing) (data : Bytes) :
    c.write data = (.ok (), c.wrote data) := by
  have ht : c.transport.write data =
      (.ok (), { c.transport with written := c.transport.written ++ data }) := by
    unfold Transport.write
    rw [h.room]
    dsimp only
    rw [if_neg (by simp [h.writeMax]), h.room]
  unfold Connection.write
  rw [ht]
  rfl

theorem flush_willing (h : c.transport.Willing) : c.flush = (.ok (), c) := by
  unfold Connection.flush Transport.flush
  rw [h.flushFault]

theorem writeParts_willing (h : c.transport.Willing) (parts : List Bytes) :
    writeParts parts c = (.ok (), c.wrote parts.flatten) := by
  induction parts generalizing c with
  | nil => rw [List.flatten_nil, wrote_nil, writeParts]
  | cons part parts ih =>
    rw [writeParts, write_willing h]
    dsimp only
    rw [ih (willing_wrote h part), wrote_wrote, List.flatten_cons]

theorem writeChunks_willing {pulls : Nat} {sub : Subscription} {ch : Channel} {cells : Cells}
    (h : c.transport.Willing) (chunked : Bool)
    (hd : (sub.pullAll pulls ch cells).2.outcome = .finished) :
    ∃ w, (writeChunks chunked pulls c sub ch cells).outcome = some (.ok ()) ∧
      (writeChunks chunked pulls c sub ch cells).connection = c.wrote w := by
  induction pulls generalizing c sub ch cells with
  | zero => cases hd
  | succ pulls ih =>
    unfold Subscription.pullAll at hd
    unfold writeChunks
    dsimp only at hd ⊢
    cases ho : (sub.pull ch cells).outcome with
    | pending =>
      rw [ho] at hd
      cases ho.symm.trans hd
    | failed e =>
      rw [ho] at hd
      cases ho.symm.trans hd
    | chunk chunk =>
      rw [ho] at hd
      dsimp only
      rw [writeParts_willing h]
      obtain ⟨w, hout, hc⟩ := ih (willing_wrote h _) hd
      exact ⟨_, hout, hc.trans (wrote_wrote c _ w)⟩
    | finished =>
      cases chunked with
      | true =>
        dsimp only
        rw [if_pos rfl, write_willing h]
        exact ⟨lastChunk, rfl, rfl⟩
      | false => exact ⟨[], rfl, (wrote_nil c).symm⟩

/-- A body that can be read to its end, if there is one. -/
def Readable (body : Option ByteStream) (cells : Cells) : Prop :=
  ∀ b, body = some b → (b.readAll cells).2.1 = .finished

theorem writeBody?_willing {body : Option ByteStream} {cells : Cells} (h : c.transport.Willing)
    (chunked : Bool) (hb : Readable body cells) :
    ∃ w, (c.writeBody? chunked body cells).outcome = some (.ok ()) ∧
      (c.writeBody? chunked body cells).connection = c.wrote w := by
  cases body with
  | none => exact ⟨[], rfl, (wrote_nil c).symm⟩
  | some body =>
    have hr := hb body rfl
    unfold ByteStream.readAll at hr
    unfold writeBody? writeBody
    dsimp only
    cases hs : body.subscribe with
    | error e =>
      rw [hs] at hr
      cases hr
    | ok taken =>
      rw [hs] at hr
      exact writeChunks_willing h chunked hr

theorem sendRequest_willing {body : Option ByteStream} {cells : Cells} (h : c.transport.Willing)
    (head : RequestHead) (hb : Readable body cells) :
    ∃ w, (c.sendRequest head body cells).outcome = some (.ok ()) ∧
      (c.sendRequest head body cells).connection = (c.begin head.method).wrote w := by
  have hw := write_willing (c := c.begin head.method) h
    (Bytes.ofText (headText head (isChunkedRequest head body)))
  have hc := willing_wrote (c := c.begin head.method) h
    (Bytes.ofText (headText head (isChunkedRequest head body)))
  obtain ⟨w, hout, hsent⟩ := writeBody?_willing hc (isChunkedRequest head body) hb
  rw [sendRequest_eq, writeHead, hw]
  dsimp only [Sent.flushed]
  rw [hout, hsent]
  dsimp only
  rw [flush_willing (willing_wrote hc w), wrote_wrote]
  exact ⟨_, rfl, rfl⟩

end Connection

end Courier.Wire
