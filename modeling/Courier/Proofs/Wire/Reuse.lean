import Courier.Proofs.Wire.Decoding
import Courier.Proofs.Wire.Reading
import Courier.Proofs.Wire.Sending

/-! # What a reusable connection has behind it

A log of the calls on a connection tells how far the answer to each request has been read. When the
connection is reusable no call has broken it, and the answer that was being read last is read whole.
It is also reusable right after a request, and a bad size line or a refused body does not count.
-/

namespace Courier.Wire

/-- What a call on a connection came to. -/
inductive Call
  | sent (method : Method) (outcome : Except Error Unit)
  | answered (outcome : Except Error ResponseHead)
  | read (outcome : Except Error (Option Bytes))

/-- No failure, or one that does not break the connection: a request body that has a reader already,
or a size line that cannot be read. -/
def Call.Forgiven : Call → Prop
  | .sent _ (.error e) => e = .alreadySubscribed
  | .answered (.error _) => False
  | .read (.error e) => ∃ line f, chunkSize line = .error f ∧ e = f.error
  | _ => True

/-- How far the answer to a request has been read: the last head, the bytes of the body behind it,
and whether its end was seen. -/
structure Progress where
  method : Method
  head : Option ResponseHead
  bytes : Nat
  ended : Bool

namespace Progress

def start (method : Method) : Progress :=
  ⟨method, none, 0, false⟩

/-- The peer does not say that it closes the connection. -/
def KeepsOpen (h : ResponseHead) : Prop :=
  ∀ v, h.headers.first? Headers.connection = some v → Text.mentions v "close" = false

/-- The head was read and keeps the connection open, and the body was read to its end: there is none,
or its last chunk was seen, or all of the declared bytes were. -/
def Whole (p : Progress) : Prop :=
  ∃ h, p.head = some h ∧ KeepsOpen h ∧
    (p.method = .head ∨ h.status = 204 ∨ h.status = 304 ∨
      (Head.isChunked h.headers = true ∧ p.ended = true) ∨
      (Head.isChunked h.headers = false ∧ h.headers.declaredLength? = some p.bytes))

end Progress

/-- A call is about the last request. -/
def note : Call → List Progress → List Progress
  | .sent method _, ps => .start method :: ps
  | .answered (.ok h), p :: ps => { p with head := some h, bytes := 0, ended := false } :: ps
  | .read (.ok (some bytes)), p :: ps => { p with bytes := p.bytes + bytes.length } :: ps
  | .read (.ok none), p :: ps => { p with ended := true } :: ps
  | _, ps => ps

/-- The requests of a log, the last of them first, as the log is. -/
def ledger : List Call → List Progress
  | [] => []
  | call :: log => note call (ledger log)

namespace Connection

inductive Step (c : Connection) : Call → Connection → Prop

  | send {head : RequestHead} {body : Option ByteStream} {cells cells' : Cells}
      {r : Except Error Unit} {c' : Connection}
      (h : c.sendRequest head body cells = ⟨some r, c', cells'⟩) : Step c (.sent head.method r) c'

  | readHead {r : Except Error ResponseHead} {c' : Connection} (h : c.readHead = (r, c')) :
      Step c (.answered r) c'

  | readChunk {r : Except Error (Option Bytes)} {c' : Connection} (h : c.readChunk = (r, c')) :
      Step c (.read r) c'

inductive Run (c₀ : Connection) : List Call → Connection → Prop

  | start : Run c₀ [] c₀

  | step {log : List Call} {c c' : Connection} {call : Call} (h : Run c₀ log c)
      (hs : Step c call c') : Run c₀ (call :: log) c'

/-- Calls of which each request is sent over a reusable connection, and only when the one before it
has been answered. -/
inductive OrderlyRun (c₀ : Connection) : List Call → Connection → Prop

  | start : OrderlyRun c₀ [] c₀

  | step {log : List Call} {c c' : Connection} {call : Call} (h : OrderlyRun c₀ log c)
      (hs : Step c call c')
      (free : ∀ m r, call = .sent m r →
        c.isReusable = true ∧ ∀ p, (ledger log).head? = some p → p.head ≠ none) :
      OrderlyRun c₀ (call :: log) c'

theorem OrderlyRun.run {c₀ c : Connection} {log : List Call} (h : OrderlyRun c₀ log c) :
    Run c₀ log c := by
  induction h with
  | start => exact .start
  | step _ hs _ ih => exact ih.step hs

variable {c c' : Connection} {call : Call}

theorem Step.of_send (head : RequestHead) {body : Option ByteStream} {cells : Cells}
    {r : Except Error Unit} (h : (c.sendRequest head body cells).outcome = some r) :
    Step c (.sent head.method r) (c.sendRequest head body cells).connection := by
  have hs : c.sendRequest head body cells =
      ⟨some r, (c.sendRequest head body cells).connection,
        (c.sendRequest head body cells).cells⟩ := congrArg (Sent.mk · _ _) h
  exact .send hs

theorem Step.of_readHead {r : Except Error ResponseHead} (h : c.readHead.1 = r) :
    Step c (.answered r) c.readHead.2 :=
  .readHead (Prod.ext h rfl)

theorem Step.of_readChunk {r : Except Error (Option Bytes)} (h : c.readChunk.1 = r) :
    Step c (.read r) c.readChunk.2 :=
  .readChunk (Prod.ext h rfl)

/-! ## Failures -/

theorem subscribe_error {b : ByteStream} {e : Error} (h : b.subscribe = .error e) :
    e = .alreadySubscribed := by
  unfold ByteStream.subscribe Outlet.subscribe Channel.subscribe at h
  by_cases hs : b.channel.subscribed = true
  · rw [if_pos hs] at h
    cases h
    rfl
  · rw [if_neg hs] at h
    cases h

theorem Step.broken (h : Step c call c') :
    (c.broken = true → c'.broken = true) ∧ (c'.broken = true ∨ call.Forgiven) := by
  cases h with
  | @send head body cells _ _ _ h =>
    have hw := c.went_sendRequest head body cells
    rw [h] at hw
    cases hw with
    | out t => exact ⟨id, .inr trivial⟩
    | broke e t => exact ⟨fun _ => rfl, .inl rfl⟩
    | refused hb hs t => exact ⟨id, .inr (subscribe_error hs)⟩
  | readHead h =>
    have hh := c.readHead_outcome
    rw [h] at hh
    cases hh with
    | failed e b t => exact ⟨fun _ => rfl, .inl rfl⟩
    | read hp b t =>
      rw [adopt_eq]
      exact ⟨id, .inr trivial⟩
  | readChunk h =>
    have hc := c.readChunk_outcome
    rw [h] at hc
    cases hc with
    | failed hf e b t => exact ⟨fun _ => rfl, .inl rfl⟩
    | badSize _ hs b t => exact ⟨id, .inr ⟨_, _, hs, rfl⟩⟩
    | piece hf b t => exact ⟨id, .inr trivial⟩
    | ended hf b t => exact ⟨id, .inr trivial⟩

theorem Run.broken_or_forgiven {c₀ : Connection} {log : List Call} (h : Run c₀ log c) :
    c.broken = true ∨ ∀ call ∈ log, call.Forgiven := by
  induction h with
  | start => exact .inr fun _ hc => absurd hc List.not_mem_nil
  | step _ hs ih =>
    obtain ⟨hkeep, hcall⟩ := hs.broken
    rcases ih with hb | hlog
    · exact .inl (hkeep hb)
    · exact hcall.imp_right fun hf => List.forall_mem_cons.mpr ⟨hf, hlog⟩

/-! ## Progress -/

/-- Where the reading of a body stands: the bytes read so far, whether its end was seen, whether the
connection is kept, and the framing of the rest. -/
inductive Place (m : Method) (h : ResponseHead) (n : Nat) (ended keep : Bool) : Framing → Prop

  | bodiless (hb : m = .head ∨ h.status = 204 ∨ h.status = 304) : Place m h n ended keep .done

  | chunked (hc : Head.isChunked h.headers = true) (state : ChunkState) :
      Place m h n ended keep (.chunked state)

  | chunkedEnd (hc : Head.isChunked h.headers = true) (he : ended = true) :
      Place m h n ended keep .done

  | sized {k : Nat} {f : Framing} (hc : Head.isChunked h.headers = false)
      (hl : h.headers.declaredLength? = some (n + k))
      (hf : f = if k = 0 then .done else .length k) : Place m h n ended keep f

  | unsized {f : Framing} (hk : keep = false) : Place m h n ended keep f

namespace Place

variable {m : Method} {h : ResponseHead} {n : Nat} {ended keep : Bool} {f f' : Framing}

theorem kept (hp : Place m h n ended keep f) (hf : Framing.Kept f f') :
    Place m h n ended keep f' := by
  cases hf with
  | same => exact hp
  | chunked state state' =>
    cases hp with
    | chunked hc => exact .chunked hc state'
    | sized hc hl hf =>
      split at hf <;> cases hf
    | unsized hk => exact .unsized hk

theorem advanced {bytes : Bytes} (hp : Place m h n ended keep f)
    (hf : Framing.Advanced f bytes f') : Place m h (n + bytes.length) ended keep f' := by
  cases hf with
  | @length k _ hle =>
    cases hp with
    | @sized k' _ hc hl hf =>
      split at hf
      · cases hf
      · cases hf
        refine .sized (k := k - bytes.length) hc ?_ rfl
        rw [hl]
        congr 1
        omega
    | unsized hk => exact .unsized hk
  | chunked state state' =>
    cases hp with
    | chunked hc => exact .chunked hc state'
    | sized hc hl hf => split at hf <;> cases hf
    | unsized hk => exact .unsized hk
  | untilClose =>
    cases hp with
    | sized hc hl hf => split at hf <;> cases hf
    | unsized hk => exact .unsized hk

theorem end_seen (hp : Place m h n ended keep f) (hf : ∀ k, f ≠ .length k) :
    Place m h n true keep .done := by
  cases hp with
  | bodiless hb => exact .bodiless hb
  | chunked hc => exact .chunkedEnd hc rfl
  | chunkedEnd hc => exact .chunkedEnd hc rfl
  | @sized k _ hc hl hf' =>
    split at hf'
    · rename_i hk
      exact .sized (k := k) hc hl (by rw [if_pos hk])
    · exact absurd hf' (hf k)
  | unsized hk => exact .unsized hk

theorem of_head (m : Method) {head : Head} (hc : head.chunked = Head.isChunked head.head.headers) :
    Place m head.head 0 false (framingOf (some m) head).2 (framingOf (some m) head).1 := by
  unfold framingOf
  split
  · rename_i hb
    refine .bodiless ?_
    simpa [or_assoc] using hb
  · split
    · rename_i h
      exact .chunked (hc.symm.trans h) .size
    · rename_i h
      have hno : Head.isChunked head.head.headers = false := by
        rw [← hc]
        simpa using h
      cases hl : head.head.headers.declaredLength? with
      | none => exact .unsized rfl
      | some k =>
        have hk : head.head.headers.declaredLength? = some (0 + k) := by rw [hl, Nat.zero_add]
        cases k with
        | zero => exact .sized hno hk rfl
        | succ k => exact .sized hno hk rfl

end Place

theorem parse_fields {raw : Bytes} {head : Head} (h : Head.parse raw = .ok head) :
    head.chunked = Head.isChunked head.head.headers ∧
      (head.keepAlive = true → Progress.KeepsOpen head.head) := by
  unfold Head.parse Head.ofText at h
  split at h
  · split at h
    · cases h
    · split at h
      · cases h
      · split at h
        · cases h
        · rename_i version status reason _ headers _
          cases h
          refine ⟨rfl, fun hk v hv => ?_⟩
          unfold Head.keepsAlive at hk
          rw [hv, Option.getD_some] at hk
          by_cases hc : Text.mentions v "close" = true
          · rw [if_pos hc] at hk
            cases hk
          · simpa using hc
  · cases h

/-- The connection is where the progress of the last request says. -/
inductive Tracks (c : Connection) : Progress → Prop

  | unanswered {m : Method} {n : Nat} {ended : Bool} (hm : c.method = some m)
      (hd : c.framing = .done) : Tracks c ⟨m, none, n, ended⟩

  | answered {m : Method} {h : ResponseHead} {n : Nat} {ended : Bool} (hm : c.method = some m)
      (hk : c.keepAlive = true → Progress.KeepsOpen h)
      (hp : Place m h n ended c.keepAlive c.framing) : Tracks c ⟨m, some h, n, ended⟩

namespace Tracks

variable {p : Progress}

theorem of_eq (h : Tracks c p) (hm : c'.method = c.method) (hf : c'.framing = c.framing)
    (hk : c'.keepAlive = c.keepAlive) : Tracks c' p := by
  cases h with
  | unanswered hm' hd => exact .unanswered (hm.trans hm') (hf.trans hd)
  | answered hm' hk' hp => exact .answered (hm.trans hm') (hk ▸ hk') (hk ▸ hf ▸ hp)

theorem method_eq (h : Tracks c p) : c.method = some p.method := by
  cases h with
  | unanswered hm _ => exact hm
  | answered hm _ _ => exact hm

end Tracks

theorem framingOf_keeps {m : Option Method} {head : Head} (h : (framingOf m head).2 = true) :
    head.keepAlive = true := by
  unfold framingOf at h
  split at h
  · exact h
  · split at h
    · exact h
    · split at h
      · exact h
      · exact h
      · cases h

theorem HeadOutcome.tracks {r : Except Error ResponseHead} {p : Progress}
    (h : HeadOutcome c (r, c')) (hp : Tracks c p) (ps : List Progress) :
    ∃ p', note (.answered r) (p :: ps) = p' :: ps ∧ Tracks c' p' := by
  have hm := hp.method_eq
  cases h with
  | failed e b t => exact ⟨p, rfl, hp.of_eq rfl rfl rfl⟩
  | @read raw head hparse b t =>
    obtain ⟨hc, hk⟩ := parse_fields hparse
    refine ⟨_, rfl, ?_⟩
    rw [adopt_eq]
    dsimp only
    rw [hm]
    exact .answered rfl (fun hkeep => hk (framingOf_keeps hkeep)) (.of_head p.method hc)

theorem BodyOutcome.tracks {r : Except Error (Option Bytes)} {p : Progress}
    (h : BodyOutcome c (r, c')) (hp : Tracks c p) (ps : List Progress) :
    ∃ p', note (.read r) (p :: ps) = p' :: ps ∧ Tracks c' p' := by
  cases h with
  | failed hf e b t =>
    refine ⟨p, rfl, ?_⟩
    cases hp with
    | unanswered hm hd =>
      rw [hd] at hf
      cases hf
      exact .unanswered hm rfl
    | answered hm hk hp => exact .answered hm hk (hp.kept hf)
  | @badSize state state' _ _ hc hs b t =>
    refine ⟨p, rfl, ?_⟩
    cases hp with
    | unanswered hm hd => cases hd.symm.trans hc
    | answered hm hk hp => exact .answered hm hk (hp.kept (hc ▸ .chunked state state'))
  | piece hf b t =>
    refine ⟨_, rfl, ?_⟩
    cases hp with
    | unanswered hm hd =>
      rw [hd] at hf
      cases hf
    | answered hm hk hp => exact .answered hm hk (hp.advanced hf)
  | ended hf b t =>
    refine ⟨_, rfl, ?_⟩
    cases hp with
    | unanswered hm hd => exact .unanswered hm rfl
    | answered hm hk hp => exact .answered hm hk (hp.end_seen hf)

theorem Step.tracks {ps : List Progress} (hs : Step c call c')
    (h : ∀ p, ps.head? = some p → Tracks c p) :
    ∀ p, (note call ps).head? = some p → Tracks c' p := by
  intro p hp
  cases hs with
  | @send head body cells _ _ _ hsend =>
    have hw := c.went_sendRequest head body cells
    rw [hsend] at hw
    cases hp
    exact .unanswered hw.method_eq hw.framing_eq
  | @readHead r _ hread =>
    have hh := c.readHead_outcome
    rw [hread] at hh
    cases ps with
    | nil => cases r <;> cases hp
    | cons p' ps =>
      obtain ⟨q, hq, ht⟩ := hh.tracks (h p' rfl) ps
      rw [hq] at hp
      cases hp
      exact ht
  | @readChunk r _ hread =>
    have hc := c.readChunk_outcome
    rw [hread] at hc
    cases ps with
    | nil => rcases r with _ | _ | _ <;> cases hp
    | cons p' ps =>
      obtain ⟨q, hq, ht⟩ := hc.tracks (h p' rfl) ps
      rw [hq] at hp
      cases hp
      exact ht

theorem Run.tracks {t : Transport} {log : List Call} (h : Run (ofTransport t) log c) :
    ∀ p, (ledger log).head? = some p → Tracks c p := by
  induction h with
  | start => exact fun _ hp => by cases hp
  | step _ hs ih => exact hs.tracks ih

/-! ## Reuse -/

theorem Tracks.settled {p : Progress} (h : Tracks c p) (hr : c.isReusable = true) :
    p.head = none ∨ p.Whole := by
  simp only [isReusable, Bool.and_eq_true, decide_eq_true_eq] at hr
  obtain ⟨⟨⟨hkeep, -⟩, hdone⟩, -⟩ := hr
  cases h with
  | unanswered => exact .inl rfl
  | @answered m h n ended hm hk hp =>
    refine .inr ⟨h, rfl, hk hkeep, ?_⟩
    rw [hdone, hkeep] at hp
    cases hp with
    | bodiless hb => exact hb.imp_right fun hb => hb.imp_right .inl
    | chunkedEnd hc he => exact .inr (.inr (.inr (.inl ⟨hc, he⟩)))
    | @sized k _ hc hl hf =>
      split at hf
      · rename_i hk
        rw [hk] at hl
        exact .inr (.inr (.inr (.inr ⟨hc, hl⟩)))
      · cases hf
    | unsized hk => cases hk

theorem tail_note {ps : List Progress} (h : ∀ m r, call ≠ .sent m r) :
    (note call ps).tail = ps.tail := by
  cases call with
  | sent m r => exact absurd rfl (h m r)
  | answered r => cases r <;> cases ps <;> rfl
  | read r => rcases r with _ | _ | _ <;> cases ps <;> rfl

/-- In an orderly run, the answers to all requests before the last are read whole. -/
theorem OrderlyRun.answered {t : Transport} {log : List Call}
    (h : OrderlyRun (ofTransport t) log c) : ∀ p ∈ (ledger log).tail, p.Whole := by
  induction h with
  | start => exact fun _ hp => absurd hp List.not_mem_nil
  | @step log c c' call h hs free ih =>
    by_cases hsent : ∃ m r, call = .sent m r
    · obtain ⟨m, r, rfl⟩ := hsent
      obtain ⟨hr, hanswered⟩ := free m r rfl
      have htracks := h.run.tracks
      -- the request that was last is an earlier one now, and it was settled for this one to go out
      change ∀ p ∈ ledger log, p.Whole
      cases hl : ledger log with
      | nil => exact fun _ hp => absurd hp List.not_mem_nil
      | cons p ps =>
        rw [hl] at ih htracks hanswered
        refine List.forall_mem_cons.mpr ⟨?_, ih⟩
        exact ((htracks p rfl).settled hr).resolve_left (hanswered p rfl)
    · rw [ledger, tail_note fun m r hc => hsent ⟨m, r, hc⟩]
      exact ih

/-- When a connection is reusable, no call has failed but for what is forgiven, and the answer to the
last request is read whole unless its head was not read at all. If each request was sent over a
reusable connection after an answer to the last, all earlier answers are read whole. -/
theorem reusable_settled (t : Transport) {log : List Call} {c : Connection}
    (h : Run (ofTransport t) log c) (hr : c.isReusable = true) :
    (∀ call ∈ log, call.Forgiven) ∧
      (∀ p, (ledger log).head? = some p → p.head = none ∨ p.Whole) ∧
      (OrderlyRun (ofTransport t) log c → ∀ p ∈ (ledger log).tail, p.Whole) := by
  refine ⟨?_, fun p hp => (h.tracks p hp).settled hr, fun ho => ho.answered⟩
  refine h.broken_or_forgiven.resolve_left fun hb => ?_
  simp [isReusable, hb] at hr

deriving instance DecidableEq for Except

theorem reusable_settled_declared_length :
    let bytes := Bytes.ofText "HTTP/1.1 200 OK\r\nContent-Length: 2\r\n\r\nhi"
    let c₁ := ((ofTransport (.ofReads [.data bytes])).sendRequest ⟨.get, "/", .empty⟩ none
      .empty).connection
    let c := c₁.readHead.2.readChunk.2
    ∃ log, Run (ofTransport (.ofReads [.data bytes])) log c ∧ c.isReusable = true ∧
      (∀ call ∈ log, call.Forgiven) ∧
      (∀ p, (ledger log).head? = some p → p.head = none ∨ p.Whole) ∧
      (OrderlyRun (ofTransport (.ofReads [.data bytes])) log c → ∀ p ∈ (ledger log).tail, p.Whole) := by
  intro bytes c₁ c
  have hsent : Step (ofTransport (.ofReads [.data bytes])) (.sent .get (.ok ())) c₁ :=
    .of_send ⟨.get, "/", .empty⟩ (by decide +kernel)
  have hrun := ((Run.start.step hsent).step (.of_readHead rfl)).step (.of_readChunk rfl)
  have hr : c.isReusable = true := by decide +kernel
  exact ⟨_, hrun, hr, reusable_settled _ hrun hr⟩

/-- A connection is reusable right after a request, and again once the rest of a chunked answer is
read whose size line could not be. -/
theorem reusable_after_bad_size :
    let bytes :=
      Bytes.ofText "HTTP/1.1 200 OK\r\nTransfer-Encoding: chunked\r\n\r\nzz\r\n0\r\n\r\n"
    let c₀ := ofTransport (.ofReads [.data bytes])
    let c₁ := (c₀.sendRequest ⟨.get, "/", .empty⟩ none .empty).connection
    let c₄ := c₁.readHead.2.readChunk.2.readChunk.2
    (Run c₀ [.sent .get (.ok ())] c₁ ∧ c₁.isReusable = true) ∧
      Run c₀
        [.read (.ok none), .read (.error (Fault.chunkSize "zz").error),
          .answered (.ok ⟨200, "OK", ⟨[("Transfer-Encoding", "chunked")]⟩⟩),
          .sent .get (.ok ())] c₄ ∧
      c₄.isReusable = true := by
  intro bytes c₀ c₁ c₄
  have hsent : Run c₀ [.sent .get (.ok ())] c₁ :=
    .step .start (.of_send ⟨.get, "/", .empty⟩ (by decide +kernel))
  have hhead : Step c₁ (.answered (.ok ⟨200, "OK", ⟨[("Transfer-Encoding", "chunked")]⟩⟩))
      c₁.readHead.2 := .of_readHead (by decide +kernel)
  have hbad : Step c₁.readHead.2 (.read (.error (Fault.chunkSize "zz").error))
      c₁.readHead.2.readChunk.2 := .of_readChunk (by decide +kernel)
  have hend : Step c₁.readHead.2.readChunk.2 (.read (.ok none)) c₄ :=
    .of_readChunk (by decide +kernel)
  exact ⟨⟨hsent, by decide +kernel⟩, ((hsent.step hhead).step hbad).step hend, by decide +kernel⟩

end Connection

end Courier.Wire
