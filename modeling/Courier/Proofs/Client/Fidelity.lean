import Courier.Proofs.Client.Download
import Courier.Proofs.Client.Story
import Courier.Stream.Rules

/-! # Nothing is lost, doubled or left over

However many attempts have failed before, and however far the handler had got with their bodies, the
outcome of an execution is made of the last response alone: its head as the hooks have left it, and
what the filters make of the chunks that its connection gave up to the end of the body.
-/

namespace Courier

variable {ω κ ξ η α : Type}

/-! ## What an attempt has read -/

def readsAfter (rs : List (Except Error (Option Bytes))) :
    Event → List (Except Error (Option Bytes))
  | .told .prepare => []
  | .read r => rs ++ [r]
  | _ => rs

/-- All that was read off the connection in the last attempt of a history. -/
def reads (t : List Event) : List (Except Error (Option Bytes)) :=
  t.foldl readsAfter []

theorem readsAfter_of_isUnseen (rs : List (Except Error (Option Bytes))) {e : Event}
    (h : e.isUnseen = true) : readsAfter rs e = rs := by
  cases e with
  | told callback => cases callback <;> first | rfl | cases h
  | read _ => cases h
  | _ => rfl

/-- The chunks that were read, of which empty ones do not count. -/
def chunksRead (rs : List (Except Error (Option Bytes))) : List Bytes :=
  rs.flatMap fun r => Streaming.chunksOf (some r)

theorem chunksRead_whole (chunks : List Bytes) :
    chunksRead (chunks.map (fun chunk => .ok (some chunk)) ++ [.ok none]) =
      chunks.filter (!·.isEmpty) := by
  have hc : chunksRead (chunks.map fun chunk => .ok (some chunk)) =
      chunks.filter (!·.isEmpty) := by
    induction chunks with
    | nil => rfl
    | cons chunk chunks ih =>
      unfold chunksRead at ih ⊢
      rw [List.map_cons, List.flatMap_cons, ih]
      cases chunk <;> rfl
  rw [chunksRead, List.flatMap_append]
  exact (congrArg (· ++ []) hc).trans (List.append_nil _)

namespace Execution

variable {x y : Execution κ η α}

theorem Continues.reads_eq (h : Continues Event.isUnseen x y) :
    reads y.history = reads x.history :=
  h.foldl_eq (fun rs _ => readsAfter_of_isUnseen rs) []

@[simp] theorem reads_note (x : Execution κ η α) (e : Event) :
    reads (x.note e).history = readsAfter (reads x.history) e := by
  simp [note, reads]

@[simp] theorem reads_moveTo (x : Execution κ η α) (next : ExecutionState) :
    reads (x.moveTo next).history = reads x.history :=
  ((continues_moveTo x next).mono Event.isUnseen_of_isRemark).reads_eq

theorem reads_pumped (x : Execution κ η α) (read : Option (Except Error (Option Bytes)))
    (s : Streaming κ) : reads (x.pumped read s).history = reads x.history ++ read.toList := by
  cases read with
  | none => exact (List.append_nil _).symm
  | some r => exact reads_note x (.read r)

end Execution

namespace Streaming

variable {s s' : Streaming κ} {rs : List (Except Error (Option Bytes))}
  {read : Option (Except Error (Option Bytes))}

/-- As long as the pump goes on it has read nothing but chunks, and it drains the connection by
reading the end of the body after them. -/
structure Flows (s : Streaming κ) (rs : List (Except Error (Option Bytes))) : Prop where
  goes : s.pump.isEnded = false → ∃ chunks : List Bytes,
    rs = chunks.map fun chunk => .ok (some chunk)
  drained : s.pump = .ended (.ok .drained) → ∃ chunks : List Bytes,
    rs = chunks.map (fun chunk => .ok (some chunk)) ++ [.ok none]

theorem Flows.congr (hf : Flows s rs) (hp : s'.pump = s.pump) : Flows s' rs :=
  ⟨hp ▸ hf.goes, hp ▸ hf.drained⟩

theorem Flows.moved (hf : Flows s rs) (hm : Moved s s' read) : Flows s' (rs ++ read.toList) := by
  cases hend : s.pump.isEnded with
  | true =>
    obtain ⟨rfl, rfl⟩ := hm.ended hend
    rwa [Option.toList_none, List.append_nil]
  | false =>
    obtain ⟨chunks, rfl⟩ := hf.goes hend
    refine ⟨fun hn => ?_, fun hd => ⟨chunks, ?_⟩⟩
    · obtain rfl | ⟨chunk, rfl⟩ := hm.goes hn
      · exact ⟨chunks, List.append_nil _⟩
      · exact ⟨chunks ++ [chunk], by rw [List.map_append]; rfl⟩
    · rw [hm.drained hend hd]
      rfl

theorem pump_stepHandler (h : Handler η α) (s : Streaming κ) (state : η) (cells : Cells) :
    (s.stepHandler h state cells).1.pump = s.pump := by
  unfold stepHandler
  split
  · rfl
  · split
    · exact pump_withBody _
    · exact pump_withBody _

theorem kept_stepHandler {h : Handler η α} (g : Heading h) (s : Streaming κ) (state : η)
    (cells : Cells) : g.kept (s.stepHandler h state cells).2.1 = g.kept state := by
  unfold stepHandler
  split
  · rfl
  · split
    · rfl
    · dsimp only
      generalize (s.tap.apply _ s.body cells).report = report
      cases report with
      | none => rfl
      | some r => exact g.observe r state

end Streaming

namespace Execution

open Courier.Filter (Relays)

variable {c : Client ω κ ξ} {h : Handler η α} {k : Collector h} {x y : Execution κ η α}
  {w : World ω κ ξ}

/-! ## How an execution stands -/

/-- An attempt has begun, and nothing of it or of an earlier one is there. -/
structure Clean (k : Collector h) (x : Execution κ η α) : Prop extends Blank k x where
  reads : reads x.history = []

theorem Clean.congr (hx : Clean k x) (hs : Courier.seen y.history = Courier.seen x.history)
    (hr : Courier.reads y.history = Courier.reads x.history) (hh : y.handler = x.handler) :
    Clean k y :=
  ⟨hx.toBlank.congr hs hh, hr.trans hx.reads⟩

/-- One head has come, and the handler was shown what the hooks have made of it. -/
inductive Answered (c : Client ω κ ξ) (seen : Seen) (r : Response) : Prop

  | mk {head : ResponseHead} {s : HookState ξ} (hh : seen.heads = [head])
      (hs : seen.shown = [r.head]) (hk : (c.chain.onResponse (responseOf head) s).1 = .ok r)

/-- The handler keeps the head, and gathers the body if it is the one on the wire. -/
inductive Streams (c : Client ω κ ξ) (k : Collector h) (x : Execution κ η α) (s : Streaming κ) :
    Prop

  | mk {r : Response} (ha : Answered c (seen x.history) r)
      (hg : ∀ g : Heading h, g.kept x.handler = some r.head)
      (hw : ∀ o, r.body = .wire o → s.Flows (reads x.history) ∧
        s.Gathering k o.filters x.handler (chunksRead (reads x.history)))

/-- The body on the wire was read to its end, and the outcome is made of all that got through the
filters. -/
inductive Made (c : Client ω κ ξ) (k : Collector h) (t : List Event) (out : α) : Prop

  | mk {r : Response} (ha : Answered c (seen t) r) (hg : ∀ g : Heading h, g.head out = r.head)
      (hw : ∀ o, r.body = .wire o → ∃ (chunks : List Bytes) (now : List Filter) (cells : Cells),
        reads t = chunks.map (fun chunk => .ok (some chunk)) ++ [.ok none] ∧
        Relays o.filters (chunks.filter (!·.isEmpty)) (k.body out) now ∧
        (Filter.completeAll now cells).1 = .ok ())

/-- How an execution stands in each phase. Nothing is said of a failed attempt. -/
def Faithful (c : Client ω κ ξ) (k : Collector h) (x : Execution κ η α) : Phase κ α → Prop
  | .ready => True
  | .prepared => Clean k x
  | .acquiring _ _ => Clean k x
  | .sending _ _ _ _ => Clean k x
  | .awaiting _ _ => Clean k x
  | .streaming s => Streams c k x s
  | .waiting _ => True
  | .finished (.ok out) => Made c k x.history out
  | .finished (.error _) => True

theorem faithful_fail (e : Error) (x : Execution κ η α) (w : World ω κ ξ) :
    Faithful c k (x.fail c h e w).1 (x.fail c h e w).1.phase := by
  obtain ⟨e', hp⟩ | ⟨due, hp⟩ := phase_fail (c := c) (h := h) e x w
  all_goals
    rw [hp]
    exact trivial

theorem faithful_failWith (l : Lease κ) (e : Error) (x : Execution κ η α) (w : World ω κ ξ) :
    Faithful c k (x.failWith c h l e w).1 (x.failWith c h l e w).1.phase :=
  faithful_fail e (x.discard c.network l w).1 (x.discard c.network l w).2

/-! ## The response comes -/

theorem clean_prepare (x : Execution κ η α) : Clean k (x.prepare h) :=
  ⟨⟨seen_note x (.told .prepare), k.fresh_prepare _⟩, reads_note x (.told .prepare)⟩

theorem Clean.transmitting (hx : Clean k x) (net : Network ω κ) (request : Request) (l : Lease κ)
    (w : World ω κ ξ) : Clean k (x.transmitting net request l w) := by
  refine hx.congr ?_ ?_ ?_
  · simp [Execution.transmitting, Seen.after]
  · simp [Execution.transmitting, readsAfter]
  · simp [Execution.transmitting, note]

theorem reads_handed {head : ResponseHead} {hooks : HookState ξ} {r : Response} (hx : Clean k x)
    (net : Network ω κ) (l : Lease κ) (w : World ω κ ξ) :
    reads (((x.note (.answered head)).afterHooks hooks).handed net h l r w).history = [] := by
  have hr := hx.reads
  simp [handed, tellStream, tellHeaders, afterHooks, hr, readsAfter]

theorem streams_handed {head : ResponseHead} {r : Response} {s hooks : HookState ξ}
    (hx : Clean k x) (hk : c.chain.onResponse (responseOf head) s = (.ok r, hooks))
    (l : Lease κ) (v : World ω κ ξ) :
    let y := ((x.note (.answered head)).afterHooks hooks).handed c.network h l r v
    Faithful c k y y.phase := by
  refine .mk (r := r) ?_ (fun g => ?_) fun o ho => ?_
  · rw [seen_handed hx.toBlank]
    exact .mk rfl rfl (congrArg Prod.fst hk)
  · rw [handler_handed, g.openBody, g.headersReceived]
  · rw [reads_handed hx, handler_handed, ho]
    refine ⟨⟨fun _ => ⟨[], rfl⟩, nofun⟩, ?_⟩
    exact Streaming.gathering_start c.network _ _ l _ o _
      (k.fresh_headersReceived r.head x.handler hx.fresh)

/-! ## The body comes -/

theorem Streams.congr {s : Streaming κ} (hx : Streams c k x s)
    (hs : seen y.history = seen x.history) (hr : reads y.history = reads x.history)
    (hh : y.handler = x.handler) : Streams c k y s := by
  obtain ⟨ha, hg, hw⟩ := hx
  refine .mk (hs ▸ ha) (hh ▸ hg) ?_
  rw [hr, hh]
  exact hw

theorem Streams.withTurn {s : Streaming κ} (hx : Streams c k x s) (p : Party) :
    Streams c k x { s with turn := p } := by
  obtain ⟨ha, hg, hw⟩ := hx
  refine .mk ha hg fun o ho => ?_
  obtain ⟨hflows, hgather⟩ := hw o ho
  exact ⟨hflows.congr rfl, hgather.withTurn p⟩

theorem Streams.pumped {s s' : Streaming κ} {read : Option (Except Error (Option Bytes))}
    (hx : Streams c k x s) (hm : s.Moved s' read) : Streams c k (x.pumped read s') s' := by
  obtain ⟨ha, hg, hw⟩ := hx
  have hh : (x.pumped read s').handler = x.handler := by
    cases read <;> rfl
  refine .mk ?_ (hh ▸ hg) fun o ho => ?_
  · obtain ⟨hheads, hshown, hk⟩ := ha
    rw [seen_pumped]
    exact .mk hheads hshown hk
  · obtain ⟨hflows, hgather⟩ := hw o ho
    rw [reads_pumped, hh]
    refine ⟨hflows.moved hm, ?_⟩
    have hc : chunksRead (reads x.history ++ read.toList) =
        chunksRead (reads x.history) ++ Streaming.chunksOf read := by
      rw [chunksRead, List.flatMap_append]
      cases read with
      | none => rfl
      | some r => exact congrArg (_ ++ ·) (List.flatMap_singleton ..)
    rw [hc]
    exact hgather.moved hm

theorem Streams.handled {s s' : Streaming κ} {state : η} {cells cells' : Cells}
    (hx : Streams c k x s) (hs : s.stepHandler h x.handler cells = (s', state, cells')) :
    Streams c k { x with phase := .streaming s', handler := state } s' := by
  obtain ⟨ha, hg, hw⟩ := hx
  refine .mk ha (fun g => ?_) fun o ho => ?_
  · have hkept := Streaming.kept_stepHandler g s x.handler cells
    rw [hs] at hkept
    exact hkept.trans (hg g)
  · obtain ⟨hflows, hgather⟩ := hw o ho
    have hp := Streaming.pump_stepHandler h s x.handler cells
    have hgather' := hgather.handled cells
    rw [hs] at hp hgather'
    exact ⟨hflows.congr hp, hgather'⟩

/-! ## The body ends -/

theorem Streams.made {s : Streaming κ} {e : BodyEnd} {out : α} (hx : Streams c k x s)
    (ho : s.outcome? = some (.ok e)) (hc : (h.complete x.handler).1 = .ok out) :
    Made c k x.history out := by
  obtain ⟨ha, hg, hw⟩ := hx
  refine .mk ha (fun g => ?_) fun o hbody => ?_
  · exact (Option.some.inj ((hg g).symm.trans (g.complete x.handler out hc))).symm
  · obtain ⟨hflows, hgather⟩ := hw o hbody
    obtain ⟨hstage, hp, now, cells, hr, hcomplete⟩ := hgather.outcome ho
    obtain ⟨chunks, hreads⟩ := hflows.drained hp
    rw [hreads, chunksRead_whole, ← k.complete x.handler out hstage hc] at hr
    exact ⟨chunks, now, cells, hreads, hr, hcomplete⟩

theorem Made.congr {t t' : List Event} {out : α} (hx : Made c k t out) (hs : seen t' = seen t)
    (hr : reads t' = reads t) : Made c k t' out := by
  obtain ⟨ha, hg, hw⟩ := hx
  refine .mk (hs ▸ ha) hg ?_
  rw [hr]
  exact hw

theorem faithful_succeed {s : Streaming κ} {e : BodyEnd} (hx : Streams c k x s)
    (ho : s.outcome? = some (.ok e)) : Faithful c k (x.succeed h) (x.succeed h).phase := by
  rw [phase_succeed]
  cases hc : (h.complete x.handler).1 with
  | error e => exact trivial
  | ok out =>
    have hs : seen (x.succeed h).history = seen x.history := by
      simp [succeed, tellComplete, finish, Seen.after]
    have hr : reads (x.succeed h).history = reads x.history := by
      simp [succeed, tellComplete, finish, readsAfter]
    exact (hx.made ho hc).congr hs hr

theorem faithful_settle {s : Streaming κ} {result : Except Error BodyEnd} (hx : Streams c k x s)
    (ho : s.outcome? = some result) :
    let r := x.settle c h s.lease result w
    Faithful c k r.1 r.1.phase := by
  have hsame {e : Event} (he : e.isUnseen = true) : Streams c k (x.note e) s := by
    refine hx.congr ?_ ?_ rfl
    · rw [seen_note, Seen.after_of_isUnseen _ he]
    · rw [reads_note, readsAfter_of_isUnseen _ he]
  unfold settle
  rcases result with e | _ | _
  · exact faithful_failWith _ _ _ _
  · dsimp only
    split
    · exact faithful_succeed (hsame rfl) ho
    · exact faithful_fail _ _ _
  · exact faithful_succeed (x := x.note (.discarded s.lease.id)) (hsame rfl) ho

/-! ## Steps -/

theorem Faithful.advance {r : Execution κ η α × World ω κ ξ} (hx : Faithful c k x x.phase)
    (ha : Advance c h x w r) : Faithful c k r.1 r.1.phase := by
  cases ha with
  | prepare _ => exact clean_prepare x
  | refused _ _ => exact faithful_fail _ _ _
  | unqueued _ _ _ => exact faithful_fail _ _ _
  | queued hp _ _ =>
    rw [hp] at hx
    exact Clean.congr hx (seen_moveTo x _) (reads_moveTo x _) (handler_moveTo x _)
  | acquiring hp _ _ =>
    rw [hp] at hx
    exact Clean.congr hx rfl rfl rfl
  | unacquired _ _ _ => exact faithful_fail _ _ _
  | leased hp _ _ =>
    rw [hp] at hx
    exact Clean.transmitting hx _ _ _ _
  | unsent _ _ _ => exact faithful_failWith _ _ _ _
  | sent hp _ _ =>
    rw [hp] at hx
    exact Clean.congr hx (seen_moveTo x _) (reads_moveTo x _) (handler_moveTo x _)
  | expired _ _ => exact faithful_failWith _ _ _ _
  | headless _ _ _ => exact faithful_failWith _ _ _ _
  | withheld _ _ _ _ => exact faithful_failWith _ _ _ _
  | rejected _ _ _ _ _ => exact faithful_failWith _ _ _ _
  | responded hp _ _ _ hk =>
    rw [hp] at hx
    exact streams_handed hx hk _ _
  | settled hp ho =>
    rw [hp] at hx
    exact faithful_settle hx ho
  | @pumped s s' read _ hp _ _ hs =>
    rw [hp] at hx
    have hm := (Streaming.pumps_stepPump c.network w.now w.pool.config.socketMillis
      { s with turn := .pump } w.outside).moved
    rw [hs] at hm
    exact (Streams.withTurn hx .pump).pumped hm
  | handled hp _ _ hs =>
    rw [hp] at hx
    exact (Streams.withTurn hx .handler).handled hs
  | resume _ _ => exact trivial

/-! ## Runs -/

theorem Faithful.congr {p : Phase κ α} (hx : Faithful c k x p)
    (hs : seen y.history = seen x.history) (hr : reads y.history = reads x.history)
    (hh : y.handler = x.handler) : Faithful c k y p := by
  cases p with
  | ready => exact trivial
  | prepared => exact Clean.congr hx hs hr hh
  | acquiring _ _ => exact Clean.congr hx hs hr hh
  | sending _ _ _ _ => exact Clean.congr hx hs hr hh
  | awaiting _ _ => exact Clean.congr hx hs hr hh
  | streaming s => exact Streams.congr hx hs hr hh
  | waiting _ => exact trivial
  | finished outcome =>
    cases outcome with
    | ok out => exact Made.congr hx hs hr
    | error e => exact trivial

theorem Faithful.withTurn (hx : Faithful c k x x.phase) (p : Party) :
    Faithful c k (x.withTurn p) (x.withTurn p).phase := by
  obtain he | ⟨s, hp, he⟩ := x.withTurn_cases p
  · rwa [he]
  · rw [he]
    rw [hp] at hx
    exact (Streams.withTurn hx p).congr rfl rfl rfl

variable {R : Execution κ η α → World ω κ ξ → World ω κ ξ → Prop} {x₀ : Execution κ η α}
  {w₀ : World ω κ ξ} {q r : Execution κ η α × World ω κ ξ}

theorem Faithful.move (hx : Faithful c k q.1 q.1.phase) (hm : Move c h R q r) :
    Faithful c k r.1 r.1.phase := by
  cases hm with
  | @step x w _ hs =>
    obtain ⟨_, ⟨_, rfl⟩ | ⟨_, ha⟩⟩ := step_cases hs
    · obtain ⟨e, hp⟩ := phase_interrupt c h x w
      rw [hp]
      exact trivial
    · exact hx.advance ha
  | turn x w p => exact hx.withTurn p
  | abort w reason _ => exact hx.congr rfl rfl rfl
  | kill w _ =>
    unfold kill
    split
    · exact hx
    · exact trivial
  | others _ => exact hx

theorem Moves.faithful (hx : x₀.phase = .ready) (hm : Moves c h R (x₀, w₀) r) :
    Faithful c k r.1 r.1.phase := by
  induction hm with
  | refl =>
    rw [hx]
    exact trivial
  | tail _ hs ih => exact ih.move hs

/-- Whatever the server, the policy, the hooks and others do, and however many attempts have failed
before: when an execution succeeds, one head has come in its last attempt, and the head of the
outcome is what the hooks have made of it. If the hooks have left the body on the wire, it was read
to its end, and the body of the outcome is what got through their filters, none of which objected.
Where the filters change nothing that is all the chunks that were read in that attempt, in order. -/
theorem outcome_of_last_response {c : Client ω κ ξ} {h : Handler η α}
    {R : Execution κ η α → World ω κ ξ → World ω κ ξ → Prop} {x₀ x : Execution κ η α}
    {w₀ w : World ω κ ξ} {out : α} (k : Collector h) (hx : x₀.Unbegun)
    (hm : Moves c h R (x₀, w₀) (x, w)) (ho : x.outcome? = some (.ok out)) :
    ∃ head s r, (seen x.history).heads = [head] ∧ (seen x.history).shown = [r.head] ∧
      (c.chain.onResponse (responseOf head) s).1 = .ok r ∧
      (∀ g : Heading h, g.head out = r.head) ∧
      ∀ o, r.body = .wire o → ∃ chunks : List Bytes,
        reads x.history = chunks.map (fun chunk => .ok (some chunk)) ++ [.ok none] ∧
        (∃ now cells, Relays o.filters (chunks.filter (!·.isEmpty)) (k.body out) now ∧
          (Filter.completeAll now cells).1 = .ok ()) ∧
        ((∀ f ∈ o.filters, f.IsVerbatim) → k.body out = chunks.flatten) := by
  have hf := hm.faithful (k := k) hx.phase
  rw [phase_of_outcome? ho] at hf
  obtain ⟨⟨hheads, hshown, hk⟩, hg, hw⟩ := hf
  refine ⟨_, _, _, hheads, hshown, hk, hg, fun o hbody => ?_⟩
  obtain ⟨chunks, now, cells, hreads, hr, hc⟩ := hw o hbody
  refine ⟨chunks, hreads, ⟨now, cells, hr, hc⟩, fun hverbatim => ?_⟩
  obtain ⟨released, hrelay, hbytes⟩ := hr
  rw [← hbytes, Filter.relay_verbatim hverbatim hrelay, List.flatten_filter_not_isEmpty]

end Execution

/-! ## Runs from a script -/

namespace Rehearsal

def brokenReply : Reply :=
  { (Reply.ofStatus 200 "OK").withChunks [[104], [105]] with breaksAfter := some 1 }

def piecewiseReply : Reply :=
  (Reply.ofStatus 200 "OK").withChunks [[104], [], [101, 121]]

def mendedGet : Execution Line Buffering BufferedResponse × World Stage Line Unit :=
  retriedGet 1 [brokenReply, piecewiseReply] 60

/-- Hooks that mark the head and put the letters of the body in upper case. -/
def shouting : Interceptor Unit :=
  { Interceptor.passive "shouting" with
    onResponse := fun r s => (.ok
      { head := { r.head with headers := r.head.headers.append "x-shouted" "yes" }
        body := r.body.withFilter (.ofRule .upper) }, s) }

def shoutedGet : Execution Line Buffering BufferedResponse × World Stage Line Unit :=
  bufferedGet ⟨[shouting]⟩ [.ok [104, 105]] .empty 60

end Rehearsal

namespace Execution

open Rehearsal (shouting shoutedGet mendedGet piecewiseReply)

/-- The broken attempt leaves nothing behind. -/
theorem outcome_of_last_response_mended_get :
    mendedGet.1.outcome?.bind Except.toOption = some ⟨piecewiseReply.head, [104, 101, 121]⟩ ∧
      (callbacks mendedGet.1.history).count .prepare = 2 ∧ ∃ chunks : List Bytes,
        reads mendedGet.1.history = chunks.map (fun chunk => .ok (some chunk)) ++ [.ok none] ∧
        chunks.flatten = [104, 101, 121] ∧
        (seen mendedGet.1.history).heads = [piecewiseReply.head] := by
  have hout : mendedGet.1.outcome?.bind Except.toOption =
        some ⟨piecewiseReply.head, [104, 101, 121]⟩ ∧
      (callbacks mendedGet.1.history).count .prepare = 2 := by
    decide +kernel
  have hm : Moves (Rehearsal.retryingClient 1) Buffering.handler (fun _ _ _ => False)
      (.start Rehearsal.plainGet .start .empty,
        Rehearsal.scripted [Rehearsal.brokenReply, piecewiseReply]) mendedGet := moves_walk 60 _
  refine ⟨hout.1, hout.2, ?_⟩
  generalize mendedGet = r at hout hm ⊢
  obtain ⟨outcome, ho, hok⟩ := Option.bind_eq_some_iff.mp hout.1
  cases outcome with
  | error e => cases hok
  | ok out =>
    obtain rfl := Option.some.inj hok
    obtain ⟨head, s, q, hheads, -, hk, hg, hw⟩ :=
      outcome_of_last_response .buffering ⟨rfl, rfl⟩ hm ho
    obtain rfl : responseOf head = q := Except.ok.inj hk
    obtain ⟨chunks, hreads, -, hbody⟩ := hw _ rfl
    have hhead : piecewiseReply.head = head := hg .buffering
    exact ⟨chunks, hreads, (hbody (fun _ hf => nomatch hf)).symm, by rw [hheads, hhead]⟩

/-- With no splitter on the body, hooks can still change it and the head, and the outcome is then
made neither of the bytes that came nor of the head that came. -/
theorem outcome_of_shouted_response :
    (∀ (q : Response) (s : HookState Unit), ∃ head,
      ((Rehearsal.scriptedClient ⟨[shouting]⟩).chain.onResponse q s).1 =
        .ok ⟨head, q.body.withFilter (.ofRule .upper)⟩) ∧
    ∃ out, shoutedGet.1.outcome? = some (.ok out) ∧
      (seen shoutedGet.1.history).delivered = [104, 105] ∧ out.body = [72, 73] ∧
      (seen shoutedGet.1.history).heads ≠ [out.head] := by
  refine ⟨fun q s => ⟨_, rfl⟩, ?_⟩
  have hbody : (shoutedGet.1.outcome?.bind Except.toOption).map (·.body) = some [72, 73] ∧
      (seen shoutedGet.1.history).delivered = [104, 105] ∧
      (shoutedGet.1.outcome?.bind Except.toOption).map (fun out => [out.head]) ≠
        some (seen shoutedGet.1.history).heads := by
    decide +kernel
  obtain ⟨out, ho, hb⟩ := Option.map_eq_some_iff.mp hbody.1
  obtain ⟨outcome, houtcome, hok⟩ := Option.bind_eq_some_iff.mp ho
  cases outcome with
  | error e => cases hok
  | ok out =>
    obtain rfl := Option.some.inj hok
    rw [ho] at hbody
    exact ⟨_, houtcome, hbody.2.1, hb, fun hh => hbody.2.2 (congrArg some hh.symm)⟩

end Execution

end Courier
