import Courier.Proofs.Client.Collecting
import Courier.Proofs.Client.History
import Courier.Proofs.Client.Run
import Courier.Proofs.Integrity.Hooks

/-! # Downloads are verified

With the integrity hooks alone in the chain, a download whose response was marked gives no outcome
but one made of the payload, after the whole of the body has come and its digest was right.
-/

namespace Courier

open Integrity
open Trailing (digestLength)

variable {ω κ ξ η α : Type}

/-! ## What an attempt has seen -/

/-- The heads that came off the wire, those that the handler was shown, and the bytes of the body
that the connection delivered. -/
structure Seen where
  heads : List ResponseHead
  shown : List ResponseHead
  delivered : Bytes

namespace Seen

def none : Seen := ⟨[], [], []⟩

def after (s : Seen) : Event → Seen
  | .told .prepare => none
  | .told (.headersReceived head) => { s with shown := s.shown ++ [head] }
  | .answered head => { s with heads := s.heads ++ [head] }
  | .read (.ok (some chunk)) => { s with delivered := s.delivered ++ chunk }
  | _ => s

end Seen

def seen (t : List Event) : Seen :=
  t.foldl Seen.after .none

@[simp] theorem seen_concat (t : List Event) (e : Event) : seen (t ++ [e]) = (seen t).after e := by
  simp [seen]

namespace Event

/-- Of no account to what an attempt has seen. -/
def isUnseen : Event → Bool
  | told .prepare => false
  | told (.headersReceived _) => false
  | answered _ => false
  | read _ => false
  | _ => true

theorem isUnseen_of_isRemark (e : Event) (h : e.isRemark = true) : e.isUnseen = true := by
  cases e with
  | told callback => cases callback <;> first | rfl | cases h
  | moved _ _ => rfl
  | decided _ _ => rfl
  | _ => cases h

end Event

theorem Seen.after_of_isUnseen (s : Seen) {e : Event} (h : e.isUnseen = true) : s.after e = s := by
  cases e with
  | told callback => cases callback <;> first | rfl | cases h
  | answered _ => cases h
  | read _ => cases h
  | _ => rfl

theorem Seen.after_read (s : Seen) (r : Except Error (Option Bytes)) :
    s.after (.read r) = { s with delivered := s.delivered ++ Streaming.bytesOf (some r) } := by
  rcases r with e | _ | chunk <;> simp [after, Streaming.bytesOf]

namespace Execution

variable {x y : Execution κ η α}

theorem Continues.seen_eq (h : Continues Event.isUnseen x y) : seen y.history = seen x.history :=
  h.foldl_eq (fun s _ => Seen.after_of_isUnseen s) Seen.none

@[simp] theorem seen_note (x : Execution κ η α) (e : Event) :
    seen (x.note e).history = (seen x.history).after e :=
  seen_concat _ e

@[simp] theorem seen_moveTo (x : Execution κ η α) (next : ExecutionState) :
    seen (x.moveTo next).history = seen x.history :=
  ((continues_moveTo x next).mono Event.isUnseen_of_isRemark).seen_eq

theorem seen_pumped (x : Execution κ η α) (read : Option (Except Error (Option Bytes)))
    (s : Streaming κ) : seen (x.pumped read s).history =
      { seen x.history with
        delivered := (seen x.history).delivered ++ Streaming.bytesOf read } := by
  cases read with
  | none => simp [pumped, Streaming.bytesOf]
  | some r => simp [pumped, Seen.after_read]

variable {settings : Settings} {h : Handler η α} {k : Collector h}

/-! ## How a download stands -/

/-- The request and the attributes are those of a download that is to be checked. -/
structure Asked (settings : Settings) (x : Execution κ η α) : Prop where
  checks : ChecksDownload settings x.attributes
  checkable : Checkable x.request.headers

theorem Asked.congr (ha : Asked settings x) (hr : y.request = x.request)
    (he : y.attributes = x.attributes) : Asked settings y :=
  ⟨he ▸ ha.checks, hr ▸ ha.checkable⟩

/-- An attempt has begun and has seen nothing yet. -/
structure Blank (k : Collector h) (x : Execution κ η α) : Prop where
  seen : seen x.history = .none
  fresh : k.fresh x.handler

theorem Blank.congr (hb : Blank k x) (hs : Courier.seen y.history = Courier.seen x.history)
    (hh : y.handler = x.handler) : Blank k y :=
  ⟨hs.trans hb.seen, hh ▸ hb.fresh⟩

structure Requested (settings : Settings) (k : Collector h) (x : Execution κ η α) : Prop
    extends Asked settings x, Blank k x where
  trailing : x.attributes.get? .trailingRequested = some true

theorem Requested.congr (hx : Requested settings k x) (hr : y.request = x.request)
    (he : y.attributes = x.attributes) (hs : Courier.seen y.history = Courier.seen x.history)
    (hh : y.handler = x.handler) : Requested settings k y :=
  ⟨hx.toAsked.congr hr he, hx.toBlank.congr hs hh, he ▸ hx.trailing⟩

theorem Requested.transmitting (hx : Requested settings k x) (net : Network ω κ)
    (request : Request) (l : Lease κ) (w : World ω κ ξ) :
    Requested settings k (x.transmitting net request l w) := by
  refine hx.congr ?_ ?_ ?_ ?_
  · simp [Execution.transmitting, note]
  · simp [Execution.transmitting, note]
  · simp [Execution.transmitting, Seen.after]
  · simp [Execution.transmitting, note]

/-- The head received declares `n` bytes, and the head shown as many without the digest. -/
structure Parted (n : Nat) (head shown : ResponseHead) : Prop where
  declared : head.headers.declaredLength? = some n
  digest : digestLength ≤ n
  shown : shown.headers.all Headers.contentLength = [toString (n - digestLength)]

/-- A response has come, and its body is being collected. -/
inductive Arriving (k : Collector h) (seen : Seen) (state : η) (s : Streaming κ) : Prop

  | mk {head shown : ResponseHead} (hh : seen.heads = [head]) (hs : seen.shown = [shown])
      (hm : isMarked head = true → ∃ n, Parted n head shown ∧
        s.Collecting k n state seen.delivered)

/-- The body was the payload with its digest, and the outcome is made of the payload. -/
structure Intact (k : Collector h) (seen : Seen) (out : α) (head : ResponseHead) : Prop where
  delivered : seen.delivered = k.body out ++ md5 (k.body out)
  declared : head.headers.declaredLength? = some seen.delivered.length
  shown : ∃ shown, seen.shown = [shown] ∧
    shown.headers.all Headers.contentLength = [toString (k.body out).length]

/-- How a download stands in each phase. Nothing is said of one that has failed. -/
def Stands (settings : Settings) (k : Collector h) (x : Execution κ η α) : Phase κ α → Prop
  | .ready => Asked settings x
  | .prepared => Asked settings x ∧ Blank k x
  | .acquiring _ _ => Requested settings k x
  | .sending _ _ _ _ => Requested settings k x
  | .awaiting _ _ => Requested settings k x
  | .streaming s => Asked settings x ∧ Arriving k (seen x.history) x.handler s
  | .waiting _ => Asked settings x
  | .finished (.ok out) =>
    ∀ head ∈ (seen x.history).heads, isMarked head = true → Intact k (seen x.history) out head
  | .finished (.error _) => True

variable {c : Client ω κ ξ} {w : World ω κ ξ}

theorem stands_fail (ha : Asked settings x) (e : Error) (w : World ω κ ξ) :
    Stands settings k (x.fail c h e w).1 (x.fail c h e w).1.phase := by
  have he := ends_fail (c := c) (h := h) e x w
  rcases phase_fail (c := c) (h := h) e x w with ⟨e', hp⟩ | ⟨due, hp⟩
  · rw [hp]
    exact trivial
  · rw [hp]
    exact ha.congr he.request he.attributes

theorem stands_failWith (ha : Asked settings x) (l : Lease κ) (e : Error) (w : World ω κ ξ) :
    Stands settings k (x.failWith c h l e w).1 (x.failWith c h l e w).1.phase :=
  stands_fail (x := (x.discard c.network l w).1) ⟨ha.checks, ha.checkable⟩ e _

/-! ## The response comes -/

theorem seen_handed {head : ResponseHead} {hooks : HookState ξ} {r : Response} (hb : Blank k x)
    (net : Network ω κ) (l : Lease κ) (w : World ω κ ξ) :
    seen (((x.note (.answered head)).afterHooks hooks).handed net h l r w).history =
      ⟨[head], [r.head], []⟩ := by
  have hs := hb.seen
  simp [handed, tellStream, tellHeaders, afterHooks, hs, Seen.after, Seen.none]

theorem handler_handed (net : Network ω κ) (x : Execution κ η α) (l : Lease κ) (r : Response)
    (w : World ω κ ξ) : (x.handed net h l r w).handler =
      h.openBody r.body.declared (h.headersReceived r.head x.handler) := by
  simp [handed, tellStream, tellHeaders]

theorem arriving_start {head : ResponseHead} {r : Response} {hooks : HookState ξ}
    (hx : Requested settings k x)
    (hk : onResponse settings (responseOf head) (x.hookState w) = (.ok r, hooks))
    (net : Network ω κ) (now limit : Nat) (l : Lease κ) (outside : ω) (declared : Option Nat) :
    Arriving k ⟨[head], [r.head], []⟩ (h.openBody declared (h.headersReceived r.head x.handler))
      (Streaming.start net now limit l r.body outside) := by
  refine .mk rfl rfl fun hm => ?_
  have hd : onResponse settings (responseOf head) (x.hookState w) =
      (splitTrailing (responseOf head), x.hookState w) :=
    onResponse_download hx.checks hx.trailing hm
  have hsplit : splitTrailing (responseOf head) = .ok r := by
    rw [hd] at hk
    exact congrArg Prod.fst hk
  obtain ⟨n, sp, hn, hsp, hall, hbody⟩ := splitTrailing_cases hsplit
  obtain ⟨htracks, hlen⟩ := Trailing.Splitter.tracks_start hsp
  have hpay : sp.payloadLength = n - digestLength := by
    unfold digestLength
    omega
  refine ⟨n, ⟨hn, ?_, ?_⟩, ?_⟩
  · unfold digestLength
    omega
  · rw [hall, hpay]
  · rw [hbody]
    exact Streaming.collecting_start net now limit l outside rfl htracks declared
      (k.fresh_headersReceived r.head x.handler hx.fresh)

theorem stands_handed {head : ResponseHead} {r : Response} (hx : Requested settings k x)
    (hk : onResponse settings (responseOf head) (x.hookState w) = (.ok r, x.hookState w))
    (net : Network ω κ) (l : Lease κ) (v : World ω κ ξ) :
    let y := ((x.note (.answered head)).afterHooks (x.hookState w)).handed net h l r v
    Stands settings k y y.phase := by
  refine And.intro (hx.toAsked.congr ?_ ?_) ?_
  · simp [handed, tellStream, tellHeaders, note, afterHooks]
  · simp [handed, tellStream, tellHeaders, note, afterHooks, hookState]
  · rw [seen_handed hx.toBlank, handler_handed]
    exact arriving_start hx hk _ _ _ _ _ _

/-! ## The body comes -/

theorem Arriving.withTurn {seen : Seen} {state : η} {s : Streaming κ}
    (ha : Arriving k seen state s) (p : Party) : Arriving k seen state { s with turn := p } := by
  obtain ⟨hheads, hshown, hmarked⟩ := ha
  refine .mk hheads hshown fun hmark => ?_
  obtain ⟨n, hpart, hcoll⟩ := hmarked hmark
  exact ⟨n, hpart, hcoll.withTurn p⟩

theorem Arriving.moved {seen : Seen} {state : η} {s s' : Streaming κ}
    {read : Option (Except Error (Option Bytes))} (ha : Arriving k seen state s)
    (hm : s.Moved s' read) :
    Arriving k { seen with delivered := seen.delivered ++ Streaming.bytesOf read } state s' := by
  obtain ⟨hheads, hshown, hmarked⟩ := ha
  refine .mk hheads hshown fun hmark => ?_
  obtain ⟨n, hpart, hcoll⟩ := hmarked hmark
  exact ⟨n, hpart, hcoll.moved hm⟩

theorem Arriving.handled {seen : Seen} {state state' : η} {s s' : Streaming κ}
    {cells cells' : Cells} (ha : Arriving k seen state s)
    (hs : s.stepHandler h state cells = (s', state', cells')) : Arriving k seen state' s' := by
  obtain ⟨hheads, hshown, hmarked⟩ := ha
  refine .mk hheads hshown fun hmark => ?_
  obtain ⟨n, hpart, hcoll⟩ := hmarked hmark
  have hh := hcoll.handled cells
  rw [hs] at hh
  exact ⟨n, hpart, hh⟩

theorem stands_pumped {s s' : Streaming κ} {read : Option (Except Error (Option Bytes))}
    (hx : Asked settings x) (ha : Arriving k (seen x.history) x.handler s)
    (hm : s.Moved s' read) :
    Stands settings k (x.pumped read s') (x.pumped read s').phase := by
  have hsame : (x.pumped read s').request = x.request ∧
      (x.pumped read s').attributes = x.attributes ∧ (x.pumped read s').handler = x.handler := by
    cases read <;> exact ⟨rfl, rfl, rfl⟩
  obtain ⟨hr, he, hh⟩ := hsame
  refine And.intro (hx.congr hr he) ?_
  rw [seen_pumped, hh]
  exact ha.moved hm

/-! ## The body ends -/

theorem Arriving.intact {seen : Seen} {s : Streaming κ} {e : BodyEnd} {out : α}
    {head : ResponseHead} (ha : Arriving k seen x.handler s) (ho : s.outcome? = some (.ok e))
    (hc : (h.complete x.handler).1 = .ok out) (hh : head ∈ seen.heads)
    (hm : isMarked head = true) : Intact k seen out head := by
  obtain ⟨hheads, hshown, hmarked⟩ := ha
  rw [hheads, List.mem_singleton] at hh
  subst hh
  obtain ⟨n, hpart, hcoll⟩ := hmarked hm
  obtain ⟨hg, hd, hl⟩ := hcoll.outcome hpart.digest ho
  have hbody := k.complete x.handler out hg hc
  rw [← hbody] at hd
  have hlen : n - digestLength = (k.body out).length := by
    rw [← hl, hd, List.length_append, length_md5]
    unfold digestLength
    omega
  exact ⟨hd, hl ▸ hpart.declared, _, hshown, hlen ▸ hpart.shown⟩

theorem stands_succeed {s : Streaming κ} {e : BodyEnd} (ho : s.outcome? = some (.ok e))
    (ha : Arriving k (seen x.history) x.handler s) :
    Stands settings k (x.succeed h) (x.succeed h).phase := by
  rw [phase_succeed]
  cases hc : (h.complete x.handler).1 with
  | error e => exact trivial
  | ok out =>
    have hs : seen (x.succeed h).history = seen x.history := by
      simp [succeed, tellComplete, finish, Seen.after]
    intro head hh hm
    rw [hs] at hh ⊢
    exact ha.intact ho hc hh hm

theorem stands_settle {s : Streaming κ} {result : Except Error BodyEnd}
    (ho : s.outcome? = some result) (hx : Asked settings x)
    (ha : Arriving k (seen x.history) x.handler s) :
    let r := x.settle c h s.lease result w
    Stands settings k r.1 r.1.phase := by
  unfold settle
  rcases result with e | _ | _
  · exact stands_failWith hx _ _ _
  · dsimp only
    have hs : seen (x.note (.released s.lease.id)).history = seen x.history := by
      simp [Seen.after]
    split
    · exact stands_succeed ho (hs ▸ ha)
    · have hx' : Asked settings (x.note (.released s.lease.id)) := hx.congr rfl rfl
      exact stands_fail hx' _ _
  · have hs : seen (x.note (.discarded s.lease.id)).history = seen x.history := by
      simp [Seen.after]
    exact stands_succeed (x := x.note (.discarded s.lease.id)) ho (hs ▸ ha)

/-! ## Steps -/

theorem requested_opened {result : Except Error Request} {hooks : HookState ξ}
    (hchain : c.chain.interceptors = [interceptor settings]) (ha : Asked settings x)
    (hb : Blank k x)
    (hk : c.chain.onRequest x.request (x.opened.hookState w) = (result, hooks)) :
    (∃ r, result = .ok r) ∧ Requested settings k (x.opened.afterHooks hooks) := by
  have hc : ChecksDownload settings (x.opened.hookState w).attributes := by
    have he : (x.opened.hookState w).attributes = x.attributes := attributes_moveTo x _
    rw [he]
    exact ha.checks
  have hr : (x.opened.afterHooks hooks).request = x.request := request_moveTo x _
  have hopened : Blank k (x.opened.afterHooks hooks) :=
    hb.congr (seen_moveTo x _) (handler_moveTo x _)
  rw [InterceptorChain.onRequest_single hchain] at hk
  change onRequest settings _ _ = _ at hk
  rw [onRequest_download hc ha.checkable, Prod.mk.injEq] at hk
  obtain ⟨rfl, hhooks⟩ := hk
  have ha' : (x.opened.afterHooks hooks).attributes =
      (forget (x.opened.hookState w).attributes).put .trailingRequested true :=
    congrArg (·.attributes) hhooks.symm
  refine ⟨⟨_, rfl⟩, ⟨⟨?_, hr ▸ ha.checkable⟩, hopened, ?_⟩⟩
  · rw [ha']
    exact hc.forget.put
  · rw [ha']
    exact Attributes.get?_put _ _ _

theorem Stands.advance {r : Execution κ η α × World ω κ ξ}
    (hchain : c.chain.interceptors = [interceptor settings])
    (hx : Stands settings k x x.phase) (ha : Advance c h x w r) :
    Stands settings k r.1 r.1.phase := by
  cases ha with
  | prepare hp =>
    rw [hp] at hx
    refine And.intro ⟨hx.checks, hx.checkable⟩ ⟨?_, k.fresh_prepare _⟩
    exact seen_note x (.told .prepare)
  | refused hp hk =>
    rw [hp] at hx
    obtain ⟨⟨_, hr⟩, _⟩ := requested_opened hchain hx.1 hx.2 hk
    cases hr
  | unqueued hp hk _ =>
    rw [hp] at hx
    exact stands_fail (requested_opened hchain hx.1 hx.2 hk).2.toAsked _ _
  | queued hp hk _ =>
    rw [hp] at hx
    exact (requested_opened hchain hx.1 hx.2 hk).2.congr rfl rfl rfl rfl
  | acquiring hp _ _ =>
    rw [hp] at hx
    exact Requested.congr hx rfl rfl rfl rfl
  | unacquired hp _ _ =>
    rw [hp] at hx
    exact stands_fail hx.toAsked _ _
  | leased hp _ _ =>
    rw [hp] at hx
    exact Requested.transmitting hx _ _ _ _
  | unsent hp _ _ =>
    rw [hp] at hx
    exact stands_failWith hx.toAsked _ _ _
  | sent hp _ _ =>
    rw [hp] at hx
    exact Requested.congr hx (request_moveTo x _) (attributes_moveTo x _) (seen_moveTo x _)
      (handler_moveTo x _)
  | expired hp _ =>
    rw [hp] at hx
    exact stands_failWith hx.toAsked _ _ _
  | headless hp _ _ =>
    rw [hp] at hx
    exact stands_failWith hx.toAsked _ _ _
  | @withheld _ _ head _ _ _ hp _ _ _ =>
    rw [hp] at hx
    have ha : Asked settings (x.note (.answered head)) := hx.toAsked.congr rfl rfl
    exact stands_failWith ha _ _ _
  | @rejected _ _ head _ _ _ hooks hp _ _ _ hk =>
    rw [hp] at hx
    obtain ⟨rfl, _⟩ := InterceptorChain.onResponse_integrity hchain hk
    have ha : Asked settings ((x.note (.answered head)).afterHooks (x.hookState w)) :=
      hx.toAsked.congr rfl rfl
    exact stands_failWith ha _ _ _
  | @responded _ _ head r _ _ hooks hp _ _ _ hk =>
    rw [hp] at hx
    obtain ⟨rfl, hr⟩ := InterceptorChain.onResponse_integrity hchain hk
    exact stands_handed hx hr _ _ _
  | settled hp ho =>
    rw [hp] at hx
    exact stands_settle ho hx.1 hx.2
  | @pumped s s' read _ hp _ _ hs =>
    rw [hp] at hx
    have hm := (Streaming.pumps_stepPump c.network w.now w.pool.config.socketMillis
      { s with turn := .pump } w.outside).moved
    rw [hs] at hm
    exact stands_pumped hx.1 (hx.2.withTurn .pump) hm
  | @handled s s' state cells hp _ _ hs =>
    rw [hp] at hx
    refine And.intro (hx.1.congr rfl rfl) ?_
    exact (hx.2.withTurn .handler).handled hs
  | resume hp _ =>
    rw [hp] at hx
    exact Asked.congr hx rfl rfl

/-! ## Runs -/

theorem Stands.congr {p : Phase κ α} (hx : Stands settings k x p) (hr : y.request = x.request)
    (he : y.attributes = x.attributes) (hs : seen y.history = seen x.history)
    (hh : y.handler = x.handler) : Stands settings k y p := by
  cases p with
  | ready => exact Asked.congr hx hr he
  | prepared => exact And.intro (hx.1.congr hr he) (hx.2.congr hs hh)
  | acquiring _ _ => exact Requested.congr hx hr he hs hh
  | sending _ _ _ _ => exact Requested.congr hx hr he hs hh
  | awaiting _ _ => exact Requested.congr hx hr he hs hh
  | streaming s =>
    refine And.intro (hx.1.congr hr he) ?_
    rw [hs, hh]
    exact hx.2
  | waiting _ => exact Asked.congr hx hr he
  | finished outcome =>
    cases outcome with
    | ok out =>
      unfold Stands
      rw [hs]
      exact hx
    | error e => exact trivial

theorem Stands.withTurn (hx : Stands settings k x x.phase) (p : Party) :
    Stands settings k (x.withTurn p) (x.withTurn p).phase := by
  rcases x.withTurn_cases p with he | ⟨s, hp, he⟩
  · rwa [he]
  · rw [he]
    rw [hp] at hx
    exact And.intro (hx.1.congr rfl rfl) (hx.2.withTurn p)

variable {R : Execution κ η α → World ω κ ξ → World ω κ ξ → Prop}

theorem Stands.move {q r : Execution κ η α × World ω κ ξ}
    (hchain : c.chain.interceptors = [interceptor settings])
    (hx : Stands settings k q.1 q.1.phase) (hm : Move c h R q r) :
    Stands settings k r.1 r.1.phase := by
  cases hm with
  | @step x w _ hs =>
    obtain ⟨_, ⟨_, rfl⟩ | ⟨_, ha⟩⟩ := step_cases hs
    · obtain ⟨e, hp⟩ := phase_interrupt c h x w
      rw [hp]
      exact trivial
    · exact hx.advance hchain ha
  | turn x w p => exact hx.withTurn p
  | abort w reason _ => exact hx.congr rfl rfl rfl rfl
  | kill w _ =>
    unfold kill
    split
    · exact hx
    · exact trivial
  | others _ => exact hx

theorem Moves.stands {x₀ : Execution κ η α} {w₀ : World ω κ ξ}
    {r : Execution κ η α × World ω κ ξ} (hchain : c.chain.interceptors = [interceptor settings])
    (hx : x₀.phase = .ready) (ha : Asked settings x₀) (hm : Moves c h R (x₀, w₀) r) :
    Stands settings k r.1 r.1.phase := by
  induction hm with
  | refl =>
    rw [hx]
    exact ha
  | tail _ hs ih => exact ih.move hchain hs

/-- Whatever the server, the network and others do: when a download that was to be checked succeeds,
and the head that its last attempt received was marked, the connection delivered a payload and its
digest, as many bytes as that head declared. The body that the handler made its outcome of is the
payload, and the head that it was shown declares the payload's length. -/
theorem download_intact {x₀ x : Execution κ η α} {w₀ w : World ω κ ξ} {out : α}
    {head : ResponseHead} (k : Collector h)
    (hchain : c.chain.interceptors = [interceptor settings]) (hx : x₀.Unbegun)
    (ha : ChecksDownload settings x₀.attributes) (hr : Checkable x₀.request.headers)
    (hm : Moves c h R (x₀, w₀) (x, w)) (ho : x.outcome? = some (.ok out))
    (hh : head ∈ (seen x.history).heads) (hmark : isMarked head = true) :
    ∃ p, (seen x.history).delivered = p ++ md5 p ∧
      head.headers.declaredLength? = some (seen x.history).delivered.length ∧ k.body out = p ∧
      ∃ shown, (seen x.history).shown = [shown] ∧
        shown.headers.all Headers.contentLength = [toString p.length] := by
  have hs := hm.stands (k := k) hchain hx.phase ⟨ha, hr⟩
  rw [phase_of_outcome? ho] at hs
  obtain ⟨hd, hl, hshown⟩ := hs head hh hmark
  exact ⟨k.body out, hd, hl, rfl, hshown⟩

theorem download_intact_two_chunks :
    let r := Rehearsal.markedGet [104, 105] 5
    (r.1.outcome?.bind Except.toOption).map (·.body) = some [104, 105] ∧
      (seen r.1.history).delivered = [104, 105] ++ md5 [104, 105] := by
  intro r
  have hbody : (r.1.outcome?.bind Except.toOption).map (·.body) = some [104, 105] := by
    decide +kernel
  have hh : (Rehearsal.markedReply [104, 105] 5).head ∈ (seen r.1.history).heads := by
    decide +kernel
  have hmark : isMarked (Rehearsal.markedReply [104, 105] 5).head = true := by decide
  have hm : Moves (Rehearsal.scriptedClient ⟨[interceptor .enabled]⟩) Buffering.handler
      (fun _ _ _ => False)
      (.start Rehearsal.plainGet .start (Attributes.empty.put .operationKind .download),
        Rehearsal.scripted [Rehearsal.markedReply [104, 105] 5]) r := moves_walk 60 _
  refine ⟨hbody, ?_⟩
  clear_value r
  obtain ⟨response, ho, hb⟩ := Option.map_eq_some_iff.mp hbody
  obtain ⟨outcome, ho, hok⟩ := Option.bind_eq_some_iff.mp ho
  cases outcome with
  | error e => cases hok
  | ok out =>
    cases hok
    obtain ⟨_, hd, _, rfl, _⟩ := download_intact .buffering rfl ⟨rfl, rfl⟩ ⟨by decide, by decide⟩
      ⟨by decide, by decide⟩ hm ho hh hmark
    rw [hd]
    exact congrArg (fun b => b ++ md5 b) hb

end Execution

end Courier
