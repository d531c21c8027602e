import Courier.Proofs.Client.Upload
import Courier.Proofs.Integrity.Outgoing

/-! # Retries send the same again

With the integrity hooks alone in the chain, every attempt that gets as far as sending sends the
same head, and bodies that spell the same bytes. Each attempt starts from the request that was made,
and of what an earlier one has left in the attributes nothing bears on what is sent.
-/

namespace Courier

open Integrity

variable {ω κ ξ η α : Type}

/-! ## What has been sent -/

structure Sending where
  head : RequestHead
  body : Option ByteStream

namespace Event

def sending? : Event → Option Sending
  | sent head body => some ⟨head, body⟩
  | _ => none

theorem sending?_of_isRemark (e : Event) (h : e.isRemark = true) : e.sending?.isNone = true := by
  cases e with
  | sent head body => cases h
  | _ => rfl

end Event

def sendings (t : List Event) : List Sending :=
  t.filterMap Event.sending?

namespace Execution

variable {settings : Settings} {x y z : Execution κ η α} {w v : World ω κ ξ}
  {r : Execution κ η α × World ω κ ξ}

@[simp] theorem sendings_note (x : Execution κ η α) (e : Event) :
    sendings (x.note e).history = sendings x.history ++ e.sending?.toList := by
  cases h : e.sending? <;> simp [note, sendings, h]

theorem Continues.sendings_eq (hc : Continues (·.sending?.isNone) x y) :
    sendings y.history = sendings x.history := by
  obtain ⟨es, he, hs⟩ := hc
  have hes : es.filterMap Event.sending? = [] :=
    List.filterMap_eq_nil_iff.mpr fun e hm => Option.isNone_iff_eq_none.mp (hs e hm)
  rw [sendings, he, List.filterMap_append, hes, List.append_nil, sendings]

/-- The second goes on from the first without sending anything, and nothing that bears on what is
sent has changed. -/
structure Silent (settings : Settings) (x y : Execution κ η α) : Prop where
  history : Continues (·.sending?.isNone) x y
  request : y.request = x.request
  effective : effective settings y.attributes = effective settings x.attributes

theorem Silent.refl (x : Execution κ η α) : Silent settings x x :=
  ⟨.refl x, rfl, rfl⟩

theorem Silent.trans (hx : Silent settings x y) (hy : Silent settings y z) : Silent settings x z :=
  ⟨hx.history.trans hy.history, hy.request.trans hx.request, hy.effective.trans hx.effective⟩

theorem Silent.of_eq (hh : y.history = x.history) (hr : y.request = x.request)
    (ha : y.attributes = x.attributes) : Silent settings x y :=
  ⟨.of_eq hh, hr, by rw [ha]⟩

theorem Silent.congr (hx : Silent settings x y) (hh : z.history = y.history)
    (hr : z.request = y.request) (ha : z.attributes = y.attributes) : Silent settings x z :=
  hx.trans (.of_eq hh hr ha)

theorem silent_note (x : Execution κ η α) {e : Event} (he : e.sending? = none) :
    Silent settings x (x.note e) :=
  ⟨.note x (by rw [he]; rfl), rfl, rfl⟩

theorem silent_moveTo (x : Execution κ η α) (next : ExecutionState) :
    Silent settings x (x.moveTo next) :=
  ⟨(continues_moveTo x next).mono Event.sending?_of_isRemark, request_moveTo x next,
    by rw [attributes_moveTo]⟩

theorem Ends.silent (he : Ends x w r) : Silent settings x r.1 :=
  ⟨he.history.mono Event.sending?_of_isRemark, he.request, by rw [he.attributes]⟩

theorem silent_letGo (net : Network ω κ) (x : Execution κ η α) (w : World ω κ ξ) :
    Silent settings x (x.letGo net w).1 := by
  unfold letGo
  split
  · exact .refl x
  · split
    · exact silent_note x rfl
    · exact .refl x

theorem silent_handed (net : Network ω κ) (h : Handler η α) (l : Lease κ) (q : Response)
    (x : Execution κ η α) (w : World ω κ ξ) : Silent settings x (x.handed net h l q w) := by
  have hh : Silent settings x (x.tellHeaders h q.head) :=
    (silent_note x (e := .told (.headersReceived q.head)) rfl).congr rfl rfl rfl
  have hm := hh.trans (silent_moveTo _ .streamingBody)
  exact (hm.trans (silent_note _ (e := .told (.onStream q.body.declared)) rfl)).congr rfl rfl rfl

theorem silent_pumped (x : Execution κ η α) (read : Option (Except Error (Option Bytes)))
    (s : Streaming κ) : Silent settings x (x.pumped read s) := by
  cases read with
  | none => exact .of_eq rfl rfl rfl
  | some result => exact (silent_note x (e := .read result) rfl).congr rfl rfl rfl

/-! ## How a request stands that is sent again -/

variable {e : Settings × OperationKind} {q : Request} {bytes : Option Bytes}

/-- The request is the one that was made, and all that has been sent of it is alike. -/
structure Resending (settings : Settings) (e : Settings × OperationKind) (q : Request)
    (bytes : Option Bytes) (x : Execution κ η α) : Prop where
  request : x.request = q
  effective : effective settings x.attributes = e
  alike : ∀ s ∈ sendings x.history,
    s.head = (outgoing e.1 e.2 q).head ∧ Option.Rel ByteStream.Spells s.body bytes

theorem Resending.silent (hx : Resending settings e q bytes x) (hs : Silent settings x y) :
    Resending settings e q bytes y where
  request := hs.request.trans hx.request
  effective := hs.effective.trans hx.effective
  alike := by
    rw [hs.history.sendings_eq]
    exact hx.alike

/-- What is queued is what will be sent, and what is being sent has been noted. -/
def Resends (settings : Settings) (e : Settings × OperationKind) (q : Request)
    (bytes : Option Bytes) (x : Execution κ η α) : Phase κ α → Prop
  | .acquiring request _ => Resending settings e q bytes x ∧
      request.head = (outgoing e.1 e.2 q).head ∧ request.body.Reopens bytes
  | .sending head body _ _ => Resending settings e q bytes x ∧ ⟨head, body⟩ ∈ sendings x.history
  | _ => Resending settings e q bytes x

theorem Resends.resending {p : Phase κ α} (hx : Resends settings e q bytes x p) :
    Resending settings e q bytes x := by
  cases p with
  | acquiring _ _ => exact hx.1
  | sending _ _ _ _ => exact hx.1
  | _ => exact hx

theorem Resends.silent {p : Phase κ α} (hx : Resends settings e q bytes x p)
    (hs : Silent settings x y) : Resends settings e q bytes y p := by
  have hy := hx.resending.silent hs
  cases p with
  | acquiring _ _ => exact ⟨hy, hx.2⟩
  | sending _ _ _ _ => exact ⟨hy, hs.history.sendings_eq ▸ hx.2⟩
  | _ => exact hy

theorem Resending.ends (hx : Resending settings e q bytes x) (he : Ends x w r) :
    Resends settings e q bytes r.1 r.1.phase := by
  have hr := hx.silent he.silent
  rcases he.phase with ⟨outcome, hp⟩ | ⟨due, hp⟩
  all_goals
    rw [hp]
    exact hr

variable {cl : Client ω κ ξ} {h : Handler η α}

theorem resends_fail (hx : Resending settings e q bytes x) (err : Error) (w : World ω κ ξ) :
    Resends settings e q bytes (x.fail cl h err w).1 (x.fail cl h err w).1.phase :=
  hx.ends (ends_fail err x w)

theorem resends_failWith (hx : Resending settings e q bytes x) (l : Lease κ) (err : Error)
    (w : World ω κ ξ) :
    Resends settings e q bytes (x.failWith cl h l err w).1 (x.failWith cl h l err w).1.phase :=
  resends_fail (hx.silent (silent_note x rfl)) err _

theorem resends_settle (hx : Resending settings e q bytes x) (l : Lease κ)
    (result : Except Error BodyEnd) (w : World ω κ ξ) :
    let r := x.settle cl h l result w
    Resends settings e q bytes r.1 r.1.phase := by
  unfold settle
  rcases result with err | _ | _
  · exact resends_failWith hx l err w
  · have hn := hx.silent (silent_note x (e := .released l.id) rfl)
    dsimp only
    split
    · exact hn.ends (ends_succeed _ _)
    · exact resends_fail hn _ _
  · have hn := hx.silent (silent_note x (e := .discarded l.id) rfl)
    exact hn.ends (ends_succeed _ (x.discard cl.network l w).2)

/-! ## Steps -/

theorem resending_opened {result : Except Error Request} {hooks : HookState ξ}
    (hchain : cl.chain.interceptors = [interceptor settings]) (hb : q.body.Reopens bytes)
    (hx : Resending settings e q bytes x)
    (hk : cl.chain.onRequest x.request (x.opened.hookState w) = (result, hooks)) :
    ∃ request, result = .ok request ∧ Resending settings e q bytes (x.opened.afterHooks hooks) ∧
      request.head = (outgoing e.1 e.2 q).head ∧ request.body.Reopens bytes := by
  rw [InterceptorChain.onRequest_single hchain, hx.request] at hk
  change Integrity.onRequest settings q (x.opened.hookState w) = _ at hk
  have ho : Silent settings x x.opened := silent_moveTo x .acquiringConnection
  have he : effective settings (x.opened.hookState w).attributes = e :=
    ho.effective.trans hx.effective
  cases result with
  | error err =>
    obtain ⟨_, hon, -, -⟩ := onRequest_outgoing settings q (x.opened.hookState w)
    rw [hk] at hon
    cases hon
  | ok request =>
    obtain ⟨hhead, hbody, hkept⟩ := onRequest_resends hk hb
    rw [he] at hhead hkept
    exact ⟨_, rfl, hx.silent ⟨ho.history, ho.request, hkept.trans hx.effective.symm⟩, hhead, hbody⟩

theorem resends_transmitting {request : Request} (hx : Resending settings e q bytes x)
    (hh : request.head = (outgoing e.1 e.2 q).head) (hb : request.body.Reopens bytes)
    (net : Network ω κ) (l : Lease κ) (w : World ω κ ξ) :
    let y := x.transmitting net request l w
    Resends settings e q bytes y y.phase := by
  intro y
  have hm : Resending settings e q bytes ((x.note (.leased l.id)).moveTo .transmitting) :=
    hx.silent ((silent_note x rfl).trans (silent_moveTo _ .transmitting))
  have hs : sendings y.history = sendings ((x.note (.leased l.id)).moveTo .transmitting).history ++
      [⟨request.head, (request.body.openStream w.cells).1⟩] := sendings_note _ _
  refine ⟨⟨hm.request, hm.effective, ?_⟩, ?_⟩
  · rw [hs]
    intro s hmem
    rcases List.mem_append.mp hmem with hmem | hmem
    · exact hm.alike s hmem
    · cases List.mem_singleton.mp hmem
      exact ⟨hh, hb.openStream w.cells⟩
  · rw [hs]
    exact List.mem_append_right _ List.mem_cons_self

theorem Resends.advance (hchain : cl.chain.interceptors = [interceptor settings])
    (hb : q.body.Reopens bytes) (hx : Resends settings e q bytes x x.phase)
    (ha : Advance cl h x w r) : Resends settings e q bytes r.1 r.1.phase := by
  have hr := hx.resending
  cases ha with
  | prepare hp => exact hr.silent ((silent_note x (e := .told .prepare) rfl).congr rfl rfl rfl)
  | refused hp hk =>
    obtain ⟨_, hok, _⟩ := resending_opened hchain hb hr hk
    cases hok
  | unqueued hp hk _ =>
    obtain ⟨_, _, ho, _⟩ := resending_opened hchain hb hr hk
    exact resends_fail ho _ _
  | queued hp hk _ =>
    obtain ⟨_, hok, ho, hq⟩ := resending_opened hchain hb hr hk
    cases hok
    exact ⟨ho.silent (.of_eq rfl rfl rfl), hq⟩
  | acquiring hp _ _ =>
    rw [hp] at hx
    exact ⟨hr.silent (.of_eq rfl rfl rfl), hx.2⟩
  | unacquired hp _ _ => exact resends_fail hr _ _
  | leased hp _ _ =>
    rw [hp] at hx
    exact resends_transmitting hr hx.2.1 hx.2.2 _ _ _
  | unsent hp _ _ => exact resends_failWith hr _ _ _
  | sent hp _ _ =>
    exact hr.silent ((silent_moveTo x .awaitingResponse).congr rfl rfl rfl)
  | expired hp _ => exact resends_failWith hr _ _ _
  | headless hp _ _ => exact resends_failWith hr _ _ _
  | @withheld _ _ head _ _ _ hp _ _ _ =>
    exact resends_failWith (hr.silent (silent_note x (e := .answered head) rfl)) _ _ _
  | @rejected _ _ head _ _ _ hooks hp _ _ _ hk =>
    obtain ⟨rfl, _⟩ := InterceptorChain.onResponse_integrity hchain hk
    have hn : Silent settings x ((x.note (.answered head)).afterHooks (x.hookState w)) :=
      (silent_note x (e := .answered head) rfl).congr rfl rfl rfl
    exact resends_failWith (hr.silent hn) _ _ _
  | @responded _ _ head _ _ _ hooks hp _ _ _ hk =>
    obtain ⟨rfl, _⟩ := InterceptorChain.onResponse_integrity hchain hk
    have hn : Silent settings x ((x.note (.answered head)).afterHooks (x.hookState w)) :=
      (silent_note x (e := .answered head) rfl).congr rfl rfl rfl
    exact hr.silent (hn.trans (silent_handed _ _ _ _ _ _))
  | settled hp _ => exact resends_settle hr _ _ _
  | pumped hp _ _ _ => exact hr.silent (silent_pumped x _ _)
  | handled hp _ _ _ => exact hr.silent (.of_eq rfl rfl rfl)
  | resume hp _ => exact hr.silent (.of_eq rfl rfl rfl)

/-! ## Runs -/

variable {R : Execution κ η α → World ω κ ξ → World ω κ ξ → Prop}

theorem Resends.move {o : Execution κ η α × World ω κ ξ}
    (hchain : cl.chain.interceptors = [interceptor settings]) (hb : q.body.Reopens bytes)
    (hx : Resends settings e q bytes o.1 o.1.phase) (hm : Move cl h R o r) :
    Resends settings e q bytes r.1 r.1.phase := by
  cases hm with
  | @step x w _ hs =>
    obtain ⟨_, ⟨_, rfl⟩ | ⟨_, ha⟩⟩ := step_cases hs
    · exact (hx.resending.silent (silent_letGo cl.network x w)).ends
        (ends_interrupted _ x.phase.inAttempt _ (x.letGo cl.network w).2)
    · exact hx.advance hchain hb ha
  | turn x w p =>
    rcases x.withTurn_cases p with he | ⟨s, hp, he⟩
    · rwa [he]
    · rw [he]
      exact hx.resending.silent (.of_eq rfl rfl rfl)
  | @abort x w reason _ => exact hx.silent (.of_eq rfl rfl rfl)
  | @kill x w _ =>
    unfold Execution.kill
    split
    · exact hx
    · exact (hx.resending.silent (silent_letGo cl.network x w)).ends
        (ends_finish loopStopped _ (x.letGo cl.network w).2)
  | others _ => exact hx

theorem Moves.resends {x₀ : Execution κ η α} {w₀ : World ω κ ξ}
    (hchain : cl.chain.interceptors = [interceptor settings]) (hx : x₀.Unbegun)
    (hb : x₀.request.body.Reopens bytes) (hm : Moves cl h R (x₀, w₀) r) :
    Resends settings (effective settings x₀.attributes) x₀.request bytes r.1 r.1.phase := by
  induction hm with
  | refl =>
    rw [hx.phase]
    refine ⟨rfl, rfl, ?_⟩
    rw [hx.history]
    rintro s ⟨⟩
  | tail _ hs ih => exact ih.move hchain hb hs

/-- Retries are transparent. Whatever the settings, the kind of operation, the policy, the server
and others do: every attempt that gets as far as sending, the one under way included, sends the
method, path and headers, in order, that the hook makes of the request as it was made, and a body
that spells the same bytes, if there is one at all. -/
theorem attempts_alike {x₀ x : Execution κ η α} {w₀ w : World ω κ ξ}
    (hchain : cl.chain.interceptors = [interceptor settings]) (hx : x₀.Unbegun)
    (hb : x₀.request.body.Reopens bytes) (hm : Moves cl h R (x₀, w₀) (x, w)) :
    let e := effective settings x₀.attributes
    (∀ s ∈ sendings x.history,
      s.head = (outgoing e.1 e.2 x₀.request).head ∧ Option.Rel ByteStream.Spells s.body bytes) ∧
      ∀ head body lease due, x.phase = .sending head body lease due →
        ⟨head, body⟩ ∈ sendings x.history := by
  intro e
  have hr := hm.resends hchain hx hb
  refine ⟨hr.resending.alike, ?_⟩
  intro head body lease due hp
  change Resends settings e x₀.request bytes x x.phase at hr
  rw [hp] at hr
  exact hr.2

/-- An upload that is sent twice, with a slot of its own for the digest each time. -/
theorem attempts_alike_retried_put :
    let tag := "\"5d41402abc4b2a76b9719d911017c592\""
    let r := Rehearsal.retriedPut [[104, 101, 108], [108, 111]] tag
    (sendings r.1.history).length = 2 ∧ ∀ s ∈ sendings r.1.history,
      s.head = (outgoing .enabled .upload
        (Rehearsal.chunkedPut [[104, 101, 108], [108, 111]])).head ∧
      Option.Rel ByteStream.Spells s.body (some [104, 101, 108, 108, 111]) := by
  intro tag r
  have hlength : (sendings r.1.history).length = 2 := by decide +kernel
  have hm : Moves
      { Rehearsal.scriptedClient ⟨[interceptor .enabled]⟩ with policy := ⟨.always, .none, 1⟩ }
      Buffering.handler (fun _ _ _ => False)
      (.start (Rehearsal.chunkedPut [[104, 101, 108], [108, 111]]) .start
          (Attributes.empty.put .operationKind .upload),
        Rehearsal.scripted [.ofStatus 503 "Busy",
          (Rehearsal.Reply.ok []).withHeader Headers.entityTag tag]) r := moves_walk 60 _
  clear_value r
  refine ⟨hlength, (attempts_alike rfl ⟨rfl, rfl⟩ ?_ hm).1⟩
  exact .streaming fun _ _ => rfl

end Execution

end Courier
