import Courier.Proofs.Client.Hearing
import Courier.Proofs.Client.Retrying
import Courier.Proofs.Pool.Depot

/-! # Responses that are withheld

A response with an error status is kept from the handler if the policy matches its status after so
many retries, and shown otherwise, unless a hook refuses it. The policy is asked again when the
attempt has failed; it then matches as well, whatever time has gone by meanwhile.
-/

namespace Courier

variable {ω κ ξ η α : Type}

namespace Event

def answer? : Event → Option ResponseHead
  | answered head => some head
  | _ => none

def decision? : Event → Option RetryDecision
  | decided _ decision => some decision
  | _ => none

theorem parts_of_answer? {t : List Event} {i : Nat} {head : ResponseHead}
    (h : t[i]?.bind answer? = some head) :
    t = t.take i ++ .answered head :: t.drop (i + 1) := by
  obtain ⟨e, he, ha⟩ := Option.bind_eq_some_iff.mp h
  cases e with
  | answered _ =>
    cases ha
    exact Depot.parts_of_getElem? he
  | _ => cases ha

theorem answer?_of_isRemark (e : Event) (h : e.isRemark = true) : e.answer?.isNone = true := by
  cases e with
  | answered head => cases h
  | _ => rfl

end Event

def decisions (t : List Event) : List RetryDecision :=
  t.filterMap Event.decision?

namespace RetryPolicy

theorem decide_of_admits {p : RetryPolicy} {retries : Nat} {e : Error}
    (ha : p.admits retries e = true) (d : Duration) (g : Generator) :
    (p.decide (.ofError retries (some e) d) g).1 ≠ .notRetryable := by
  have hm : p.isRetryable (.ofError retries (some e) d) = true :=
    (p.isRetryable_ofError retries e d).trans ha
  simp only [decide, hm, Bool.not_true, Bool.false_eq_true, if_false]
  split <;> simp

end RetryPolicy

namespace Execution

variable {c : Client ω κ ξ} {h : Handler η α} {x y : Execution κ η α} {w v : World ω κ ξ}
  {r : Execution κ η α × World ω κ ξ} {head : ResponseHead} {e : Error}

/-! ## The step with which a head comes -/

def Unanswered (x y : Execution κ η α) : Prop :=
  Continues (·.answer?.isNone) x y

theorem unanswered_note (x : Execution κ η α) {e : Event} (he : e.answer? = none) :
    Unanswered x (x.note e) :=
  .note x (by rw [he]; rfl)

theorem unanswered_moveTo (x : Execution κ η α) (next : ExecutionState) :
    Unanswered x (x.moveTo next) :=
  (continues_moveTo x next).mono Event.answer?_of_isRemark

theorem unanswered_fail (e : Error) (x : Execution κ η α) (w : World ω κ ξ) :
    Unanswered x (x.fail c h e w).1 :=
  (ends_fail e x w).history.mono Event.answer?_of_isRemark

theorem unanswered_failWith (l : Lease κ) (e : Error) (x : Execution κ η α) (w : World ω κ ξ) :
    Unanswered x (x.failWith c h l e w).1 :=
  (unanswered_note x rfl).trans (unanswered_fail e _ _)

theorem unanswered_succeed (x : Execution κ η α) : Unanswered x (x.succeed h) :=
  (unanswered_moveTo x .complete).trans (unanswered_note (e := .told .complete) _ rfl)

theorem unanswered_settle (l : Lease κ) (result : Except Error BodyEnd) (x : Execution κ η α)
    (w : World ω κ ξ) : Unanswered x (x.settle c h l result w).1 := by
  unfold settle
  rcases result with e | _ | _
  · exact unanswered_failWith l e x w
  · have hn : Unanswered x (x.note (.released l.id)) := unanswered_note x rfl
    dsimp only
    split
    · exact hn.trans (unanswered_succeed _)
    · exact hn.trans (unanswered_fail _ _ _)
  · exact Continues.trans (unanswered_note x rfl) (unanswered_succeed _)

theorem unanswered_interrupt (x : Execution κ η α) (w : World ω κ ξ) :
    Unanswered x (x.interrupt c h w).1 := by
  have hl : Unanswered x (x.letGo c.network w).1 := by
    unfold letGo
    split
    · exact .refl x
    · split
      · exact unanswered_note x rfl
      · exact .refl x
  exact hl.trans ((ends_interrupted _ x.phase.inAttempt _ (x.letGo c.network w).2).history.mono
    Event.answer?_of_isRemark)

theorem unanswered_handed (net : Network ω κ) (l : Lease κ) (q : Response) (x : Execution κ η α)
    (w : World ω κ ξ) : Unanswered x (x.handed net h l q w) :=
  have hh : Unanswered x (x.tellHeaders h q.head) :=
    unanswered_note (e := .told (.headersReceived q.head)) x rfl
  (hh.trans (unanswered_moveTo _ .streamingBody)).trans
    (unanswered_note (e := .told (.onStream q.body.declared)) _ rfl)

inductive Receives (c : Client ω κ ξ) (h : Handler η α) (x : Execution κ η α) (w : World ω κ ξ)
    (head : ResponseHead) : Execution κ η α × World ω κ ξ → Prop

  | withheld {lease : Lease κ} {e : Error} {v : World ω κ ξ}
      (hw : x.withheld? c.policy head w.now = some e) (hv : v.cells = w.cells) :
      Receives c h x w head ((x.note (.answered head)).failWith c h lease e v)

  | rejected {lease : Lease κ} {e : Error} {s : HookState ξ} {v : World ω κ ξ}
      (hw : x.withheld? c.policy head w.now = none)
      (hk : c.chain.onResponse (responseOf head) (x.hookState w) = (.error e, s)) :
      Receives c h x w head (((x.note (.answered head)).afterHooks s).failWith c h lease e v)

  | shown {lease : Lease κ} {q : Response} {s : HookState ξ} {v : World ω κ ξ}
      (hw : x.withheld? c.policy head w.now = none)
      (hk : c.chain.onResponse (responseOf head) (x.hookState w) = (.ok q, s)) :
      Receives c h x w head
        (((x.note (.answered head)).afterHooks s).handed c.network h lease q v, v)

theorem Advance.receives (ha : Advance c h x w r) :
    Unanswered x r.1 ∨ ∃ head lease wait, x.phase = .awaiting lease wait ∧
      Receives c h x w head r := by
  have hopened (s : HookState ξ) : Unanswered x (x.opened.afterHooks s) :=
    unanswered_moveTo x .acquiringConnection
  cases ha with
  | prepare _ => exact .inl (unanswered_note (e := .told .prepare) x rfl)
  | refused _ _ => exact .inl ((hopened _).trans (unanswered_fail _ _ _))
  | unqueued _ _ _ => exact .inl ((hopened _).trans (unanswered_fail _ _ _))
  | @queued _ s _ _ _ _ _ => exact .inl (hopened s)
  | acquiring _ _ _ => exact .inl (.refl x)
  | unacquired _ _ _ => exact .inl (unanswered_fail _ _ _)
  | @leased request _ lease _ _ _ _ _ =>
    have hl : Unanswered x ((x.note (.leased lease.id)).moveTo .transmitting) :=
      (unanswered_note x rfl).trans (unanswered_moveTo _ _)
    exact .inl (hl.trans (unanswered_note (e := .sent request.head _) _ rfl))
  | unsent _ _ _ => exact .inl (unanswered_failWith _ _ _ _)
  | sent _ _ _ => exact .inl (unanswered_moveTo x .awaitingResponse)
  | expired _ _ => exact .inl (unanswered_failWith _ _ _ _)
  | headless _ _ _ => exact .inl (unanswered_failWith _ _ _ _)
  | @withheld _ _ head _ _ _ hp _ _ hw => exact .inr ⟨head, _, _, hp, .withheld hw rfl⟩
  | @rejected _ _ head _ _ _ _ hp _ _ hw hk => exact .inr ⟨head, _, _, hp, .rejected hw hk⟩
  | @responded _ _ head _ _ _ _ hp _ _ hw hk => exact .inr ⟨head, _, _, hp, .shown hw hk⟩
  | settled _ _ => exact .inl (unanswered_settle _ _ _ _)
  | @pumped _ _ read _ _ _ _ _ =>
    cases read with
    | none => exact .inl (.refl x)
    | some result => exact .inl (unanswered_note (e := .read result) x rfl)
  | handled _ _ _ _ => exact .inl (.refl x)
  | resume _ _ => exact .inl (.refl x)

theorem Receives.unanswered (hr : Receives c h x w head r) :
    Unanswered (x.note (.answered head)) r.1 := by
  cases hr with
  | withheld _ _ => exact unanswered_failWith _ _ _ _
  | @rejected _ _ s _ _ _ =>
    exact unanswered_failWith _ _ ((x.note (.answered head)).afterHooks s) _
  | @shown _ _ s _ _ _ => exact unanswered_handed _ _ _ ((x.note (.answered head)).afterHooks s) _

/-! ## What comes of a response -/

@[simp] theorem decisions_note (x : Execution κ η α) (e : Event) :
    decisions (x.note e).history = decisions x.history ++ e.decision?.toList := by
  cases h : e.decision? <;> simp [note, decisions, h]

@[simp] theorem decisions_moveTo (x : Execution κ η α) (next : ExecutionState) :
    decisions (x.moveTo next).history = decisions x.history := by
  unfold moveTo
  split
  · rfl
  · exact (decisions_note x _).trans (List.append_nil _)

def Obeys (retries : Nat) (e : Error) (y : Execution κ η α) : RetryDecision → Prop
  | .retry _ => ∃ due, y.phase = .waiting due
  | .giveUp => y.outcome? = some (.error (.retryExhausted (retries + 1) e))
  | .notRetryable => y.outcome? = some (.error e)

theorem obeys_fail (e : Error) (x : Execution κ η α) (w : World ω κ ξ) :
    let d := ((x.tellException h e).decide c.policy e w).1
    decisions (x.fail c h e w).1.history = decisions x.history ++ [d] ∧
      Obeys x.retries e (x.fail c h e w).1 d := by
  rw [fail_eq]
  generalize (x.tellException h e).decide c.policy e w = d
  obtain ⟨decision, u⟩ := d
  have hd : decisions (x.decided h e decision u.now).history =
      decisions x.history ++ [decision] := by
    simp [decided, tellException, Event.decision?]
  have hm (next : ExecutionState) := (decisions_moveTo (x.decided h e decision u.now) next).trans hd
  cases decision with
  | retry delay => exact ⟨hm .retrying, _, rfl⟩
  | giveUp =>
    refine ⟨hm .failed, ?_⟩
    have hn : ((x.decided h e .giveUp u.now).moveTo .failed).retries = x.retries :=
      retries_moveTo _ _
    dsimp only [Obeys, concluded]
    rw [retries_moveTo] at hn
    rw [hn]
    rfl
  | notRetryable => exact ⟨hm .failed, rfl⟩

theorem decide_of_isReplayable (ha : c.policy.admits x.retries e = true)
    (hb : x.request.body.isReplayable w.cells = true) :
    (x.decide c.policy e w).1 ≠ .notRetryable := by
  unfold Execution.decide
  rw [if_pos hb]
  exact RetryPolicy.decide_of_admits ha _ _

theorem obeys_failWith (ha : c.policy.admits x.retries e = true)
    (hb : x.request.body.isReplayable w.cells = true) (l : Lease κ) :
    ∃ decision, decision ≠ .notRetryable ∧
      decisions (x.failWith c h l e w).1.history = decisions x.history ++ [decision] ∧
      Obeys x.retries e (x.failWith c h l e w).1 decision := by
  obtain ⟨hd, ho⟩ := obeys_fail (c := c) (h := h) e (x.discard c.network l w).1
    (x.discard c.network l w).2
  refine ⟨_, ?_, hd.trans ?_, ho⟩
  · exact decide_of_isReplayable (x := (x.discard c.network l w).1.tellException h e) ha hb
  · simp [discard, Event.decision?]

theorem withheld?_eq (policy : RetryPolicy) (hn : head.isSuccess = false) (now : Nat) :
    x.withheld? policy head now =
      if policy.admits x.retries (.status head.status head.reason) then
        some (.status head.status head.reason)
      else none := by
  have hm := policy.isRetryable_ofError x.retries (.status head.status head.reason)
    (.ofMillis (now - x.started))
  simp only [withheld?, context, hn, hm, Bool.not_false, Bool.true_and]

theorem admits_of_withheld?_some {policy : RetryPolicy} (hn : head.isSuccess = false) {now : Nat}
    (hw : x.withheld? policy head now = some e) :
    policy.admits x.retries e = true ∧ e = .status head.status head.reason := by
  rw [withheld?_eq policy hn] at hw
  split at hw
  · cases hw
    exact ⟨‹_›, rfl⟩
  · cases hw

theorem admits_of_withheld?_none {policy : RetryPolicy} (hn : head.isSuccess = false) {now : Nat}
    (hw : x.withheld? policy head now = none) :
    policy.admits x.retries (.status head.status head.reason) = false := by
  rw [withheld?_eq policy hn] at hw
  split at hw
  · cases hw
  · exact Bool.not_eq_true _ ▸ ‹_›

/-! ## Runs -/

theorem split_of_not_mem {β : Type} {l es before behind : List β} {b : β}
    (h : l ++ es = before ++ b :: behind) (hn : b ∉ es) : ∃ cs, l = before ++ b :: cs := by
  obtain ⟨as, rfl, he⟩ | ⟨cs, rfl, he⟩ := List.append_eq_append_iff.mp h
  · exact absurd (he ▸ List.mem_append_right as List.mem_cons_self) hn
  · cases cs with
    | nil => exact absurd (he.subst (motive := (b ∈ ·)) List.mem_cons_self) hn
    | cons d cs =>
      obtain ⟨rfl, -⟩ := List.cons.inj he
      exact ⟨cs, rfl⟩

theorem Unanswered.split (hu : Unanswered x y) {before behind : List Event}
    (hh : y.history = before ++ .answered head :: behind) :
    ∃ cs, x.history = before ++ .answered head :: cs := by
  obtain ⟨es, he, hn⟩ := hu
  rw [he] at hh
  exact split_of_not_mem hh fun hm => nomatch hn _ hm

variable {R : Execution κ η α → World ω κ ξ → World ω κ ξ → Prop} {x₀ : Execution κ η α}
  {w₀ : World ω κ ξ}

/-- A head in the history has come with one of the steps of the run. -/
theorem Runs.receives (hx : x₀.history = []) (hr : Runs c h R (x₀, w₀) r)
    {before behind : List Event} (hh : r.1.history = before ++ .answered head :: behind) :
    ∃ y v q, Runs c h R (x₀, w₀) (y, v) ∧ y.step c h v = some q ∧ Runs c h R q r ∧
      y.history = before ∧ (∃ lease wait, y.phase = .awaiting lease wait) ∧
      Receives c h y v head q := by
  induction hr generalizing behind with
  | refl =>
    rw [hx] at hh
    simp at hh
  | @step x w r hr hs ih =>
    -- the head is older than the step, or it is the one that the step begins with
    have hold {cs : List Event} (ho : x.history = before ++ .answered head :: cs) :
        ∃ y v q, Runs c h R (x₀, w₀) (y, v) ∧ y.step c h v = some q ∧ Runs c h R q r ∧
          y.history = before ∧ (∃ lease wait, y.phase = .awaiting lease wait) ∧
          Receives c h y v head q := by
      obtain ⟨y, v, q, hy, hq, hqr, h'⟩ := ih ho
      exact ⟨y, v, q, hy, hq, hqr.step hs, h'⟩
    obtain ⟨_, ⟨_, rfl⟩ | ⟨_, ha⟩⟩ := step_cases hs
    · obtain ⟨cs, ho⟩ := (unanswered_interrupt x w).split hh
      exact hold ho
    · obtain hu | ⟨head', lease, wait, hp, hrec⟩ := ha.receives
      · obtain ⟨cs, ho⟩ := hu.split hh
        exact hold ho
      · obtain ⟨cs, ho⟩ := hrec.unanswered.split hh
        obtain rfl | ⟨cs, e, rfl⟩ := List.eq_nil_or_concat cs
        · obtain ⟨hy, he⟩ := List.append_inj' ho rfl
          cases he
          exact ⟨x, w, r, hr, hs, .refl, hy, ⟨lease, wait, hp⟩, hrec⟩
        · have hc : x.history ++ [.answered head'] = (before ++ .answered head :: cs) ++ [e] := by
            simpa [note] using ho
          exact hold (List.append_inj' hc rfl).1
  | @turn x w who hr ih =>
    have ho : (x.withTurn who).history = x.history := by
      rcases x.withTurn_cases who with he | ⟨s, _, he⟩ <;> rw [he]
    obtain ⟨y, v, q, hy, hq, hqr, h'⟩ := ih (ho.symm.trans hh)
    exact ⟨y, v, q, hy, hq, hqr.turn who, h'⟩
  | abort reason _ hrest ih =>
    obtain ⟨y, v, q, hy, hq, hqr, h'⟩ := ih hh
    exact ⟨y, v, q, hy, hq, hqr.abort reason hrest, h'⟩
  | others _ ho ih =>
    obtain ⟨y, v, q, hy, hq, hqr, h'⟩ := ih hh
    exact ⟨y, v, q, hy, hq, hqr.others ho, h'⟩

theorem Story.count_prepare {p : RetryPolicy} {q : Request} {as : List Attempt}
    {rest : List Callback} (hs : Story p q x as rest) {lease : Lease κ} {wait : Wait}
    (hp : x.phase = .awaiting lease wait) :
    (callbacks x.history).count .prepare = x.retries + 1 := by
  have ho := hs.opening
  rw [hp] at ho
  cases ho with
  | none hi => cases hi
  | answered _ ha _ _ => cases ha
  | begun _ _ =>
    rw [hs.told, List.count_append, count_prepare_flatMap, Attempt.count_prepare_opening,
      hs.length_eq (by rw [hp]; rfl)]

/-- What the handler is told in the step in which a response with an error status comes. -/
theorem Receives.told (hr : Receives c h x w head r) (hn : head.isSuccess = false) :
    let e : Error := .status head.status head.reason
    ∃ cs, Told h cs x r.1 ∧
      (∀ shown, .headersReceived shown ∈ cs ↔ c.policy.admits x.retries e = false ∧
        ∃ q, (c.chain.onResponse (responseOf head) (x.hookState w)).1 = .ok q ∧ q.head = shown) ∧
      (c.policy.admits x.retries e = true → cs = [.exceptionOccurred e] ∧
        (x.request.body.isReplayable w.cells = true → ∃ decision, decision ≠ .notRetryable ∧
          decisions r.1.history = decisions x.history ++ [decision] ∧
          Obeys x.retries e r.1 decision)) := by
  intro e
  cases hr with
  | @withheld lease e' w' hw hv =>
    obtain ⟨ha, he⟩ : c.policy.admits x.retries e' = true ∧ e' = e := admits_of_withheld?_some hn hw
    subst he
    refine ⟨_, (told_note x rfl).trans (told_failWith lease e _ w'), ?_, fun _ => ⟨rfl, fun hb => ?_⟩⟩
    · simp [ha]
    · have hb' : (x.note (.answered head)).request.body.isReplayable w'.cells = true := hv ▸ hb
      obtain ⟨decision, hd, hds, ho⟩ := obeys_failWith (x := x.note (.answered head)) ha hb' lease
      refine ⟨decision, hd, hds.trans ?_, ho⟩
      simp [Event.decision?]
  | @rejected lease e' s w' hw hk =>
    have ha : c.policy.admits x.retries e = false := admits_of_withheld?_none hn hw
    have ht : Told h [] x ((x.note (.answered head)).afterHooks s) :=
      (told_note x rfl).congr rfl rfl
    refine ⟨_, ht.trans (told_failWith lease e' _ w'), ?_, ?_⟩
    · simp [hk]
    · simp [ha]
  | @shown lease q s w' hw hk =>
    have ha : c.policy.admits x.retries e = false := admits_of_withheld?_none hn hw
    have ht : Told h [] x ((x.note (.answered head)).afterHooks s) :=
      (told_note x rfl).congr rfl rfl
    refine ⟨_, ht.trans (told_handed c.network _ lease q w'), ?_, ?_⟩
    · simp [ha, hk, eq_comm]
    · simp [ha]

/-- Whatever the policy, the server and the hooks: when a response with an error status has come off
the wire, the handler is called with its head in that step if the policy does not match its status
after so many retries and the hooks let it pass, and only then. A response that is matched is called
as the failure of its attempt, and if the body of the request can be replayed the decision in that
step is to retry, or to give up after so many attempts with its status. -/
theorem withheld_or_shown {c : Client ω κ ξ} {h : Handler η α}
    {R : Execution κ η α → World ω κ ξ → World ω κ ξ → Prop} {x₀ x : Execution κ η α}
    {w₀ w : World ω κ ξ} {before behind : List Event} {head : ResponseHead} (hx : x₀.Fresh)
    (hr : Runs c h R (x₀, w₀) (x, w)) (hh : x.history = before ++ .answered head :: behind)
    (hn : head.isSuccess = false) :
    let e : Error := .status head.status head.reason
    ∃ y v r cs, Runs c h R (x₀, w₀) (y, v) ∧ y.step c h v = some r ∧ Runs c h R r (x, w) ∧
      y.history = before ∧ (callbacks before).count .prepare = y.retries + 1 ∧
      callbacks r.1.history = callbacks before ++ cs ∧ r.1.handler = cs.foldl h.hear y.handler ∧
      (∀ shown, .headersReceived shown ∈ cs ↔ c.policy.admits y.retries e = false ∧
        ∃ q, (c.chain.onResponse (responseOf head) (y.hookState v)).1 = .ok q ∧ q.head = shown) ∧
      (c.policy.admits y.retries e = true → cs = [.exceptionOccurred e] ∧
        (x₀.request.body.isReplayable v.cells = true → ∃ decision, decision ≠ .notRetryable ∧
          decisions r.1.history = decisions before ++ [decision] ∧
          Obeys y.retries e r.1 decision)) := by
  intro e
  obtain ⟨y, v, r, hy, hs, hrest, rfl, ⟨lease, wait, hp⟩, hrec⟩ := hr.receives hx.history hh
  obtain ⟨as, rest, hstory⟩ := hy.story hx (step_cases hs).1
  obtain ⟨cs, ht, hshown, hmatched⟩ := hrec.told hn
  refine ⟨y, v, r, cs, hy, hs, hrest, rfl, hstory.count_prepare hp, ht.callbacks, ht.handler,
    hshown, fun ha => ?_⟩
  obtain ⟨rfl, hbody⟩ := hmatched ha
  exact ⟨rfl, fun hb => hbody (hstory.request ▸ hb)⟩

end Execution

/-! ## Runs from a script -/

namespace Rehearsal

/-- A client of the scripted network that retries a server once that is busy. -/
def patientClient : Client Stage Line Unit :=
  { scriptedClient .empty with policy := ⟨.and [.statusCodes [503], .maxAttempts 1], .none, 3⟩ }

def busyReply : Reply := .ofStatus 503 "Busy"

def busyGet : Execution Line Buffering BufferedResponse × World Stage Line Unit :=
  Execution.walk patientClient Buffering.handler 60
    (.start plainGet .start .empty, scripted [busyReply, busyReply])

end Rehearsal

namespace Execution

open Rehearsal (patientClient busyReply busyGet)

/-- The same status is withheld the first time and shown the second. -/
theorem withheld_or_shown_busy_get :
    let t := busyGet.1.history
    t[5]?.bind Event.answer? = some busyReply.head ∧
      t[16]?.bind Event.answer? = some busyReply.head ∧
      (∃ y v q decision, Execution.step patientClient Buffering.handler y v = some q ∧
        y.history = t.take 5 ∧ decision ≠ .notRetryable ∧
        decisions q.1.history = decisions (t.take 5) ++ [decision]) ∧
      ∃ y v q cs, Execution.step patientClient Buffering.handler y v = some q ∧
        y.history = t.take 16 ∧ callbacks q.1.history = callbacks (t.take 16) ++ cs ∧
        q.1.handler = cs.foldl Buffering.handler.hear y.handler ∧
        .headersReceived busyReply.head ∈ cs := by
  intro t
  have hr : Runs patientClient Buffering.handler (fun _ _ _ => False)
      (.start Rehearsal.plainGet .start .empty, Rehearsal.scripted [busyReply, busyReply])
      (busyGet.1, busyGet.2) := runs_walk 60 _
  have hanswers : t[5]?.bind Event.answer? = some busyReply.head ∧
      t[16]?.bind Event.answer? = some busyReply.head := by
    decide +kernel
  have hcounts : (callbacks (t.take 5)).count .prepare = 1 ∧
      (callbacks (t.take 16)).count .prepare = 2 := by
    decide +kernel
  refine ⟨hanswers.1, hanswers.2, ?_, ?_⟩
  · obtain ⟨y, v, q, cs, _, hs, _, hy, hn, _, _, _, hmatched⟩ :=
      withheld_or_shown (fresh_start _ _ _) hr (Event.parts_of_answer? hanswers.1) (by decide)
    have hz : y.retries = 0 := Nat.succ.inj (hn.symm.trans hcounts.1)
    rw [hz] at hmatched
    obtain ⟨-, hbody⟩ := hmatched (by decide)
    obtain ⟨decision, hd, hds, -⟩ := hbody rfl
    exact ⟨y, v, q, decision, hs, hy, hd, hds⟩
  · obtain ⟨y, v, q, cs, _, hs, _, hy, hn, hc, hcalled, hshown, _⟩ :=
      withheld_or_shown (fresh_start _ _ _) hr (Event.parts_of_answer? hanswers.2) (by decide)
    have hz : y.retries = 1 := Nat.succ.inj (hn.symm.trans hcounts.2)
    rw [hz] at hshown
    exact ⟨y, v, q, cs, hs, hy, hc, hcalled, (hshown _).mpr ⟨by decide, _, rfl, rfl⟩⟩

end Execution

end Courier
