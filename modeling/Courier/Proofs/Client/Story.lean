import Courier.Proofs.Client.Attempt
import Courier.Proofs.Signal.Callbacks

/-! # The story of an execution

An execution that is not finished has made some attempts, each of which failed with an error that
the policy admitted, and may have begun another. It finishes by one step: the attempt completes, or
fails for the last time, or an abort has come. Afterwards nothing changes but its signal.
-/

namespace Courier

variable {ω κ ξ η α : Type}

/-! ## Attempts so far -/

namespace RetryPolicy

/-- The error that an execution finishes with, when the policy does not retry after so many retries
and this error. -/
inductive GivesUp (p : RetryPolicy) (body : RequestBody) (cells : Cells) (retries : Nat)
    (e : Error) : Error → Prop

  | exhausted (ha : p.admits retries e = true) (hm : p.maxRetries ≤ retries) :
      GivesUp p body cells retries e (.retryExhausted (retries + 1) e)

  | refused (hn : p.admits retries e = true → body.isReplayable cells = false) :
      GivesUp p body cells retries e e

/-- Every attempt failed with an error that the policy admitted, while it had retries left. -/
def Tried (p : RetryPolicy) (as : List Attempt) : Prop :=
  ∀ i a, as[i]? = some a →
    ∃ e, a.error? = some e ∧ p.admits i e = true ∧ i < p.maxRetries

theorem tried_nil (p : RetryPolicy) : p.Tried [] := by
  intro i a ha
  simp at ha

theorem Tried.concat {p : RetryPolicy} {as : List Attempt} (ht : p.Tried as)
    {response : Option (ResponseHead × Option Nat)} {e : Error}
    (ha : p.admits as.length e = true) (hm : as.length < p.maxRetries) :
    p.Tried (as ++ [.failed response e]) := by
  intro i a hi
  rw [List.getElem?_append] at hi
  split at hi
  · exact ht i a hi
  · rename_i hlt
    obtain ⟨hz, rfl⟩ : i - as.length = 0 ∧ Attempt.failed response e = a := by
      simpa [List.getElem?_singleton] using hi
    have he : i = as.length := by omega
    subst he
    exact ⟨e, rfl, ha, hm⟩

theorem Tried.length_le {p : RetryPolicy} {as : List Attempt} (ht : p.Tried as) :
    as.length ≤ p.maxRetries := by
  rcases Nat.eq_zero_or_pos as.length with hz | hp
  · omega
  · obtain ⟨_, _, _, hm⟩ := ht (as.length - 1) _ (List.getElem?_eq_getElem (by omega))
    omega

theorem Tried.failed {p : RetryPolicy} {as : List Attempt} (ht : p.Tried as) {a : Attempt}
    (ha : a ∈ as) : a.error?.isSome = true := by
  obtain ⟨i, hi⟩ := List.getElem?_of_mem ha
  obtain ⟨e, he, _⟩ := ht i a hi
  simp [he]

end RetryPolicy

/-- What the handler has been told of the attempt under way, if there is one. -/
inductive Opening (p : Phase κ α) : List Callback → Prop

  | none (hp : p.inAttempt = false) : Opening p []

  | begun (hp : p.inAttempt = true) (ha : p.isAnswered = false) :
      Opening p (Attempt.opening none)

  | answered (hp : p.inAttempt = true) (ha : p.isAnswered = true) (head : ResponseHead)
      (declared : Option Nat) : Opening p (Attempt.opening (some (head, declared)))

theorem Opening.congr {p p' : Phase κ α} {rest : List Callback} (ho : Opening p rest)
    (hi : p'.inAttempt = p.inAttempt) (ha : p'.isAnswered = p.isAnswered) : Opening p' rest := by
  cases ho with
  | none hp => exact .none (hi.trans hp)
  | begun hp hn => exact .begun (hi.trans hp) (ha.trans hn)
  | answered hp hn head declared => exact .answered (hi.trans hp) (ha.trans hn) head declared

theorem Opening.response {p : Phase κ α} {rest : List Callback} (ho : Opening p rest)
    (hi : p.inAttempt = true) : ∃ response, rest = Attempt.opening response := by
  cases ho with
  | none hp => cases hp.symm.trans hi
  | begun _ _ => exact ⟨_, rfl⟩
  | answered _ _ head declared => exact ⟨_, rfl⟩

namespace Execution

structure Fresh (x : Execution κ η α) : Prop extends Unbegun x where
  retries : x.retries = 0
  state : x.state = .initial

theorem fresh_start (request : Request) (handler : η) (attributes : Attributes) :
    (start request handler attributes : Execution κ η α).Fresh :=
  ⟨⟨rfl, rfl⟩, rfl, rfl⟩

/-- The attempts made and what the handler has been told of them and of the one under way. -/
structure Story (p : RetryPolicy) (q : Request) (x : Execution κ η α) (as : List Attempt)
    (rest : List Callback) : Prop where
  told : callbacks x.history = as.flatMap Attempt.callbacks ++ rest
  opening : Opening x.phase rest
  tried : p.Tried as
  count : as.length = x.retries + if x.phase.isWaiting then 1 else 0
  request : x.request = q
  live : x.state.isTerminal = false

variable {c : Client ω κ ξ} {h : Handler η α} {x y : Execution κ η α} {w v : World ω κ ξ}
  {r : Execution κ η α × World ω κ ξ} {p : RetryPolicy} {q : Request} {as : List Attempt}
  {rest : List Callback} {e : Error}

theorem Fresh.story (hx : Fresh x) (p : RetryPolicy) : Story p x.request x [] [] where
  told := by rw [hx.history]; rfl
  opening := .none (by rw [hx.phase]; rfl)
  tried := p.tried_nil
  count := by rw [hx.retries, hx.phase]; rfl
  request := rfl
  live := by rw [hx.state]; rfl

theorem Story.congr (hs : Story p q x as rest) (hh : y.history = x.history)
    (hp : y.phase.inAttempt = x.phase.inAttempt) (ha : y.phase.isAnswered = x.phase.isAnswered)
    (hw : y.phase.isWaiting = x.phase.isWaiting) (hr : y.retries = x.retries)
    (hq : y.request = x.request) (ht : y.state = x.state) : Story p q y as rest where
  told := hh ▸ hs.told
  opening := hs.opening.congr hp ha
  tried := hs.tried
  count := by rw [hw, hr]; exact hs.count
  request := hq.trans hs.request
  live := ht ▸ hs.live

/-! ## A failed attempt -/

/-- What comes of an attempt that has failed: another one later, or the end. -/
inductive Aftermath (p : RetryPolicy) (cells : Cells) (x : Execution κ η α) (e : Error)
    (y : Execution κ η α) : Prop

  | retries {due : Nat} (hp : y.phase = .waiting due) (ha : p.admits x.retries e = true)
      (hm : x.retries < p.maxRetries) (hl : y.state.isTerminal = false)

  | ends {e' : Error} (hp : y.phase = .finished (.error e'))
      (hg : p.GivesUp x.request.body cells x.retries e e') (hs : y.state = .failed)

/-- The handler has heard of the failure, and either there is a retry or the end. -/
structure Fails (c : Client ω κ ξ) (h : Handler η α) (e : Error) (x : Execution κ η α)
    (r : Execution κ η α × World ω κ ξ) : Prop where
  callbacks : callbacks r.1.history = callbacks x.history ++ [.exceptionOccurred e]
  request : r.1.request = x.request
  retries : r.1.retries = x.retries
  aftermath : Aftermath c.policy r.2.cells x e r.1

theorem decide_cases (policy : RetryPolicy) (e : Error) (x : Execution κ η α)
    (w : World ω κ ξ) :
    (x.decide policy e w).2.cells = w.cells ∧
    match (x.decide policy e w).1 with
    | .retry _ => policy.admits x.retries e = true ∧ x.retries < policy.maxRetries
    | .giveUp => policy.admits x.retries e = true ∧ policy.maxRetries ≤ x.retries
    | .notRetryable => policy.admits x.retries e = true →
        x.request.body.isReplayable w.cells = false := by
  unfold Execution.decide
  split
  · refine ⟨rfl, ?_⟩
    have hm : policy.isRetryable (x.context e w.now) = policy.admits x.retries e :=
      policy.isRetryable_ofError x.retries e _
    have hr : (x.context e w.now).retries = x.retries := rfl
    simp only [RetryPolicy.decide, hm, hr]
    cases ha : policy.admits x.retries e with
    | false => simp
    | true =>
      by_cases hm : policy.maxRetries ≤ x.retries
      · simp [hm]
      · rw [if_neg hm]
        exact ⟨rfl, Nat.lt_of_not_le hm⟩
  · rename_i hb
    exact ⟨rfl, fun _ => by simpa using hb⟩

theorem fails_fail (e : Error) (hx : x.state.isTerminal = false) (w : World ω κ ξ) :
    Fails c h e x (x.fail c h e w) := by
  have hd := decide_cases c.policy e (x.tellException h e) w
  rw [fail_eq]
  generalize (x.tellException h e).decide c.policy e w = d at hd
  obtain ⟨decision, u⟩ := d
  obtain ⟨hc, hd⟩ := hd
  have hl : (x.decided h e decision u.now).state.isTerminal = false := hx
  have ht : callbacks (x.decided h e decision u.now).history =
      callbacks x.history ++ [.exceptionOccurred e] := by
    simp [decided, tellException, Event.callback?]
  have hk : ∀ next, callbacks ((x.decided h e decision u.now).moveTo next).history =
      callbacks x.history ++ [.exceptionOccurred e] := fun next => (callbacks_moveTo _ _).trans ht
  cases decision with
  | retry delay =>
    refine ⟨hk .retrying, request_moveTo _ _, retries_moveTo _ _, .retries rfl hd.1 hd.2 ?_⟩
    exact congrArg ExecutionState.isTerminal (state_moveTo .retrying hl)
  | giveUp =>
    refine ⟨hk .failed, request_moveTo _ _, retries_moveTo _ _, .ends ?_ (.exhausted hd.1 hd.2)
      (state_moveTo .failed hl)⟩
    simp [concluded, finish, retries_moveTo, decided, tellException, note]
  | notRetryable =>
    refine ⟨hk .failed, request_moveTo _ _, retries_moveTo _ _, .ends rfl (.refused ?_)
      (state_moveTo .failed hl)⟩
    intro ha
    rw [hc]
    exact hd ha

/-! ## Steps -/

/-- The attempts that have been made once an execution has finished, and how it finished. -/
inductive Ending (c : Client ω κ ξ) (h : Handler η α) (x : Execution κ η α) (as : List Attempt)
    (r : Execution κ η α × World ω κ ξ) : List Attempt → Prop

  | completed {s : Streaming κ} {e : BodyEnd} {head : ResponseHead} {declared : Option Nat}
      (hx : x.signal.aborted = false) (hp : x.phase = .streaming s)
      (ho : s.outcome? = some (.ok e)) (hr : r.1.phase = .finished (h.complete x.handler).1)
      (hs : r.1.state = .complete) : Ending c h x as r (as ++ [.completed head declared])

  | failed {response : Option (ResponseHead × Option Nat)} {e e' : Error}
      (hx : x.signal.aborted = false) (hr : r.1.phase = .finished (.error e'))
      (hg : c.policy.GivesUp x.request.body r.2.cells as.length e e')
      (hs : r.1.state = .failed) : Ending c h x as r (as ++ [.failed response e])

  | interrupted {response : Option (ResponseHead × Option Nat)}
      (hx : x.signal.aborted = true) (hi : x.phase.inAttempt = true)
      (hr : r.1.phase = .finished (.error (.cancelled x.abortReason)))
      (hs : r.1.state = .failed) :
      Ending c h x as r (as ++ [.failed response (.cancelled x.abortReason)])

  | stopped (hx : x.signal.aborted = true) (hi : x.phase.inAttempt = false)
      (hr : r.1.phase = .finished (.error (.cancelled x.abortReason)))
      (hs : r.1.state = .failed) : Ending c h x as r as

/-- Where a step leaves the story: it goes on, or it is at its end. -/
inductive Turn (c : Client ω κ ξ) (h : Handler η α) (q : Request) (x : Execution κ η α)
    (as : List Attempt) (r : Execution κ η α × World ω κ ξ) : Prop

  | goes (as' : List Attempt) (rest : List Callback) (hf : r.1.isFinished = false)
      (hs : Story c.policy q r.1 as' rest) : Turn c h q x as r

  | ends {as' : List Attempt} (hf : r.1.isFinished = true) (he : Ending c h x as r as')
      (ht : callbacks r.1.history = as'.flatMap Attempt.callbacks) : Turn c h q x as r

theorem isFinished_of_inAttempt (hp : x.phase.inAttempt = true) : x.isFinished = false := by
  unfold isFinished
  cases hx : x.phase with
  | finished outcome => simp [hx, Phase.inAttempt] at hp
  | _ => rfl

theorem isWaiting_of_inAttempt {p : Phase κ α} (hp : p.inAttempt = true) :
    p.isWaiting = false := by
  cases p with
  | waiting due => cases hp
  | _ => rfl

theorem Story.rest_eq_nil (hs : Story p q x as rest) (hi : x.phase.inAttempt = false) :
    rest = [] := by
  cases hs.opening with
  | none _ => rfl
  | begun hp _ => cases hi.symm.trans hp
  | answered hp _ _ _ => cases hi.symm.trans hp

theorem Story.length_eq (hs : Story p q x as rest) (hw : x.phase.isWaiting = false) :
    as.length = x.retries := by
  simpa [hw] using hs.count

theorem flatMap_concat (as : List Attempt) (a : Attempt) :
    (as ++ [a]).flatMap Attempt.callbacks = as.flatMap Attempt.callbacks ++ a.callbacks := by
  simp

theorem Story.closed (hs : Story p q x as rest) {cs : List Callback} {a : Attempt}
    (hy : callbacks y.history = callbacks x.history ++ cs) (ha : a.callbacks = rest ++ cs) :
    callbacks y.history = (as ++ [a]).flatMap Attempt.callbacks := by
  rw [hy, hs.told, flatMap_concat, ha, List.append_assoc]

theorem Story.fails (hs : Story c.policy q x as rest) (hx : x.signal.aborted = false)
    (hi : x.phase.inAttempt = true) (ht : Tells [] x y) : Turn c h q x as (y.fail c h e v) := by
  have hl : y.state.isTerminal = false := ht.live hs.live
  have hf : Fails c h e y (y.fail c h e v) := fails_fail e hl v
  have hn : as.length = y.retries :=
    (hs.length_eq (isWaiting_of_inAttempt hi)).trans ht.retries.symm
  have hq : y.request = x.request := ht.request
  have hc : callbacks (y.fail c h e v).1.history =
      callbacks x.history ++ [.exceptionOccurred e] := by
    rw [hf.callbacks, ht.callbacks, List.append_nil]
  obtain ⟨response, hr⟩ := hs.opening.response hi
  have hend : callbacks (y.fail c h e v).1.history =
      (as ++ [Attempt.failed response e]).flatMap Attempt.callbacks :=
    hs.closed hc (by rw [hr]; rfl)
  cases hf.aftermath with
  | retries hp ha hm hlive =>
    refine .goes (as ++ [.failed response e]) [] ?_ ?_
    · simp [isFinished, hp, Phase.isFinished]
    · refine ⟨hend.trans (List.append_nil _).symm, .none (by rw [hp]; rfl), ?_, ?_, ?_, hlive⟩
      · exact hs.tried.concat (by rwa [hn]) (by rwa [hn])
      · simp [hf.retries, hp, Phase.isWaiting, hn]
      · exact hf.request.trans (hq.trans hs.request)
  | ends hp hg hstate =>
    refine .ends (isFinished_of_phase hp) (.failed hx hp ?_ hstate) hend
    rwa [hn, ← hq]

theorem Story.succeeds (hs : Story c.policy q x as rest) (hx : x.signal.aborted = false)
    {s : Streaming κ} {b : BodyEnd} (hp : x.phase = .streaming s)
    (ho : s.outcome? = some (.ok b)) (ht : Tells [] x y) (hh : y.handler = x.handler) :
    Turn c h q x as (y.succeed h, v) := by
  have hc : callbacks (y.succeed h).history = callbacks x.history ++ [.complete] := by
    have hm : callbacks (y.moveTo .complete).history = callbacks x.history := by
      simp [ht.callbacks]
    rw [← hm]
    exact callbacks_note (y.moveTo .complete) (.told .complete)
  have ho' := hs.opening
  rw [hp] at ho'
  cases ho' with
  | none hi => cases hi
  | begun _ ha => cases ha
  | answered _ _ head declared =>
    refine .ends (isFinished_of_phase rfl) (.completed hx hp ho ?_ ?_)
      (hs.closed (a := .completed head declared) hc rfl)
    · simp [succeed, tellComplete, finish, hh]
    · exact state_moveTo .complete (ht.live hs.live)

theorem Story.interrupted (hs : Story c.policy q x as rest) (hx : x.signal.aborted = true) :
    Turn c h q x as (x.interrupt c h w) := by
  have hl : Tells [] x (x.letGo c.network w).1 := tells_letGo c.network x w
  have hm : callbacks ((x.letGo c.network w).1.moveTo .failed).history = callbacks x.history := by
    simp [hl.callbacks]
  have hstate : ((x.letGo c.network w).1.moveTo .failed).state = .failed :=
    state_moveTo .failed (hl.live hs.live)
  cases hi : x.phase.inAttempt with
  | false =>
    have hr : rest = [] := hs.rest_eq_nil hi
    refine .ends (isFinished_of_phase rfl) (.stopped hx hi rfl ?_) ?_
    · simpa [interrupt, hi, finish] using hstate
    · simpa [interrupt, hi, finish, hm, hr] using hs.told
  | true =>
    obtain ⟨response, hr⟩ := hs.opening.response hi
    refine .ends (isFinished_of_phase rfl)
      (.interrupted hx hi rfl ?_)
      (hs.closed (a := .failed response (.cancelled x.abortReason)) ?_ (by rw [hr]; rfl))
    · simpa [interrupt, hi, finish, tellException, note] using hstate
    · simp [interrupt, hi, finish, tellException, hm, Event.callback?]

theorem Story.passage (hs : Story c.policy q x as rest) (hx : x.signal.aborted = false)
    (hp : Passage c h x w r) : Turn c h q x as r := by
  cases hp with
  | begins hp =>
    have hr : rest = [] := hs.rest_eq_nil (by rw [hp]; rfl)
    subst hr
    refine .goes as (Attempt.opening none) rfl ⟨?_, .begun rfl rfl, hs.tried, ?_,
      hs.request, hs.live⟩
    · have ht := hs.told
      rw [List.append_nil] at ht
      rw [← ht]
      exact callbacks_note x (.told .prepare)
    · exact hs.length_eq (by rw [hp]; rfl)
  | goes hi hy ha ht _ =>
    refine .goes as rest (isFinished_of_inAttempt hy)
      ⟨?_, hs.opening.congr (hy.trans hi.symm) ha, hs.tried, ?_, ht.request.trans hs.request,
        ht.live hs.live⟩
    · rw [ht.callbacks, hs.told, List.append_nil]
    · rw [ht.retries, hs.length_eq (isWaiting_of_inAttempt hi), isWaiting_of_inAttempt hy]
      rfl
  | @answered y v head declared hi ha hy ht _ =>
    have hin : y.phase.inAttempt = true := by
      cases hp : y.phase with
      | streaming s => rfl
      | _ => simp [hp, Phase.isAnswered] at hy
    have hr : rest = Attempt.opening none := by
      cases hs.opening with
      | none hn => cases hn.symm.trans hi
      | begun _ _ => rfl
      | answered _ hn _ _ => cases hn.symm.trans ha
    refine .goes as (Attempt.opening (some (head, declared)))
      (isFinished_of_inAttempt hin)
      ⟨?_, .answered hin hy head declared, hs.tried, ?_, ht.request.trans hs.request,
        ht.live hs.live⟩
    · rw [ht.callbacks, hs.told, hr, List.append_assoc]
      rfl
    · rw [ht.retries, hs.length_eq (isWaiting_of_inAttempt hi), isWaiting_of_inAttempt hin]
      rfl
  | fails hi ht _ => exact hs.fails hx hi ht
  | succeeds hp ho ht hh _ => exact hs.succeeds hx hp ho ht hh
  | resumes hp =>
    refine .goes as rest rfl ⟨hs.told, ?_, hs.tried, ?_, hs.request, hs.live⟩
    · exact hs.opening.congr (by rw [hp]; rfl) (by rw [hp]; rfl)
    · have hc := hs.count
      rw [hp] at hc
      exact hc

/-- A step goes on with the story or brings it to its end. -/
theorem Story.step (hs : Story c.policy q x as rest) (hr : x.step c h w = some r) :
    Turn c h q x as r := by
  obtain ⟨_, ⟨hx, rfl⟩ | ⟨hx, ha⟩⟩ := step_cases hr
  · exact hs.interrupted hx
  · exact hs.passage hx ha.passage

theorem signal_step (hs : x.step c h w = some r) : r.1.signal = x.signal := by
  obtain ⟨_, ⟨_, rfl⟩ | ⟨_, ha⟩⟩ := step_cases hs
  · have hl := (tells_letGo c.network x w).signal
    unfold interrupt
    dsimp only
    split
    · simpa [finish, tellException, note] using hl
    · simpa [finish] using hl
  · cases ha.passage with
    | begins _ => rfl
    | goes _ _ _ ht _ => exact ht.signal
    | answered _ _ _ ht _ => exact ht.signal
    | @fails y v e _ ht _ => exact (ends_fail e y v).signal.trans ht.signal
    | @succeeds y v _ _ _ _ ht _ _ => exact (ends_succeed y v).signal.trans ht.signal
    | resumes _ => rfl

/-! ## Runs -/

variable {R : Execution κ η α → World ω κ ξ → World ω κ ξ → Prop} {x₀ : Execution κ η α}
  {w₀ : World ω κ ξ}

theorem step_of_isFinished (hx : x.isFinished = true) : x.step c h w = none := by
  simp [Execution.step, hx]

theorem withTurn_of_isFinished (hx : x.isFinished = true) (who : Party) :
    x.withTurn who = x := by
  rcases x.withTurn_cases who with he | ⟨s, hp, _⟩
  · exact he
  · simp [isFinished, hp, Phase.isFinished] at hx

/-- The same but for a signal that has been raised meanwhile. -/
structure Rests (x y : Execution κ η α) : Prop where
  eq : y = { x with signal := y.signal }
  signal : y.signal.aborted = false → y.signal = x.signal

theorem Rests.refl (x : Execution κ η α) : Rests x x :=
  ⟨rfl, fun _ => rfl⟩

theorem Rests.isFinished (hr : Rests x y) : y.isFinished = x.isFinished := by
  rw [hr.eq]
  rfl

theorem Rests.eq_of_unaborted (hr : Rests x y) (hy : y.signal.aborted = false) : y = x := by
  rw [hr.eq, hr.signal hy]

theorem Rests.abort (hr : Rests x y) (reason : String) : Rests x (y.abort reason).2 where
  eq := by
    have he := hr.eq
    unfold Execution.abort
    rw [he]
  signal hn := by
    have ha := y.signal.aborted_abort reason
    cases ha.symm.trans hn

theorem Runs.rests {q : Execution κ η α × World ω κ ξ} (hq : q.1.isFinished = true)
    (hr : Runs c h R q r) : Rests q.1 r.1 := by
  induction hr with
  | refl => exact .refl _
  | step _ hs ih =>
    rw [step_of_isFinished (ih.isFinished.trans hq)] at hs
    cases hs
  | turn who _ ih =>
    rw [withTurn_of_isFinished (ih.isFinished.trans hq)]
    exact ih
  | abort reason _ _ ih => exact ih.abort reason
  | others _ _ ih => exact ih

theorem Runs.finishing (h₀ : x₀.isFinished = false) (hr : Runs c h R (x₀, w₀) r)
    (hf : r.1.isFinished = true) :
    ∃ y v d, Runs c h R (x₀, w₀) (y, v) ∧ y.isFinished = false ∧ y.step c h v = some d ∧
      d.1.isFinished = true ∧ Runs c h R d r := by
  induction hr with
  | refl => cases h₀.symm.trans hf
  | @step x w r hr hs ih => exact ⟨x, w, r, hr, (step_cases hs).1, hs, hf, .refl⟩
  | @turn x w who hr ih =>
    rcases x.withTurn_cases who with he | ⟨s, _, he⟩
    · rw [he] at hf ⊢
      exact ih hf
    · rw [he] at hf
      cases hf
  | @abort x w reason hr hq ih =>
    obtain ⟨y, v, d, hy, hn, hs, hd, he⟩ := ih hf
    exact ⟨y, v, d, hy, hn, hs, hd, he.abort reason hq⟩
  | @others x w w' _ hw ih =>
    obtain ⟨y, v, d, hy, hn, hs, hd, he⟩ := ih hf
    exact ⟨y, v, d, hy, hn, hs, hd, he.others hw⟩

theorem Runs.last_step (h₀ : x₀.isFinished = false) (hr : Runs c h R (x₀, w₀) r)
    (hf : r.1.isFinished = true) :
    ∃ y v d, Runs c h R (x₀, w₀) (y, v) ∧ y.isFinished = false ∧ y.step c h v = some d ∧
      d.1.isFinished = true ∧ Rests d.1 r.1 := by
  obtain ⟨y, v, d, hy, hn, hs, hd, he⟩ := hr.finishing h₀ hf
  exact ⟨y, v, d, hy, hn, hs, hd, he.rests hd⟩

theorem Runs.story (hx : Fresh x₀) (hr : Runs c h R (x₀, w₀) r) (hf : r.1.isFinished = false) :
    ∃ as rest, Story c.policy x₀.request r.1 as rest := by
  induction hr with
  | refl => exact ⟨[], [], hx.story c.policy⟩
  | @step x w r _ hs ih =>
    obtain ⟨as, rest, hstory⟩ := ih (step_cases hs).1
    cases hstory.step hs with
    | goes as rest _ hs' => exact ⟨as, rest, hs'⟩
    | ends hf' _ _ => cases hf.symm.trans hf'
  | @turn x w who _ ih =>
    rcases x.withTurn_cases who with he | ⟨s, hp, he⟩
    · rw [he] at hf ⊢
      exact ih hf
    · obtain ⟨as, rest, hs⟩ := ih (by simp [isFinished, hp, Phase.isFinished])
      refine ⟨as, rest, hs.congr ?_ ?_ ?_ ?_ ?_ ?_ ?_⟩
      all_goals rw [he]
      all_goals rw [hp]
      all_goals rfl
  | abort reason _ _ ih =>
    obtain ⟨as, rest, hs⟩ := ih hf
    exact ⟨as, rest, hs.congr rfl rfl rfl rfl rfl rfl rfl⟩
  | others _ _ ih => exact ih hf

/-- A run to a finished execution, with the whole story up to its last step. -/
theorem Runs.ending (hx : Fresh x₀) (hr : Runs c h R (x₀, w₀) r) (hf : r.1.isFinished = true) :
    ∃ y v d as as', Runs c h R (x₀, w₀) (y, v) ∧ y.step c h v = some d ∧ Rests d.1 r.1 ∧
      c.policy.Tried as ∧ y.request = x₀.request ∧ Ending c h y as d as' ∧
      callbacks r.1.history = as'.flatMap Attempt.callbacks := by
  have h₀ : x₀.isFinished = false := by simp [isFinished, hx.phase, Phase.isFinished]
  obtain ⟨y, v, d, hy, hn, hs, hd, hrest⟩ := hr.last_step h₀ hf
  obtain ⟨as, rest, hstory⟩ := hy.story hx hn
  have hh : r.1.history = d.1.history := by rw [hrest.eq]
  cases hstory.step hs with
  | goes _ _ hf' _ => cases hd.symm.trans hf'
  | @ends as' _ he ht =>
    exact ⟨y, v, d, as, as', hy, hs, hrest, hstory.tried, hstory.request, he, hh ▸ ht⟩

end Execution

/-! ## Runs from a script -/

namespace Rehearsal

/-- A client of the scripted network that retries at once, whatever went wrong. -/
def retryingClient (maxRetries : Nat) : Client Stage Line Unit :=
  { scriptedClient .empty with policy := ⟨.always, .none, maxRetries⟩ }

def retriedGet (maxRetries : Nat) (replies : List Reply) (steps : Nat) :
    Execution Line Buffering BufferedResponse × World Stage Line Unit :=
  Execution.walk (retryingClient maxRetries) Buffering.handler steps
    (.start plainGet .start .empty, scripted replies)

end Rehearsal

end Courier
