import Courier.Proofs.Client.Protocol

/-! # How many attempts there are

An execution goes on to another attempt as long as the policy admits the error and has retries left.
It finishes with what the handler made of the response, with the last error, or with the last error
and how many attempts there were.
-/

namespace Courier

variable {ω κ ξ η α : Type}

theorem Attempt.count_prepare_opening (response : Option (ResponseHead × Option Nat)) :
    (Attempt.opening response).count .prepare = 1 := by
  rcases response with _ | ⟨head, declared⟩ <;> simp [opening]

theorem Attempt.count_prepare (a : Attempt) : a.callbacks.count .prepare = 1 := by
  cases a <;> simp [callbacks, count_prepare_opening]

theorem count_prepare_flatMap (as : List Attempt) :
    (as.flatMap Attempt.callbacks).count .prepare = as.length := by
  induction as with
  | nil => rfl
  | cons a as ih =>
    rw [List.flatMap_cons, List.count_append, a.count_prepare, ih, List.length_cons]
    omega

theorem Opening.count_prepare_le {p : Phase κ α} {rest : List Callback} (ho : Opening p rest) :
    rest.count .prepare ≤ 1 := by
  cases ho with
  | none _ => simp
  | begun _ _ => exact Nat.le_of_eq (Attempt.count_prepare_opening _)
  | answered _ _ _ _ => exact Nat.le_of_eq (Attempt.count_prepare_opening _)

namespace RetryPolicy

variable {p : RetryPolicy} {body : RequestBody} {cells : Cells} {retries : Nat} {e e' : Error}

/-- What the outcome is when the last attempt fails with this error after so many retries. -/
def Concludes (p : RetryPolicy) (retries : Nat) (e : Error) (outcome : Except Error α) : Prop :=
  if p.admits retries e then
    retries = p.maxRetries ∧ outcome = .error (.retryExhausted (retries + 1) e)
  else outcome = .error e

theorem GivesUp.concludes (hg : p.GivesUp body cells retries e e')
    (hb : body.isReplayable cells = true) (hr : retries ≤ p.maxRetries) :
    p.Concludes retries e (.error e' : Except Error α) := by
  unfold Concludes
  cases hg with
  | exhausted ha hm =>
    rw [if_pos ha]
    exact ⟨Nat.le_antisymm hr hm, rfl⟩
  | refused hn =>
    have ha : p.admits retries e ≠ true := by
      intro ha
      cases hb.symm.trans (hn ha)
    rw [if_neg ha]

end RetryPolicy

namespace Execution

variable {c : Client ω κ ξ} {h : Handler η α} {x : Execution κ η α} {w : World ω κ ξ}
  {r : Execution κ η α × World ω κ ξ} {q : Request} {as : List Attempt} {rest : List Callback}

theorem Ending.length_le {as' : List Attempt} (he : Ending c h x as r as') :
    as'.length ≤ as.length + 1 := by
  cases he <;> simp

variable {R : Execution κ η α → World ω κ ξ → World ω κ ξ → Prop} {x₀ : Execution κ η α}
  {w₀ : World ω κ ξ}

theorem Runs.count_prepare_le (hx : x₀.Fresh) (hr : Runs c h R (x₀, w₀) r) :
    (callbacks r.1.history).count .prepare ≤ c.policy.maxRetries + 1 := by
  cases hf : r.1.isFinished with
  | false =>
    obtain ⟨as, rest, hs⟩ := hr.story hx hf
    have hl := hs.tried.length_le
    have ho := hs.opening.count_prepare_le
    rw [hs.told, List.count_append, count_prepare_flatMap]
    omega
  | true =>
    obtain ⟨_, _, _, as, as', _, _, _, ht, _, he, hc⟩ := hr.ending hx hf
    have hl := ht.length_le
    have hl' := he.length_le
    rw [hc, count_prepare_flatMap]
    omega

/-- What follows when an attempt fails: a wait for the next one, or the end. -/
def Follows (p : RetryPolicy) (x : Execution κ η α) (e : Error) (y : Execution κ η α) : Prop :=
  (∃ due, y.phase = .waiting due ∧ p.admits x.retries e = true ∧ x.retries < p.maxRetries) ∨
    ∃ outcome, y.outcome? = some outcome ∧ p.Concludes x.retries e outcome

theorem Story.follows (hs : Story c.policy q x as rest) (hx : x.signal.aborted = false)
    (hr : x.step c h w = some r) (hb : q.body.isReplayable r.2.cells = true) {e : Error}
    (he : x.fault? c w = some e) :
    callbacks r.1.history = callbacks x.history ++ [.exceptionOccurred e] ∧
      Follows c.policy x e r.1 := by
  obtain ⟨_, ⟨hn, _⟩ | ⟨_, ha⟩⟩ := step_cases hr
  · cases hx.symm.trans hn
  · cases ha.passage with
    | begins hp =>
      have hf : x.fault? c w = none := fault?_eq_none (by rw [hp]; rfl)
      cases hf.symm.trans he
    | goes _ _ _ _ hf => cases hf.symm.trans he
    | answered _ _ _ _ hf => cases hf.symm.trans he
    | succeeds _ _ _ _ hf => cases hf.symm.trans he
    | resumes hp =>
      have hf : x.fault? c w = none := fault?_eq_none (by rw [hp]; rfl)
      cases hf.symm.trans he
    | @fails y v e' hi ht hf =>
      cases hf.symm.trans he
      have hfail := fails_fail (c := c) (h := h) e (ht.live hs.live) v
      refine ⟨?_, ?_⟩
      · rw [hfail.callbacks, ht.callbacks, List.append_nil]
      · cases hfail.aftermath with
        | retries hp ha hm _ =>
          rw [ht.retries] at ha hm
          exact .inl ⟨_, hp, ha, hm⟩
        | ends hp hg _ =>
          have hn := hs.length_eq (isWaiting_of_inAttempt hi)
          have hl := hs.tried.length_le
          rw [ht.retries, ht.request, hs.request] at hg
          exact .inr ⟨_, outcome?_of_phase hp, hg.concludes hb (by omega)⟩

/-- However the policy is made and whatever the server does, an execution that nobody aborts and
whose body can be replayed makes at most one attempt more than the policy has retries. An attempt
fails with an error if and only if the handler is told of it, and then another follows if the policy
admits the error and has retries left. When the execution is finished, every attempt but the last
has failed with an error that the policy admitted after so many retries. If the last has completed,
the outcome is what the handler made of it. If it has failed, the outcome is its error, with the
number of attempts if the policy admitted it and had no retries left. -/
theorem attempts_and_outcome {c : Client ω κ ξ} {h : Handler η α}
    {R : Execution κ η α → World ω κ ξ → World ω κ ξ → Prop} {x₀ x : Execution κ η α}
    {w₀ w : World ω κ ξ} (hx : x₀.Fresh)
    (hb : ∀ y v, Runs c h R (x₀, w₀) (y, v) → x₀.request.body.isReplayable v.cells = true)
    (hr : Runs c h R (x₀, w₀) (x, w)) (ha : x.signal.aborted = false) :
    (callbacks x.history).count .prepare ≤ c.policy.maxRetries + 1 ∧
    (∀ r, x.step c h w = some r → ∃ cs, callbacks r.1.history = callbacks x.history ++ cs ∧
      ∀ e, (.exceptionOccurred e ∈ cs ↔ x.fault? c w = some e) ∧
        (x.fault? c w = some e → Follows c.policy x e r.1)) ∧
    ∀ outcome, x.outcome? = some outcome → ∃ (as : List Attempt) (last : Attempt),
      callbacks x.history = (as ++ [last]).flatMap Attempt.callbacks ∧
      as.length ≤ c.policy.maxRetries ∧
      (∀ i a, as[i]? = some a → ∃ e, a.error? = some e ∧ c.policy.admits i e = true) ∧
      match last.error? with
      | some e => c.policy.Concludes as.length e outcome
      | none => ∃ y v s b u, Runs c h R (x₀, w₀) (y, v) ∧ y.phase = .streaming s ∧
          s.outcome? = some (.ok b) ∧ y.step c h v = some (x, u) ∧
          outcome = (h.complete y.handler).1 := by
  refine ⟨hr.count_prepare_le hx, ?_, ?_⟩
  · intro r hs
    have hf : x.failure? c w = x.fault? c w := by simp [failure?, ha]
    obtain ⟨as, rest, hstory⟩ := hr.story hx (step_cases hs).1
    obtain ⟨cs, hc, he⟩ := tells_step hstory.live hs
    rw [hf] at he
    refine ⟨cs, hc, fun e => ⟨he e, fun hfault => ?_⟩⟩
    exact (hstory.follows ha hs (hb _ _ (.step hr hs)) hfault).2
  · intro outcome ho
    have hp := phase_of_outcome? ho
    obtain ⟨y, v, d, as, as', hy, hs, hrest, ht, hq, he, hc⟩ :=
      hr.ending hx (isFinished_of_phase hp)
    obtain rfl : x = d.1 := hrest.eq_of_unaborted ha
    have hsignal : y.signal.aborted = false := by
      rwa [signal_step hs] at ha
    have htried : ∀ i a, as[i]? = some a → ∃ e, a.error? = some e ∧ c.policy.admits i e = true := by
      intro i a hi
      obtain ⟨e, he, hadm, _⟩ := ht i a hi
      exact ⟨e, he, hadm⟩
    cases he with
    | @completed s b head declared _ hstream hend hphase _ =>
      refine ⟨as, .completed head declared, hc, ht.length_le, htried, ?_⟩
      refine ⟨y, v, s, b, d.2, hy, hstream, hend, hs, ?_⟩
      exact Phase.finished.inj (hp.symm.trans hphase)
    | @failed response e e' _ hphase hg _ =>
      refine ⟨as, .failed response e, hc, ht.length_le, htried, ?_⟩
      obtain rfl : outcome = .error e' := Phase.finished.inj (hp.symm.trans hphase)
      rw [hq] at hg
      exact hg.concludes (hb _ _ (.step hy hs)) ht.length_le
    | interrupted hn _ _ _ => cases hsignal.symm.trans hn
    | stopped hn _ _ _ => cases hsignal.symm.trans hn

/-- Two replies that are retried, and no retry left for a third. -/
theorem attempts_and_outcome_exhausted_get :
    let r := Rehearsal.retriedGet 2
      [.ofStatus 503 "Busy", .ofStatus 500 "Broken", .ofStatus 502 "Gone"] 60
    r.1.outcome?.bind errorOf = some (.retryExhausted 3 (.status 502 "Gone")) ∧
      (callbacks r.1.history).count .prepare ≤ 3 ∧ ∃ (as : List Attempt) (last : Attempt),
        callbacks r.1.history = (as ++ [last]).flatMap Attempt.callbacks ∧ as.length ≤ 2 := by
  intro r
  have hr : Runs (Rehearsal.retryingClient 2) Buffering.handler (fun _ _ _ => False)
      (.start Rehearsal.plainGet .start .empty,
        Rehearsal.scripted
          [.ofStatus 503 "Busy", .ofStatus 500 "Broken", .ofStatus 502 "Gone"]) (r.1, r.2) :=
    runs_walk 60 _
  have he : r.1.outcome?.bind errorOf = some (.retryExhausted 3 (.status 502 "Gone")) := by
    decide +kernel
  have ha : r.1.signal.aborted = false := by decide +kernel
  obtain ⟨outcome, ho, _⟩ := Option.bind_eq_some_iff.mp he
  obtain ⟨hn, _, hout⟩ := attempts_and_outcome (fresh_start _ _ _) (fun _ _ _ => rfl) hr ha
  obtain ⟨as, last, hc, hl, _⟩ := hout outcome ho
  exact ⟨he, hn, as, last, hc, hl⟩

end Execution

end Courier
