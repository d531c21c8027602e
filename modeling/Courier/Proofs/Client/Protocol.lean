import Courier.Proofs.Client.Hearing

/-! # What a handler is told

The handler is told of one attempt after another. Each begins, shows its response at most once, and
ends once: with its completion, after which nothing is told, or with the error that ended it. What
the handler is told is what is called on it.
-/

namespace Courier

variable {ω κ ξ η α : Type}

namespace Execution

variable {c : Client ω κ ξ} {h : Handler η α} {x : Execution κ η α} {w : World ω κ ξ}
  {r : Execution κ η α × World ω κ ξ} {q : Request} {as : List Attempt} {rest : List Callback}

/-- A step tells this much, and of an error if and only if that ends the attempt. -/
def TellsOf (failure : Option Error) (x y : Execution κ η α) (cs : List Callback) : Prop :=
  callbacks y.history = callbacks x.history ++ cs ∧
    ∀ e, .exceptionOccurred e ∈ cs ↔ failure = some e

theorem fault?_eq_none (hi : x.phase.inAttempt = false) : x.fault? c w = none := by
  unfold fault?
  split
  all_goals first | rfl | simp_all [Phase.inAttempt]

theorem tells_interrupt (c : Client ω κ ξ) (h : Handler η α) (hx : x.signal.aborted = true)
    (w : World ω κ ξ) : ∃ cs, TellsOf (x.failure? c w) x (x.interrupt c h w).1 cs := by
  have hm : callbacks ((x.letGo c.network w).1.moveTo .failed).history = callbacks x.history := by
    rw [callbacks_moveTo, callbacks_letGo]
  cases hi : x.phase.inAttempt with
  | false =>
    refine ⟨[], ?_, fun e => ?_⟩
    · simp [interrupt, hi, finish, hm]
    · simp [failure?, hx, hi]
  | true =>
    refine ⟨[.exceptionOccurred (.cancelled x.abortReason)], ?_, fun e => ?_⟩
    · simp [interrupt, hi, finish, tellException, hm, Event.callback?]
    · simp [failure?, hx, hi, eq_comm]

theorem tells_passage (hl : x.state.isTerminal = false) (hp : Passage c h x w r) :
    ∃ cs, TellsOf (x.fault? c w) x r.1 cs := by
  cases hp with
  | begins hp =>
    have hf : x.fault? c w = none := fault?_eq_none (by rw [hp]; rfl)
    exact ⟨[.prepare], callbacks_note x (.told .prepare), fun e => by simp [hf]⟩
  | goes _ _ _ ht hf => exact ⟨[], ht.callbacks, fun e => by simp [hf]⟩
  | answered _ _ _ ht hf => exact ⟨_, ht.callbacks, fun e => by simp [hf]⟩
  | @fails y v e _ ht hf =>
    have hc := (fails_fail (c := c) (h := h) e (ht.live hl) v).callbacks
    rw [ht.callbacks, List.append_nil] at hc
    exact ⟨[.exceptionOccurred e], hc, fun e' => by simp [hf, eq_comm]⟩
  | @succeeds y v _ _ _ _ ht _ hf =>
    have hm : callbacks (y.moveTo .complete).history = callbacks x.history := by
      simp [ht.callbacks]
    refine ⟨[.complete], ?_, fun e => by simp [hf]⟩
    rw [← hm]
    exact callbacks_note (y.moveTo .complete) (.told .complete)
  | resumes hp =>
    have hf : x.fault? c w = none := fault?_eq_none (by rw [hp]; rfl)
    exact ⟨[], (List.append_nil _).symm, fun e => by simp [hf]⟩

theorem tells_step (hl : x.state.isTerminal = false) (hs : x.step c h w = some r) :
    ∃ cs, TellsOf (x.failure? c w) x r.1 cs := by
  obtain ⟨_, ⟨hx, rfl⟩ | ⟨hx, ha⟩⟩ := step_cases hs
  · exact tells_interrupt c h hx w
  · have hf : x.failure? c w = x.fault? c w := by simp [failure?, hx]
    rw [hf]
    exact tells_passage hl ha.passage

theorem callbacks_kill (net : Network ω κ) (x : Execution κ η α) (w : World ω κ ξ) :
    callbacks (x.kill net w).1.history = callbacks x.history := by
  unfold kill
  split
  · rfl
  · exact callbacks_letGo net x w

theorem isFinished_kill (net : Network ω κ) (x : Execution κ η α) (w : World ω κ ξ) :
    (x.kill net w).1.isFinished = true := by
  unfold kill
  split
  · assumption
  · rfl

theorem Ending.attempts {as' : List Attempt} (he : Ending c h x as r as')
    (ht : c.policy.Tried as) : ∀ a ∈ as'.dropLast, a.error?.isSome = true := by
  have hc : ∀ b, ∀ a ∈ (as ++ [b]).dropLast, a.error?.isSome = true := by
    intro b a ha
    rw [List.dropLast_concat] at ha
    exact ht.failed ha
  cases he with
  | completed _ _ _ _ _ => exact hc _
  | failed _ _ _ _ => exact hc _
  | interrupted _ _ _ _ => exact hc _
  | stopped _ _ _ _ => exact fun a ha => ht.failed (List.dropLast_subset _ ha)

theorem TellsOf.called {failure : Option Error} {cs : List Callback}
    (ht : TellsOf failure x r.1 cs) (hs : x.step c h w = some r) :
    Told h cs x r.1 ∨ cs = [] ∧ ReadsOn h x r.1 := by
  obtain ⟨cs', hc⟩ | hread := told_step hs
  · obtain rfl : cs' = cs := List.append_cancel_left (hc.callbacks.symm.trans ht.1)
    exact .inl hc
  · have hn := hread.callbacks.symm.trans ht.1
    exact .inr ⟨List.append_right_eq_self.mp hn.symm, hread⟩

/-- However an execution goes, its handler is told of one attempt after another. Each attempt is
prepared, may show a response, and then completes or fails; all but the last have failed, and so
has the last if another may follow. A step tells of an error if and only if the attempt ends with
it. Once the execution is finished nothing more is told, nor if its event loop is shut down. All
this is called on the handler itself: its state comes of these callbacks, one after another, and of
what it has read of the bodies that were handed to it. -/
theorem callback_protocol {c : Client ω κ ξ} {h : Handler η α}
    {R : Execution κ η α → World ω κ ξ → World ω κ ξ → Prop} {x₀ x : Execution κ η α}
    {w₀ w : World ω κ ξ} (hx : x₀.Fresh) (hr : Runs c h R (x₀, w₀) (x, w)) :
    (∃ (as : List Attempt) (rest : List Callback),
      callbacks x.history = as.flatMap Attempt.callbacks ++ rest ∧
      (∀ a ∈ as.dropLast, a.error?.isSome = true) ∧
      (x.isFinished = true → rest = []) ∧
      (x.isFinished = false → Opening x.phase rest ∧ ∀ a ∈ as, a.error?.isSome = true)) ∧
    (∀ r, x.step c h w = some r → ∃ cs, callbacks r.1.history = callbacks x.history ++ cs ∧
      (∀ e, .exceptionOccurred e ∈ cs ↔ x.failure? c w = some e) ∧
      (r.1.handler = cs.foldl h.hear x.handler ∨
        cs = [] ∧ ∃ s report, x.phase = .streaming s ∧
          r.1.handler = h.observe report x.handler)) ∧
    (x.isFinished = true → ∀ r, Runs c h R (x, w) r →
      callbacks r.1.history = callbacks x.history ∧ r.1.handler = x.handler) ∧
    (∀ r, Runs c h R (x.kill c.network w) r →
      callbacks r.1.history = callbacks x.history ∧ r.1.handler = x.handler) ∧
    h.Heard x₀.handler (callbacks x.history) x.handler := by
  refine ⟨?_, ?_, ?_, ?_, hr.heard hx⟩
  · cases hf : x.isFinished with
    | false =>
      obtain ⟨as, rest, hs⟩ := hr.story hx hf
      refine ⟨as, rest, hs.told, ?_, nofun, fun _ => ⟨hs.opening, ?_⟩⟩
      · exact fun a ha => hs.tried.failed (List.dropLast_subset _ ha)
      · exact fun a ha => hs.tried.failed ha
    | true =>
      obtain ⟨_, _, _, _, as, _, _, _, ht, _, he, hc⟩ := hr.ending hx hf
      exact ⟨as, [], hc.trans (List.append_nil _).symm, he.attempts ht, fun _ => rfl, nofun⟩
  · intro r hs
    obtain ⟨as, rest, hstory⟩ := hr.story hx (step_cases hs).1
    obtain ⟨cs, ht⟩ := tells_step hstory.live hs
    refine ⟨cs, ht.1, ht.2, ?_⟩
    obtain hc | ⟨hn, hread⟩ := ht.called hs
    · exact .inl hc.handler
    · obtain ⟨s, hp⟩ := hread.phase
      obtain ⟨report, hh⟩ := hread.handler
      exact .inr ⟨hn, s, report, hp, hh⟩
  · intro hf r hr'
    rw [(hr'.rests hf).eq]
    exact ⟨rfl, rfl⟩
  · intro r hr'
    rw [(hr'.rests (isFinished_kill ..)).eq]
    exact ⟨callbacks_kill c.network x w, (told_kill (h := h) c.network x w).handler⟩

/-- A reply that is kept from the handler, and one that is not. -/
theorem callback_protocol_retried_get :
    let r := Rehearsal.retriedGet 1 [.ofStatus 503 "Busy", .ok [1, 2]] 40
    r.1.isFinished = true ∧ (∃ as : List Attempt,
      callbacks r.1.history = as.flatMap Attempt.callbacks ∧
      ∀ a ∈ as.dropLast, a.error?.isSome = true) ∧
    Buffering.handler.Heard .start (callbacks r.1.history) r.1.handler := by
  intro r
  have hf : r.1.isFinished = true := by decide +kernel
  have hr : Runs (Rehearsal.retryingClient 1) Buffering.handler (fun _ _ _ => False)
      (.start Rehearsal.plainGet .start .empty,
        Rehearsal.scripted [.ofStatus 503 "Busy", .ok [1, 2]]) (r.1, r.2) :=
    runs_walk 40 _
  obtain ⟨⟨as, rest, ht, hd, hn, _⟩, _, _, _, hh⟩ := callback_protocol (fresh_start _ _ _) hr
  rw [hn hf, List.append_nil] at ht
  exact ⟨hf, ⟨as, ht, hd⟩, hh⟩

end Execution

end Courier
