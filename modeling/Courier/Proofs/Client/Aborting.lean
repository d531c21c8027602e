import Courier.Proofs.Client.Story
import Courier.Proofs.Client.Tenancy
import Courier.Proofs.Pool.Leaving

/-! # Aborts

The first abort that finds an execution unfinished decides its end, wherever it comes. The execution
lets go of what it holds and fails with the reason; its handler hears of that if an attempt was
under way. Whatever happens between the abort and the next step changes nothing about it.
-/

namespace Courier

variable {ω κ ξ η α : Type}

namespace Execution

variable {c : Client ω κ ξ} {h : Handler η α} {x y z : Execution κ η α} {w v : World ω κ ξ}
  {r : Execution κ η α × World ω κ ξ} {reason : String}

/-! ## What an abort comes to -/

/-- What an abort adds to a history. -/
def farewell (x : Execution κ η α) (reason : String) : List Event :=
  (x.phase.lease?.map fun l => .discarded l.id).toList ++ .moved x.state .failed ::
    if x.phase.inAttempt then [.told (.exceptionOccurred (.cancelled reason))] else []

/-- The execution has failed with the reason of the abort, and only an attempt that was under way
has been told. -/
structure Cancelled (h : Handler η α) (reason : String) (x y : Execution κ η α) : Prop where
  outcome : y.outcome? = some (.error (.cancelled reason))
  state : y.state = .failed
  history : y.history = x.history ++ x.farewell reason
  callbacks : callbacks y.history = callbacks x.history ++
    if x.phase.inAttempt then [.exceptionOccurred (.cancelled reason)] else []
  handler : y.handler =
    if x.phase.inAttempt then h.exceptionOccurred (.cancelled reason) x.handler else x.handler

/-- What the execution held has gone back to the pool, and nothing else has changed. -/
structure Vacates (net : Network ω κ) (x : Execution κ η α) (w w' : World ω κ ξ) : Prop where
  lease : ∀ l, x.phase.lease? = some l →
    w.pool.Discarded w'.pool l ∧ w'.outside = (net.abort l.connection w.outside).2
  place : ∀ request a, x.phase = .acquiring request a →
    a.Vacated (w.pool.site request.endpoint) (w'.pool.site request.endpoint) ∧
      (∀ e, e ≠ request.endpoint → w'.pool.site e = w.pool.site e) ∧ w'.outside = w.outside
  nothing : x.phase.lease? = none → (∀ request a, x.phase ≠ .acquiring request a) → w' = w
  rest : w' = w.withPool w'.pool w'.outside

/-- The abort has come but no step since. -/
structure Doomed (reason : String) (x y : Execution κ η α) : Prop where
  aborted : y.signal.aborted = true
  reason : y.signal.reason = some reason
  phase : y.phase = x.phase ∨
    ∃ s who, x.phase = .streaming s ∧ y.phase = .streaming { s with turn := who }
  history : y.history = x.history
  state : y.state = x.state
  handler : y.handler = x.handler

namespace Doomed

theorem abort (hx : x.signal.aborted = false) (reason : String) :
    Doomed reason x (x.abort reason).2 :=
  have hs := AbortSignal.abort_first hx reason
  ⟨hs.2.1, hs.2.2, .inl rfl, rfl, rfl, rfl⟩

theorem lease? (hd : Doomed reason x y) : y.phase.lease? = x.phase.lease? := by
  rcases hd.phase with hp | ⟨s, who, hx, hy⟩
  · rw [hp]
  · rw [hx, hy]
    rfl

theorem inAttempt (hd : Doomed reason x y) : y.phase.inAttempt = x.phase.inAttempt := by
  rcases hd.phase with hp | ⟨s, who, hx, hy⟩
  · rw [hp]
  · rw [hx, hy]
    rfl

theorem isFinished (hd : Doomed reason x y) : y.isFinished = x.isFinished := by
  unfold Execution.isFinished
  rcases hd.phase with hp | ⟨s, who, hx, hy⟩
  · rw [hp]
  · rw [hx, hy]
    rfl

theorem acquiring (hd : Doomed reason x y) (request : Request) (a : Acquisition) :
    y.phase = .acquiring request a ↔ x.phase = .acquiring request a := by
  rcases hd.phase with hp | ⟨s, who, hx, hy⟩
  · rw [hp]
  · rw [hx, hy]
    constructor <;> exact nofun

theorem abortReason (hd : Doomed reason x y) : y.abortReason = reason := by
  rw [Execution.abortReason, hd.reason]
  rfl

theorem withTurn (hd : Doomed reason x y) (who : Party) :
    Doomed reason x (y.withTurn who) := by
  rcases y.withTurn_cases who with he | ⟨s, hp, he⟩
  · rwa [he]
  · rw [he]
    refine ⟨hd.aborted, hd.reason, .inr ?_, hd.history, hd.state, hd.handler⟩
    rcases hd.phase with hx | ⟨s', who', hx, hy⟩
    · exact ⟨s, who, hx.symm.trans hp, rfl⟩
    · obtain rfl := Phase.streaming.inj (hp.symm.trans hy)
      exact ⟨s', who, hx, rfl⟩

theorem again (hd : Doomed reason x y) (reason' : String) : (y.abort reason').2 = y := by
  unfold Execution.abort
  rw [AbortSignal.abort_again hd.aborted]

theorem step (hd : Doomed reason x y) (hx : x.isFinished = false) :
    y.step c h v = some (y.interrupt c h v) := by
  unfold Execution.step
  rw [hd.isFinished, hx, hd.aborted]
  rfl

end Doomed

/-! ## The step after it -/

theorem letGo_fst (net : Network ω κ) (x : Execution κ η α) (w : World ω κ ξ) :
    (x.letGo net w).1 =
      { x with
        history := x.history ++ (x.phase.lease?.map fun l => Event.discarded l.id).toList } := by
  unfold letGo
  split
  · rename_i hp
    have hl : x.phase.lease? = none := by
      rw [hp]
      rfl
    simp [hl]
  · split
    · rename_i hl
      rw [hl]
      rfl
    · rename_i hl
      rw [hl]
      simp

theorem moveTo_failed (hx : x.state.isTerminal = false) :
    x.moveTo .failed = { x.note (.moved x.state .failed) with state := .failed } := by
  have hs : x.state ≠ .failed := by
    intro hs
    rw [hs] at hx
    cases hx
  simp [moveTo, hx, hs]

theorem callbacks_farewell (x : Execution κ η α) (reason : String) :
    callbacks (x.farewell reason) =
      if x.phase.inAttempt then [.exceptionOccurred (.cancelled reason)] else [] := by
  unfold farewell
  cases x.phase.lease? <;> cases x.phase.inAttempt <;> rfl

theorem Doomed.cancelled (hd : Doomed reason x y) (hl : x.state.isTerminal = false) :
    Cancelled h reason x (y.interrupt c h v).1 := by
  have hf : (y.letGo c.network v).1.moveTo .failed =
      { y with
        history := x.history ++ (x.phase.lease?.map fun l => Event.discarded l.id).toList ++
          [.moved x.state .failed]
        state := .failed } := by
    rw [letGo_fst, moveTo_failed (by rwa [hd.state]), hd.lease?, hd.history, hd.state]
    rfl
  have hr : (y.interrupt c h v).1 =
      ((if x.phase.inAttempt then
          ((y.letGo c.network v).1.moveTo .failed).tellException h (.cancelled reason)
        else (y.letGo c.network v).1.moveTo .failed).finish (.error (.cancelled reason))) := by
    unfold interrupt
    rw [hd.inAttempt, hd.abortReason]
  have hh : (y.interrupt c h v).1.history = x.history ++ x.farewell reason := by
    rw [hr, hf]
    unfold farewell
    cases x.phase.inAttempt <;> simp [finish, tellException, note]
  refine ⟨?_, ?_, hh, ?_, ?_⟩
  · rw [hr]
    rfl
  · rw [hr, hf]
    split <;> rfl
  · rw [hh, ← callbacks_farewell]
    exact List.filterMap_append
  · rw [hr, hf, ← hd.handler]
    split <;> rfl

theorem Doomed.vacates (hd : Doomed reason x y) (ht : Tenure y v) :
    Vacates c.network x v (y.interrupt c h v).2 := by
  have hw : (y.interrupt c h v).2 = (y.letGo c.network v).2 := rfl
  rw [hw]
  refine ⟨?_, ?_, ?_, ?_⟩
  · intro l hl
    have hy : y.phase.lease? = some l := hd.lease?.trans hl
    have hv : (y.letGo c.network v).2 = (y.discard c.network l v).2 := by
      unfold letGo
      split
      · rename_i hp
        rw [hp] at hy
        cases hy
      · rw [hy]
    rw [hv]
    exact ⟨Pool.discarded_discard c.network v.outside (ht.seated l hy), rfl⟩
  · intro request a hp
    have hy := (hd.acquiring request a).mpr hp
    have hv : (y.letGo c.network v).2 =
        v.withPool (a.drop request.endpoint v.pool) v.outside := by
      unfold letGo
      rw [hy]
      rfl
    rw [hv]
    exact ⟨a.vacated_drop (ht.entered request a hy), fun e he => a.site_drop_ne v.pool he, rfl⟩
  · intro hl hn
    unfold letGo
    split
    · rename_i request a hp
      exact absurd ((hd.acquiring request a).mp hp) (hn request a)
    · rw [hd.lease?, hl]
  · unfold letGo
    split
    · rfl
    · split <;> rfl

theorem run_of_isFinished (steps : Nat) {p : Poll ω κ ξ η α}
    (hp : p.execution.isFinished = true) : (p.run c h steps).execution = p.execution := by
  have hs : p.execution.streaming? = none := by
    unfold streaming?
    split
    · rename_i hq
      simp [Execution.isFinished, hq, Phase.isFinished] at hp
    · rfl
  cases steps with
  | zero => rfl
  | succ steps =>
    unfold Poll.run
    split
    · rfl
    · simp only [hs, Poll.step, step_of_isFinished hp, Option.map_none]

theorem Doomed.poll (hd : Doomed reason x y) (hx : x.isFinished = false) (steps : Nat)
    (alarm : Option Alarm) (shift : Shift ω κ ξ) (hs : shift.isSpent = false) :
    (y.poll c h (steps + 1) alarm shift).execution.isFinished = true := by
  have hstream : y.streaming? = none := by
    unfold streaming?
    split
    · simp [hd.aborted]
    · rfl
  have halarm : ∀ p : Poll ω κ ξ η α, p.setAlarm.execution = p.execution :=
    fun p => congrArg Prod.fst p.scene_setAlarm
  unfold Execution.poll
  simp only [hs, Bool.false_and, Bool.false_eq_true, if_false, halarm, Poll.run, Poll.start,
    hstream, Poll.step, hd.step hx, Option.map_some]
  rw [run_of_isFinished]
  · exact isFinished_of_phase rfl
  · exact isFinished_of_phase rfl

/-! ## Runs -/

theorem Cancelled.isFinished (hc : Cancelled h reason x y) : y.isFinished = true :=
  isFinished_of_phase (phase_of_outcome? hc.outcome)

theorem Cancelled.rests (hc : Cancelled h reason x y) (hr : Rests y z) :
    Cancelled h reason x z := by
  have he := hr.eq
  have hh : z.history = y.history := by rw [he]
  refine ⟨?_, ?_, hh.trans hc.history, hh ▸ hc.callbacks, ?_⟩
  · rw [he]
    exact hc.outcome
  · rw [he]
    exact hc.state
  · rw [he]
    exact hc.handler

variable {R : Execution κ η α → World ω κ ξ → World ω κ ξ → Prop} {x₀ : Execution κ η α}
  {w₀ : World ω κ ξ}

/-- After an abort an execution waits for its next step, or is cancelled. -/
theorem Runs.doomed (ha : x.signal.aborted = false) (hf : x.isFinished = false)
    (hl : x.state.isTerminal = false) (hr : Runs c h R ((x.abort reason).2, w) r) :
    Doomed reason x r.1 ∨ Cancelled h reason x r.1 := by
  induction hr with
  | refl => exact .inl (.abort ha reason)
  | @step y v r _ hs ih =>
    rcases ih with hd | hc
    · rw [hd.step hf] at hs
      cases hs
      exact .inr (hd.cancelled hl)
    · rw [step_of_isFinished hc.isFinished] at hs
      cases hs
  | @turn y v who _ ih =>
    rcases ih with hd | hc
    · exact .inl (hd.withTurn who)
    · rw [withTurn_of_isFinished hc.isFinished]
      exact .inr hc
  | @abort y v reason' _ _ ih =>
    rcases ih with hd | hc
    · rw [hd.again]
      exact .inl hd
    · exact .inr (hc.rests ((Rests.refl y).abort reason'))
  | others _ _ ih => exact ih

/-- However others move, as long as they spare what is not theirs: the first abort of an execution
that is not finished decides its end, before the first attempt, anywhere in an attempt, and between
attempts. Later aborts do not count. From then on the execution only waits for its next step, which
a poll takes, and is cancelled by it for good. That step asks no policy and sends nothing. A lease
in hand is discarded by it, and an acquisition under way gives back its place. The handler hears of
the abort, once, if an attempt was under way, and nothing otherwise. -/
theorem abort_cancels {c : Client ω κ ξ} {h : Handler η α}
    {R : Execution κ η α → World ω κ ξ → World ω κ ξ → Prop} {x₀ x : Execution κ η α}
    {w₀ w : World ω κ ξ} (hx : x₀.Fresh) (hR : ∀ x w w', R x w w' → Spares x w w')
    (hr : Runs c h R (x₀, w₀) (x, w)) (ha : x.signal.aborted = false)
    (hf : x.isFinished = false) (hq : x.isAtRest = true) (reason : String) :
    (x.abort reason).1 = true ∧
      ∀ y v, Runs c h R ((x.abort reason).2, w) (y, v) →
        Cancelled h reason x y ∨
        y.history = x.history ∧
          (∃ r, (∀ p, y.step { c with policy := p } h v = some r) ∧
            Cancelled h reason x r.1 ∧ Vacates c.network x v r.2) ∧
          ∀ steps alarm shift, shift.world = v → shift.isSpent = false →
            (y.poll c h (steps + 1) alarm shift).execution.isFinished = true := by
  obtain ⟨as, rest, hstory⟩ := hr.story hx hf
  refine ⟨(AbortSignal.abort_first ha reason).1, fun y v hy => ?_⟩
  have ht : Tenure y v := ((hr.abort reason hq).trans hy).moves.tenure hx.toUnbegun hR
  rcases hy.doomed ha hf hstory.live with hd | hc
  · refine .inr ⟨hd.history, ⟨y.interrupt c h v, ?_, hd.cancelled hstory.live, hd.vacates ht⟩, ?_⟩
    · exact fun p => hd.step hf
    · exact fun steps alarm shift _ hs => hd.poll hf steps alarm shift hs
  · exact .inl hc

/-- An abort while the body is coming. -/
theorem abort_cancels_in_body :
    let r := Rehearsal.bufferedGet .empty [.ok [1, 2]] .empty 10
    r.1.phase.isAnswered = true ∧ (r.1.abort "enough").1 = true ∧
      ∃ d, (r.1.abort "enough").2.step (Rehearsal.scriptedClient .empty) Buffering.handler r.2 =
          some d ∧
        Cancelled Buffering.handler "enough" r.1 d.1 ∧ Vacates Rehearsal.network r.1 r.2 d.2 := by
  intro r
  have ha : r.1.phase.isAnswered = true := by decide +kernel
  have hn : (r.1.abort "enough").2.isFinished = false := by decide +kernel
  have hr : Runs (Rehearsal.scriptedClient .empty) Buffering.handler (fun _ _ _ => False)
      (.start Rehearsal.plainGet .start .empty, Rehearsal.scripted [.ok [1, 2]]) (r.1, r.2) :=
    runs_walk 10 _
  obtain ⟨hfirst, hlater⟩ := abort_cancels (fresh_start _ _ _) (fun _ _ _ hn => hn.elim) hr
    (by decide +kernel) hn (by decide +kernel) "enough"
  rcases hlater _ _ .refl with hc | ⟨_, ⟨d, hs, hc, hv⟩, _⟩
  · cases hn.symm.trans hc.isFinished
  · exact ⟨ha, hfirst, d, hs .never, hc, hv⟩

end Execution

end Courier
