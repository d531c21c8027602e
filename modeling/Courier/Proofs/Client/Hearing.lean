import Courier.Proofs.Client.Story

/-! # What a handler hears

The history keeps what the handler is told, and the handler keeps what it makes of that. The two
agree: the state of a handler comes of the callbacks in the history, in their order, and of what it
has read of a body since it was handed over.
-/

namespace Courier

variable {ω κ ξ η α : Type}

namespace Handler

def hear (h : Handler η α) (state : η) : Callback → η
  | .prepare => h.prepare state
  | .headersReceived head => h.headersReceived head state
  | .onStream declared => h.openBody declared state
  | .exceptionOccurred e => h.exceptionOccurred e state
  | .complete => (h.complete state).2

/-- The handler has come to a state by these callbacks and no others. Between two of them it has
read in a body if the first of the two handed one over. -/
inductive Heard (h : Handler η α) (first : η) : List Callback → η → Prop

  | nothing : Heard h first [] first

  | told {cs : List Callback} {state : η} (c : Callback) (hs : Heard h first cs state) :
      Heard h first (cs ++ [c]) (h.hear state c)

  | read {cs : List Callback} {declared : Option Nat} {state : η} (report : Report)
      (hs : Heard h first (cs ++ [.onStream declared]) state) :
      Heard h first (cs ++ [.onStream declared]) (h.observe report state)

theorem Heard.foldl {h : Handler η α} {first state : η} {cs : List Callback}
    (hs : h.Heard first cs state) (cs' : List Callback) :
    h.Heard first (cs ++ cs') (cs'.foldl h.hear state) := by
  induction cs' generalizing cs state with
  | nil => rwa [List.append_nil]
  | cons c cs' ih =>
    have hc := ih (hs.told c)
    rwa [List.append_assoc] at hc

end Handler

namespace Execution

/-- The handler is told this and nothing else, and the history has it. -/
structure Told (h : Handler η α) (cs : List Callback) (x y : Execution κ η α) : Prop where
  callbacks : callbacks y.history = callbacks x.history ++ cs
  handler : y.handler = cs.foldl h.hear x.handler

/-- The handler is told nothing, and reads on in the body it was handed. -/
structure ReadsOn (h : Handler η α) (x y : Execution κ η α) : Prop where
  callbacks : callbacks y.history = callbacks x.history
  phase : ∃ s, x.phase = .streaming s
  handler : ∃ report, y.handler = h.observe report x.handler

variable {c : Client ω κ ξ} {h : Handler η α} {x y z : Execution κ η α} {w : World ω κ ξ}
  {r : Execution κ η α × World ω κ ξ} {cs cs' : List Callback}

theorem Told.refl (x : Execution κ η α) : Told h [] x x :=
  ⟨(List.append_nil _).symm, rfl⟩

theorem Told.trans (hx : Told h cs x y) (hy : Told h cs' y z) : Told h (cs ++ cs') x z where
  callbacks := by rw [hy.callbacks, hx.callbacks, List.append_assoc]
  handler := by rw [hy.handler, hx.handler, List.foldl_append]

theorem Told.congr {y' : Execution κ η α} (ht : Told h cs x y) (hh : y'.history = y.history)
    (hy : y'.handler = y.handler) : Told h cs x y' :=
  ⟨(congrArg Courier.callbacks hh).trans ht.callbacks, hy.trans ht.handler⟩

theorem told_note (x : Execution κ η α) {e : Event} (he : e.callback? = none) :
    Told h [] x (x.note e) :=
  ⟨by simp [he], rfl⟩

theorem told_fail (e : Error) (x : Execution κ η α) (w : World ω κ ξ) :
    Told h [.exceptionOccurred e] x (x.fail c h e w).1 := by
  rw [fail_eq]
  generalize (x.tellException h e).decide c.policy e w = q
  obtain ⟨decision, v⟩ := q
  have hd : Told h [.exceptionOccurred e] x (x.decided h e decision v.now) :=
    ⟨by simp [decided, tellException, Event.callback?], rfl⟩
  cases decision with
  | retry delay => exact ⟨(callbacks_moveTo _ _).trans hd.callbacks, handler_moveTo _ _⟩
  | giveUp => exact ⟨(callbacks_moveTo _ _).trans hd.callbacks, handler_moveTo _ _⟩
  | notRetryable => exact ⟨(callbacks_moveTo _ _).trans hd.callbacks, handler_moveTo _ _⟩

theorem told_failWith (l : Lease κ) (e : Error) (x : Execution κ η α) (w : World ω κ ξ) :
    Told h [.exceptionOccurred e] x (x.failWith c h l e w).1 :=
  have hd : Told h [] x (x.discard c.network l w).1 := told_note x rfl
  hd.trans (told_fail e _ _)

theorem told_succeed (h : Handler η α) (x : Execution κ η α) :
    Told h [.complete] x (x.succeed h) where
  callbacks := by
    have hm : callbacks (x.moveTo .complete).history = callbacks x.history := callbacks_moveTo _ _
    rw [← hm]
    exact callbacks_note (x.moveTo .complete) (.told .complete)
  handler := congrArg (fun state => (h.complete state).2) (handler_moveTo x .complete)

theorem told_handed (net : Network ω κ) (x : Execution κ η α) (l : Lease κ) (q : Response)
    (w : World ω κ ξ) :
    Told h [.headersReceived q.head, .onStream q.body.declared] x (x.handed net h l q w) where
  callbacks := (tells_handed net h x l q w).callbacks
  handler := congrArg (h.openBody q.body.declared)
    (handler_moveTo (x.tellHeaders h q.head) .streamingBody)

theorem told_settle (l : Lease κ) (result : Except Error BodyEnd) (x : Execution κ η α)
    (w : World ω κ ξ) : ∃ cs, Told h cs x (x.settle c h l result w).1 := by
  unfold settle
  rcases result with e | _ | _
  · exact ⟨_, told_failWith l e x w⟩
  · have hn : Told h [] x (x.note (.released l.id)) := told_note x rfl
    dsimp only
    split
    · exact ⟨_, hn.trans (told_succeed h _)⟩
    · exact ⟨_, hn.trans (told_fail _ _ _)⟩
  · have hn : Told h [] x (x.note (.discarded l.id)) := told_note x rfl
    exact ⟨_, hn.trans (told_succeed h _)⟩

theorem told_letGo (net : Network ω κ) (x : Execution κ η α) (w : World ω κ ξ) :
    Told h [] x (x.letGo net w).1 := by
  refine ⟨(tells_letGo net x w).callbacks, ?_⟩
  unfold letGo
  split
  · rfl
  · split <;> rfl

theorem told_interrupt (c : Client ω κ ξ) (h : Handler η α) (x : Execution κ η α)
    (w : World ω κ ξ) : ∃ cs, Told h cs x (x.interrupt c h w).1 := by
  have hl := told_letGo (h := h) c.network x w
  have hm : Told h [] x ((x.letGo c.network w).1.moveTo .failed) :=
    ⟨(callbacks_moveTo _ _).trans hl.callbacks, (handler_moveTo _ _).trans hl.handler⟩
  unfold interrupt
  dsimp only
  split
  · have ht : Told h [.exceptionOccurred (.cancelled x.abortReason)]
        ((x.letGo c.network w).1.moveTo .failed)
        (((x.letGo c.network w).1.moveTo .failed).tellException h (.cancelled x.abortReason)) :=
      ⟨callbacks_note _ (.told (.exceptionOccurred (.cancelled x.abortReason))), rfl⟩
    obtain ⟨hc, hh⟩ := hm.trans ht
    exact ⟨_, hc, hh⟩
  · exact ⟨[], hm.callbacks, hm.handler⟩

theorem told_kill (net : Network ω κ) (x : Execution κ η α) (w : World ω κ ξ) :
    Told h [] x (x.kill net w).1 := by
  unfold kill
  split
  · exact .refl x
  · have hl := told_letGo (h := h) net x w
    exact ⟨hl.callbacks, hl.handler⟩

theorem stepHandler_cases (h : Handler η α) (s : Streaming κ) (state : η) (cells : Cells) :
    (s.stepHandler h state cells).2.1 = state ∨
      ∃ report, (s.stepHandler h state cells).2.1 = h.observe report state := by
  unfold Streaming.stepHandler
  split
  · exact .inl rfl
  · split
    · exact .inl rfl
    · cases ho : (s.tap.apply (h.move state) s.body cells).report with
      | none => exact .inl (by simp [ho])
      | some report => exact .inr ⟨report, by simp [ho]⟩

theorem Advance.told (ha : Advance c h x w r) :
    (∃ cs, Told h cs x r.1) ∨ ReadsOn h x r.1 := by
  have hopened (s : HookState ξ) : Told h [] x (x.opened.afterHooks s) :=
    ⟨(tells_moveTo x .acquiringConnection rfl).callbacks, handler_moveTo x _⟩
  cases ha with
  | prepare _ => exact .inl ⟨[.prepare], callbacks_note x (.told .prepare), rfl⟩
  | refused _ _ => exact .inl ⟨_, (hopened _).trans (told_fail _ _ _)⟩
  | unqueued _ _ _ => exact .inl ⟨_, (hopened _).trans (told_fail _ _ _)⟩
  | @queued _ s _ _ _ _ _ => exact .inl ⟨[], (hopened s).callbacks, (hopened s).handler⟩
  | acquiring _ _ _ => exact .inl ⟨[], (List.append_nil _).symm, rfl⟩
  | unacquired _ _ _ => exact .inl ⟨_, told_fail _ x _⟩
  | @leased request _ lease _ _ _ _ _ =>
    refine .inl ⟨[], ?_, handler_moveTo (x.note (.leased lease.id)) .transmitting⟩
    simp [transmitting, Event.callback?]
  | unsent _ _ _ => exact .inl ⟨_, told_failWith _ _ x _⟩
  | sent _ _ _ =>
    exact .inl ⟨[], (tells_moveTo x .awaitingResponse rfl).callbacks, handler_moveTo x _⟩
  | expired _ _ => exact .inl ⟨_, told_failWith _ _ x _⟩
  | headless _ _ _ => exact .inl ⟨_, told_failWith _ _ x _⟩
  | withheld _ _ _ _ => exact .inl ⟨_, (told_note x rfl).trans (told_failWith _ _ _ _)⟩
  | @rejected _ _ head _ _ _ s _ _ _ _ _ =>
    have hn : Told h [] x ((x.note (.answered head)).afterHooks s) :=
      (told_note x rfl).congr rfl rfl
    exact .inl ⟨_, hn.trans (told_failWith _ _ _ _)⟩
  | @responded _ _ head _ _ _ s _ _ _ _ _ =>
    have hn : Told h [] x ((x.note (.answered head)).afterHooks s) :=
      (told_note x rfl).congr rfl rfl
    exact .inl ⟨_, hn.trans (told_handed _ _ _ _ _)⟩
  | @settled s result _ _ => exact .inl (told_settle s.lease result x w)
  | @pumped _ s' read _ _ _ _ _ =>
    refine .inl ⟨[], (tells_pumped x read s').callbacks, ?_⟩
    cases read <;> rfl
  | @handled s _ _ _ hp _ _ hs =>
    have hh := stepHandler_cases h { s with turn := .handler } x.handler w.cells
    rw [hs] at hh
    obtain rfl | ⟨report, hr⟩ := hh
    · exact .inl ⟨[], (List.append_nil _).symm, rfl⟩
    · exact .inr ⟨rfl, ⟨s, hp⟩, report, hr⟩
  | resume _ _ => exact .inl ⟨[], (List.append_nil _).symm, rfl⟩

theorem told_step (hs : x.step c h w = some r) : (∃ cs, Told h cs x r.1) ∨ ReadsOn h x r.1 := by
  obtain ⟨_, ⟨_, rfl⟩ | ⟨_, ha⟩⟩ := step_cases hs
  · exact .inl (told_interrupt c h x w)
  · exact ha.told

theorem Story.handed_over {p : RetryPolicy} {q : Request} {as : List Attempt}
    {rest : List Callback} (hs : Story p q x as rest) {s : Streaming κ}
    (hp : x.phase = .streaming s) :
    ∃ cs declared, callbacks x.history = cs ++ [.onStream declared] := by
  have ho := hs.opening
  rw [hp] at ho
  cases ho with
  | none hi => cases hi
  | begun _ ha => cases ha
  | answered _ _ head declared =>
    refine ⟨as.flatMap Attempt.callbacks ++ [.prepare, .headersReceived head], declared, ?_⟩
    rw [hs.told, List.append_assoc]
    rfl

variable {R : Execution κ η α → World ω κ ξ → World ω κ ξ → Prop} {x₀ : Execution κ η α}
  {w₀ : World ω κ ξ}

/-- However an execution goes, its handler has heard what the history has it told. -/
theorem Runs.heard (hx : x₀.Fresh) (hr : Runs c h R (x₀, w₀) r) :
    h.Heard x₀.handler (callbacks r.1.history) r.1.handler := by
  induction hr with
  | refl =>
    rw [hx.history]
    exact .nothing
  | @step x w r hr hs ih =>
    obtain ⟨cs, ht⟩ | hread := told_step hs
    · rw [ht.callbacks, ht.handler]
      exact ih.foldl cs
    · obtain ⟨s, hp⟩ := hread.phase
      obtain ⟨report, hh⟩ := hread.handler
      obtain ⟨as, rest, hstory⟩ := hr.story hx (step_cases hs).1
      obtain ⟨cs, declared, hc⟩ := hstory.handed_over hp
      rw [hread.callbacks, hh]
      dsimp only at ih
      rw [hc] at ih ⊢
      exact ih.read report
  | @turn x w who _ ih =>
    rcases x.withTurn_cases who with he | ⟨s, _, he⟩
    · rwa [he]
    · rwa [he]
  | abort _ _ _ ih => exact ih
  | others _ _ ih => exact ih

end Execution

end Courier
