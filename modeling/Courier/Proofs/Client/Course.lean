import Mathlib.Data.List.Chain
import Courier.Proofs.Client.Protocol

/-! # The course of the states

The states of an execution form a path: each attempt acquires, transmits, awaits and streams in this
order, until it completes or is cut short. After an attempt that is cut short another may follow;
complete and failed are the end.
-/

namespace Courier

variable {ω κ ξ η α : Type}

namespace ExecutionState

def isUnderWay : ExecutionState → Bool
  | acquiringConnection => true
  | transmitting => true
  | awaitingResponse => true
  | streamingBody => true
  | _ => false

/-- Which state may follow on which. Only an abort fails an execution between two attempts. -/
inductive Leads (aborted : Bool) : ExecutionState → ExecutionState → Prop

  | transmits : Leads aborted acquiringConnection transmitting

  | awaits : Leads aborted transmitting awaitingResponse

  | streams : Leads aborted awaitingResponse streamingBody

  | completes : Leads aborted streamingBody complete

  | retries {s : ExecutionState} (hs : s.isUnderWay = true) : Leads aborted s retrying

  | fails {s : ExecutionState} (hs : s.isUnderWay = true) : Leads aborted s failed

  | again : Leads aborted retrying acquiringConnection

  | stops (ha : aborted = true) : Leads aborted retrying failed

variable {a b : Bool} {s t : ExecutionState}

theorem Leads.mono (hs : Leads a s t) (hab : a = true → b = true) : Leads b s t := by
  cases hs with
  | transmits => exact .transmits
  | awaits => exact .awaits
  | streams => exact .streams
  | completes => exact .completes
  | retries hs => exact .retries hs
  | fails hs => exact .fails hs
  | again => exact .again
  | stops ha => exact .stops (hab ha)

theorem isTerminal_of_isUnderWay (hs : s.isUnderWay = true) : s.isTerminal = false := by
  cases s <;> first | rfl | cases hs

theorem Leads.not_terminal (hs : Leads a s t) : s.isTerminal = false := by
  cases hs with
  | retries hs => exact isTerminal_of_isUnderWay hs
  | fails hs => exact isTerminal_of_isUnderWay hs
  | _ => rfl

end ExecutionState

namespace Phase

/-- The state in which an execution shows itself in each phase. Between two attempts it still shows
that it retries. -/
def Shows : Phase κ α → ExecutionState → Prop
  | ready, s => s = .acquiringConnection ∨ s = .retrying
  | prepared, s => s = .acquiringConnection ∨ s = .retrying
  | acquiring _ _, s => s = .acquiringConnection
  | sending _ _ _ _, s => s = .transmitting
  | awaiting _ _, s => s = .awaitingResponse
  | streaming _, s => s = .streamingBody
  | waiting _, s => s = .retrying
  | finished _, s => s.isTerminal = true

end Phase

namespace Execution

open ExecutionState

def states (x : Execution κ η α) : List ExecutionState :=
  .initial :: x.transitions.map (·.2)

/-- The states so far form a path, and the transitions are its edges. -/
structure Course (x : Execution κ η α) : Prop where
  path : x.states.IsChain (Leads x.signal.aborted)
  last : x.states.getLast? = some x.state
  edges : x.transitions = x.states.zip x.states.tail

variable {x y z : Execution κ η α}

/-! ## Without a transition -/

/-- The second has made no transition since the first. -/
structure Steady (x y : Execution κ η α) : Prop where
  transitions : y.transitions = x.transitions
  state : y.state = x.state
  signal : y.signal = x.signal

theorem Steady.refl (x : Execution κ η α) : Steady x x :=
  ⟨rfl, rfl, rfl⟩

theorem Steady.trans (hx : Steady x y) (hy : Steady y z) : Steady x z :=
  ⟨hy.transitions.trans hx.transitions, hy.state.trans hx.state, hy.signal.trans hx.signal⟩

theorem steady_note (x : Execution κ η α) {e : Event} (he : e.transition? = none) :
    Steady x (x.note e) :=
  ⟨by simp [transitions, note, he], rfl, rfl⟩

theorem Steady.congr (hx : Steady x y) (hh : z.history = y.history) (ht : z.state = y.state)
    (hs : z.signal = y.signal) : Steady x z := by
  have hz : z.transitions = y.transitions := by
    unfold Execution.transitions
    rw [hh]
  exact ⟨hz.trans hx.transitions, ht.trans hx.state, hs.trans hx.signal⟩

theorem Steady.states (hs : Steady x y) : y.states = x.states := by
  rw [Execution.states, hs.transitions, Execution.states]

theorem Course.steady (hx : Course x) (hs : Steady x y) : Course y := by
  refine ⟨?_, ?_, ?_⟩
  · rw [hs.states, hs.signal]
    exact hx.path
  · rw [hs.states, hs.state]
    exact hx.last
  · rw [hs.transitions, hs.states]
    exact hx.edges

/-! ## Transitions -/

theorem zip_tail_concat {β : Type} {l : List β} {a : β} (h : l.getLast? = some a) (b : β) :
    (l ++ [b]).zip (l ++ [b]).tail = l.zip l.tail ++ [(a, b)] := by
  induction l with
  | nil => cases h
  | cons c l ih =>
    cases l with
    | nil =>
      cases h
      rfl
    | cons d l =>
      rw [List.getLast?_cons_cons] at h
      exact congrArg ((c, d) :: ·) (ih h)

theorem Course.moveTo (hx : Course x) {next : ExecutionState}
    (hn : x.state = next ∨ Leads x.signal.aborted x.state next) : Course (x.moveTo next) := by
  unfold Execution.moveTo
  split
  · exact hx
  · rename_i hmoves
    have hl : Leads x.signal.aborted x.state next :=
      hn.resolve_left fun heq => hmoves (by simp [heq])
    have ht : ({ x.note (.moved x.state next) with state := next } : Execution κ η α).transitions =
        x.transitions ++ [(x.state, next)] := by
      simp [transitions, note, Event.transition?]
    have hs : ({ x.note (.moved x.state next) with state := next } : Execution κ η α).states =
        x.states ++ [next] := by
      rw [states, ht, List.map_append]
      rfl
    refine ⟨?_, ?_, ?_⟩
    · rw [hs]
      refine List.isChain_append.mpr ⟨hx.path, List.isChain_singleton next, ?_⟩
      intro s hs t ht
      rw [hx.last] at hs
      cases hs
      cases ht
      exact hl
    · rw [hs]
      simp
    · rw [ht, hs, zip_tail_concat hx.last, hx.edges]

variable {c : Client ω κ ξ} {h : Handler η α} {w v : World ω κ ξ}
  {r : Execution κ η α × World ω κ ξ} {e : Error}

/-- The course and the phase of an execution agree. -/
structure Plies (x : Execution κ η α) : Prop where
  course : Course x
  shows : x.phase.Shows x.state

theorem Plies.steady (hx : Plies x) (hs : Steady x y)
    (hp : x.phase.Shows x.state → y.phase.Shows x.state) : Plies y :=
  ⟨hx.course.steady hs, hs.state ▸ hp hx.shows⟩

theorem Course.moves (hx : Course x) {next : ExecutionState}
    (hn : x.state = next ∨ Leads x.signal.aborted x.state next) (ht : x.state.isTerminal = false)
    (hs : Steady (x.moveTo next) y) (hp : y.phase.Shows next) : Plies y := by
  refine ⟨(hx.moveTo hn).steady hs, ?_⟩
  rw [hs.state, state_moveTo next ht]
  exact hp

theorem steady_discard (net : Network ω κ) (l : Lease κ) (x : Execution κ η α)
    (w : World ω κ ξ) : Steady x (x.discard net l w).1 :=
  steady_note x rfl

theorem steady_letGo (net : Network ω κ) (x : Execution κ η α) (w : World ω κ ξ) :
    Steady x (x.letGo net w).1 := by
  unfold letGo
  split
  · exact .refl x
  · split
    · exact steady_discard net _ x w
    · exact .refl x

theorem steady_kill (net : Network ω κ) (x : Execution κ η α) (w : World ω κ ξ) :
    Steady x (x.kill net w).1 := by
  unfold kill
  split
  · exact .refl x
  · exact (steady_letGo net x w).congr rfl rfl rfl

/-! ## Ends of attempts -/

section Ends

variable (hx : Course x) (hu : x.state.isUnderWay = true)

include hx hu

theorem Course.concluded (e : Error) (now : Nat) (decision : RetryDecision) :
    Plies (x.concluded e now decision) := by
  have ht := isTerminal_of_isUnderWay hu
  cases decision with
  | retry delay => exact hx.moves (.inr (.retries hu)) ht ⟨rfl, rfl, rfl⟩ rfl
  | giveUp => exact hx.moves (.inr (.fails hu)) ht ⟨rfl, rfl, rfl⟩ rfl
  | notRetryable => exact hx.moves (.inr (.fails hu)) ht ⟨rfl, rfl, rfl⟩ rfl

theorem Course.fail (e : Error) (w : World ω κ ξ) : Plies (x.fail c h e w).1 := by
  rw [fail_eq]
  generalize (x.tellException h e).decide c.policy e w = q
  have ht : Steady x (x.tellException h e) :=
    (steady_note x (e := .told (.exceptionOccurred e)) rfl).congr rfl rfl rfl
  have hd : Steady x (x.decided h e q.1 q.2.now) := ht.trans (steady_note _ rfl)
  exact (hx.steady hd).concluded (hd.state ▸ hu) e _ _

theorem Course.failWith (l : Lease κ) (e : Error) (w : World ω κ ξ) :
    Plies (x.failWith c h l e w).1 :=
  (hx.steady (steady_discard c.network l x w)).fail hu e _

end Ends

theorem Course.succeed (hx : Course x) (hs : x.state = .streamingBody) :
    Plies (x.succeed h) := by
  have hl : Leads x.signal.aborted x.state .complete := hs ▸ .completes
  refine hx.moves (.inr hl) hl.not_terminal ?_ rfl
  exact (steady_note _ (e := .told .complete) rfl).congr rfl rfl rfl

theorem Course.settle (hx : Course x) (hs : x.state = .streamingBody) (l : Lease κ)
    (result : Except Error BodyEnd) (w : World ω κ ξ) : Plies (x.settle c h l result w).1 := by
  have hu : x.state.isUnderWay = true := congrArg isUnderWay hs
  unfold Execution.settle
  rcases result with e | _ | _
  · exact hx.failWith hu l e w
  · have hn : Steady x (x.note (.released l.id)) := steady_note x rfl
    dsimp only
    split
    · exact (hx.steady hn).succeed hs
    · exact (hx.steady hn).fail hu _ _
  · exact (hx.steady (steady_discard c.network l x w)).succeed hs

theorem Plies.leads_failed (hx : Plies x) (hf : x.isFinished = false)
    (ha : x.signal.aborted = true) : Leads x.signal.aborted x.state .failed := by
  have hs := hx.shows
  unfold isFinished at hf
  cases hp : x.phase with
  | ready =>
    rw [hp] at hs
    rcases hs with hs | hs
    · exact .fails (congrArg isUnderWay hs)
    · exact hs ▸ .stops ha
  | prepared =>
    rw [hp] at hs
    rcases hs with hs | hs
    · exact .fails (congrArg isUnderWay hs)
    · exact hs ▸ .stops ha
  | acquiring request a =>
    rw [hp] at hs
    exact .fails (congrArg isUnderWay hs)
  | sending head body l due =>
    rw [hp] at hs
    exact .fails (congrArg isUnderWay hs)
  | awaiting l wait =>
    rw [hp] at hs
    exact .fails (congrArg isUnderWay hs)
  | streaming s =>
    rw [hp] at hs
    exact .fails (congrArg isUnderWay hs)
  | waiting due =>
    rw [hp] at hs
    exact hs ▸ .stops ha
  | finished outcome => simp [hp, Phase.isFinished] at hf

theorem Plies.interrupt (hx : Plies x) (hf : x.isFinished = false)
    (ha : x.signal.aborted = true) : Plies (x.interrupt c h w).1 := by
  have hl := steady_letGo c.network x w
  have hleads : Leads (x.letGo c.network w).1.signal.aborted (x.letGo c.network w).1.state .failed := by
    rw [hl.signal, hl.state]
    exact hx.leads_failed hf ha
  refine (hx.course.steady hl).moves (.inr hleads) hleads.not_terminal ?_ rfl
  unfold Execution.interrupt
  dsimp only
  split
  · exact (steady_note _ (e := .told (.exceptionOccurred _)) rfl).congr rfl rfl rfl
  · exact ⟨rfl, rfl, rfl⟩

/-! ## Steps -/

theorem Plies.opened (hx : Plies x) (hp : x.phase = .prepared) (s : HookState ξ) :
    Course (x.opened.afterHooks s) ∧ (x.opened.afterHooks s).state = .acquiringConnection := by
  have hs := hx.shows
  rw [hp] at hs
  refine ⟨(hx.course.moveTo ?_).steady ⟨rfl, rfl, rfl⟩, state_moveTo _ ?_⟩
  · rcases hs with hs | hs
    · exact .inl hs
    · exact .inr (hs ▸ .again)
  · rcases hs with hs | hs
    · exact congrArg isTerminal hs
    · exact congrArg isTerminal hs

theorem Plies.advance (hx : Plies x) (ha : Advance c h x w r) : Plies r.1 := by
  have hs := hx.shows
  cases ha with
  | prepare hp =>
    refine hx.steady ?_ fun hs => by rwa [hp] at hs
    exact (steady_note x (e := .told .prepare) rfl).congr rfl rfl rfl
  | @refused e s hp hk =>
    obtain ⟨hc, ho⟩ := hx.opened hp s
    exact hc.fail (congrArg isUnderWay ho) e _
  | @unqueued request s e hp hk ha =>
    obtain ⟨hc, ho⟩ := hx.opened hp s
    exact hc.fail (congrArg isUnderWay ho) e _
  | @queued request s a pool hp hk ha =>
    obtain ⟨hc, ho⟩ := hx.opened hp s
    exact ⟨hc.steady ⟨rfl, rfl, rfl⟩, ho⟩
  | acquiring hp hr ha => exact hx.steady ⟨rfl, rfl, rfl⟩ fun hs => by rwa [hp] at hs
  | unacquired hp hr ha =>
    rw [hp] at hs
    exact hx.course.fail (congrArg isUnderWay hs) _ _
  | @leased request a l pool outside hp hr ha =>
    rw [hp] at hs
    have hn : Steady x (x.note (.leased l.id)) := steady_note x rfl
    have hl : Leads x.signal.aborted x.state .transmitting := (show x.state = _ from hs) ▸ .transmits
    refine (hx.course.steady hn).moves (.inr hl) hl.not_terminal ?_ rfl
    exact (steady_note _ (e := .sent request.head _) rfl).congr rfl rfl rfl
  | unsent hp hd hr =>
    rw [hp] at hs
    exact hx.course.failWith (congrArg isUnderWay hs) _ _ _
  | sent hp hd hr =>
    rw [hp] at hs
    have hl : Leads x.signal.aborted x.state .awaitingResponse :=
      (show x.state = _ from hs) ▸ .awaits
    exact hx.course.moves (.inr hl) hl.not_terminal ⟨rfl, rfl, rfl⟩ rfl
  | expired hp hd =>
    rw [hp] at hs
    exact hx.course.failWith (congrArg isUnderWay hs) _ _ _
  | headless hp hd hr =>
    rw [hp] at hs
    exact hx.course.failWith (congrArg isUnderWay hs) _ _ _
  | @withheld l wait head e connection outside hp hd hr hw =>
    rw [hp] at hs
    have hn : Steady x (x.note (.answered head)) := steady_note x rfl
    exact (hx.course.steady hn).failWith (congrArg isUnderWay hs) _ _ _
  | @rejected l wait head e connection outside s hp hd hr hw hk =>
    rw [hp] at hs
    have hn : Steady x ((x.note (.answered head)).afterHooks s) :=
      (steady_note x (e := .answered head) rfl).congr rfl rfl rfl
    exact (hx.course.steady hn).failWith (congrArg isUnderWay hs) _ _ _
  | @responded l wait head r connection outside s hp hd hr hw hk =>
    rw [hp] at hs
    have hn : Steady x ((((x.note (.answered head)).afterHooks s)).tellHeaders h r.head) :=
      ((steady_note x (e := .answered head) rfl).trans
        (steady_note _ (e := .told (.headersReceived r.head)) rfl)).congr rfl rfl rfl
    have hl : Leads x.signal.aborted x.state .streamingBody := (show x.state = _ from hs) ▸ .streams
    refine (hx.course.steady hn).moves (.inr ?_) ?_ ?_ rfl
    · exact hl
    · exact hl.not_terminal
    · exact (steady_note _ (e := .told (.onStream r.body.declared)) rfl).congr rfl rfl rfl
  | settled hp ho =>
    rw [hp] at hs
    exact hx.course.settle hs _ _ w
  | @pumped s s' read outside hp ho ht hm =>
    refine hx.steady ?_ fun hs => by rwa [hp] at hs
    cases read with
    | none => exact ⟨rfl, rfl, rfl⟩
    | some result => exact (steady_note x (e := .read result) rfl).congr rfl rfl rfl
  | handled hp ho ht hm => exact hx.steady ⟨rfl, rfl, rfl⟩ fun hs => by rwa [hp] at hs
  | resume hp hd =>
    refine hx.steady ⟨rfl, rfl, rfl⟩ fun hs => ?_
    rw [hp] at hs
    exact .inr hs

theorem Plies.step (hx : Plies x) (hs : x.step c h w = some r) : Plies r.1 := by
  obtain ⟨hf, ⟨ha, rfl⟩ | ⟨_, ha⟩⟩ := step_cases hs
  · exact hx.interrupt hf ha
  · exact hx.advance ha

/-- The attempt under way has come to a good end, which the next step takes up. -/
def Succeeds (c : Client ω κ ξ) (x : Execution κ η α) (w : World ω κ ξ) : Prop :=
  x.signal.aborted = false ∧ x.fault? c w = none ∧
    ∃ s b, x.phase = .streaming s ∧ s.outcome? = some (.ok b)

theorem Plies.succeeds (hx : Plies x) (hs : x.Succeeds c w) (hr : x.step c h w = some r) :
    r.1.state = .complete ∧ r.1.outcome? = some (h.complete x.handler).1 := by
  obtain ⟨ha, hf, s, b, hp, ho⟩ := hs
  have hstate := hx.shows
  rw [hp] at hstate
  have hl : x.state.isTerminal = false := congrArg isTerminal hstate
  have hstep : x.step c h w = some (x.settle c h s.lease (.ok b) w) := by
    simp [Execution.step, isFinished, hp, Phase.isFinished, ha, stream, ho]
  obtain rfl : x.settle c h s.lease (.ok b) w = r := Option.some.inj (hstep.symm.trans hr)
  have hgood (y : Execution κ η α) (hy : Steady x y) (hh : y.handler = x.handler) :
      (y.succeed h).state = .complete ∧
        (y.succeed h).outcome? = some (h.complete x.handler).1 := by
    refine ⟨state_moveTo .complete (hy.state ▸ hl), ?_⟩
    simp [succeed, tellComplete, finish, outcome?, hh]
  cases b with
  | abandoned => exact hgood _ (steady_discard c.network s.lease x w) rfl
  | drained =>
    rcases hq : w.pool.release c.network s.lease w.outside with ⟨e | ⟨⟩, pool, outside⟩
    · simp [fault?, hp, ho, hq, errorOf] at hf
    · simp only [settle, hq]
      exact hgood _ (steady_note x rfl) rfl

theorem state_interrupt (hl : x.state.isTerminal = false) :
    (x.interrupt c h w).1.state = .failed := by
  have hs := steady_letGo c.network x w
  have hm : ((x.letGo c.network w).1.moveTo .failed).state = .failed :=
    state_moveTo .failed (hs.state ▸ hl)
  unfold Execution.interrupt
  dsimp only
  split
  · exact hm
  · exact hm

theorem finished_cases (hl : x.state.isTerminal = false) (hs : x.step c h w = some r)
    (hf : r.1.isFinished = true) : x.Succeeds c w ∨ r.1.state = .failed := by
  obtain ⟨_, ⟨_, rfl⟩ | ⟨ha, had⟩⟩ := step_cases hs
  · exact .inr (state_interrupt hl)
  · cases had.passage with
    | begins hp => cases hf
    | goes _ hy _ _ _ => cases hf.symm.trans (isFinished_of_inAttempt hy)
    | @answered y v _ _ _ _ hy _ _ =>
      have hy : y.phase.inAttempt = true := by
        cases hp : y.phase with
        | streaming s => rfl
        | _ => simp [hp, Phase.isAnswered] at hy
      cases hf.symm.trans (isFinished_of_inAttempt hy)
    | @fails y v e _ ht _ =>
      have hfail : Fails c h e y (y.fail c h e v) := fails_fail e (ht.live hl) v
      cases hfail.aftermath with
      | retries hp _ _ _ => simp [isFinished, hp, Phase.isFinished] at hf
      | ends _ _ hstate => exact .inr hstate
    | succeeds hp ho _ _ hnone => exact .inl ⟨ha, hnone, _, _, hp, ho⟩
    | resumes hp => cases hf

/-! ## Runs -/

variable {R : Execution κ η α → World ω κ ξ → World ω κ ξ → Prop} {x₀ : Execution κ η α}
  {w₀ : World ω κ ξ}

theorem Fresh.plies (hx : Fresh x) : Plies x where
  course := by
    have ht : x.transitions = [] := by simp [transitions, hx.history]
    refine ⟨?_, ?_, ?_⟩
    · rw [states, ht]
      exact List.isChain_singleton _
    · rw [states, ht, hx.state]
      rfl
    · rw [states, ht]
      rfl
  shows := by
    rw [hx.phase, hx.state]
    exact .inl rfl

theorem Course.abort (hx : Course x) (reason : String) : Course (x.abort reason).2 where
  path := hx.path.imp fun _ _ hl => hl.mono fun _ => x.signal.aborted_abort reason
  last := hx.last
  edges := hx.edges

theorem Runs.plies (hx : Fresh x₀) (hr : Runs c h R (x₀, w₀) r) : Plies r.1 := by
  induction hr with
  | refl => exact hx.plies
  | step _ hs ih => exact ih.step hs
  | @turn x w who _ ih =>
    rcases x.withTurn_cases who with he | ⟨s, hp, he⟩
    · rw [he]
      exact ih
    · rw [he]
      exact ih.steady ⟨rfl, rfl, rfl⟩ fun hs => by rwa [hp] at hs
  | abort reason _ _ ih => exact ⟨ih.course.abort reason, ih.shows⟩
  | others _ _ ih => exact ih

/-- Has an attempt succeeded on the way? -/
def Succeeded (c : Client ω κ ξ) (h : Handler η α)
    (R : Execution κ η α → World ω κ ξ → World ω κ ξ → Prop)
    (r₀ r : Execution κ η α × World ω κ ξ) : Prop :=
  ∃ y v d, Runs c h R r₀ (y, v) ∧ y.Succeeds c v ∧ y.step c h v = some d ∧ Runs c h R d r

theorem Runs.same_states (hf : x.isFinished = true) (hr : Runs c h R (x, w) r) :
    r.1.states = x.states ∧ r.1.state = x.state := by
  rw [(hr.rests hf).eq]
  exact ⟨rfl, rfl⟩

/-- However an execution goes and whenever it is aborted, its states form a path: every attempt
acquires, transmits, awaits and streams, cut short by a retry or a failure; a retry leads to the
next attempt, or an abort fails the execution before it; an execution is completed from its body
alone. Its transitions are the edges of the path, it is in the last state of it, and shows how far
the attempt under way has come. A terminal state is final. Once the execution is finished its state
is terminal: complete if an attempt has succeeded, whatever its handler made of that, and failed
otherwise. If its event loop is shut down it takes no state any more. -/
theorem states_path {c : Client ω κ ξ} {h : Handler η α}
    {R : Execution κ η α → World ω κ ξ → World ω κ ξ → Prop} {x₀ x : Execution κ η α}
    {w₀ w : World ω κ ξ} (hx : x₀.Fresh) (hr : Runs c h R (x₀, w₀) (x, w)) :
    (x.states.IsChain (Leads x.signal.aborted) ∧ x.states.getLast? = some x.state ∧
      x.transitions = x.states.zip x.states.tail ∧ x.phase.Shows x.state) ∧
    (x.state.isTerminal = true → ∀ r, Runs c h R (x, w) r →
      r.1.states = x.states ∧ r.1.state = x.state) ∧
    (∀ r, x.Succeeds c w → x.step c h w = some r →
      r.1.state = .complete ∧ r.1.outcome? = some (h.complete x.handler).1) ∧
    (x.isFinished = true →
      (Succeeded c h R (x₀, w₀) (x, w) → x.state = .complete) ∧
        (¬ Succeeded c h R (x₀, w₀) (x, w) → x.state = .failed)) ∧
    ∀ r, Runs c h R (x.kill c.network w) r → r.1.states = x.states ∧ r.1.state = x.state := by
  have hlive (hf : x.isFinished = false) : x.state.isTerminal = false := by
    obtain ⟨_, _, hs⟩ := hr.story hx hf
    exact hs.live
  have hp : Plies x := hr.plies hx
  refine ⟨⟨hp.course.path, hp.course.last, hp.course.edges, hp.shows⟩, fun ht r hr' => ?_,
    fun r hs hstep => hp.succeeds hs hstep, fun hf => ⟨?_, ?_⟩, fun r hr' => ?_⟩
  · refine hr'.same_states ?_
    cases hf : x.isFinished with
    | true => rfl
    | false => cases ht.symm.trans (hlive hf)
  · rintro ⟨y, v, d, hy, hs, hstep, hd⟩
    obtain ⟨hstate, ho⟩ := Plies.succeeds (hy.plies hx) hs hstep
    have hfd : d.1.isFinished = true := isFinished_of_phase (phase_of_outcome? ho)
    rw [(Runs.same_states hfd hd).2, hstate]
  · intro hn
    have h₀ : x₀.isFinished = false := by simp [isFinished, hx.phase, Phase.isFinished]
    obtain ⟨y, v, d, hy, hu, hstep, hfd, hd⟩ := hr.finishing h₀ hf
    obtain ⟨_, _, hstory⟩ := hy.story hx hu
    rcases finished_cases hstory.live hstep hfd with hs | hstate
    · exact absurd ⟨y, v, d, hy, hs, hstep, hd⟩ hn
    · rw [(Runs.same_states hfd hd).2, hstate]
  · have hk := steady_kill c.network x w
    obtain ⟨hs, ht⟩ := hr'.same_states (isFinished_kill c.network x w)
    exact ⟨hs.trans hk.states, ht.trans hk.state⟩

/-- The states of two attempts, of which the first is kept from the handler. -/
theorem states_path_retried_get :
    let r := Rehearsal.retriedGet 1 [.ofStatus 503 "Busy", .ok [1, 2]] 40
    r.1.states = [.acquiringConnection, .transmitting, .awaitingResponse, .retrying,
        .acquiringConnection, .transmitting, .awaitingResponse, .streamingBody, .complete] ∧
      r.1.states.IsChain (Leads r.1.signal.aborted) := by
  intro r
  have hr : Runs (Rehearsal.retryingClient 1) Buffering.handler (fun _ _ _ => False)
      (.start Rehearsal.plainGet .start .empty,
        Rehearsal.scripted [.ofStatus 503 "Busy", .ok [1, 2]]) (r.1, r.2) :=
    runs_walk 40 _
  refine ⟨by decide +kernel, (states_path (fresh_start _ _ _) hr).1.1⟩

end Execution

end Courier
