import Courier.Proofs.Client.Step

/-! # How a history goes on

Each operation of an execution adds to its history and changes a few of its parts. The operations
that end an attempt or a run are described once, by what they add and what they leave alone.
-/

namespace Courier

variable {ω κ ξ η α : Type}

namespace Event

/-- A change of state, the end of an attempt, or what was decided about it. -/
def isRemark : Event → Bool
  | moved _ _ => true
  | told (.exceptionOccurred _) => true
  | told .complete => true
  | decided _ _ => true
  | _ => false

end Event

namespace Execution

variable {x y z : Execution κ η α} {P Q : Event → Bool}

/-- The history of the second goes on from that of the first with events of one kind. -/
def Continues (P : Event → Bool) (x y : Execution κ η α) : Prop :=
  ∃ es, y.history = x.history ++ es ∧ ∀ e ∈ es, P e = true

theorem Continues.of_eq (hh : y.history = x.history) : Continues P x y :=
  ⟨[], by simp [hh], by simp⟩

theorem Continues.refl (x : Execution κ η α) : Continues P x x := .of_eq rfl

theorem Continues.trans (hx : Continues P x y) (hy : Continues P y z) : Continues P x z := by
  obtain ⟨es, he, hP⟩ := hx
  obtain ⟨es', he', hP'⟩ := hy
  refine ⟨es ++ es', by rw [he', he, List.append_assoc], fun e hm => ?_⟩
  rcases List.mem_append.mp hm with hm | hm
  · exact hP e hm
  · exact hP' e hm

theorem Continues.mono (hPQ : ∀ e, P e = true → Q e = true) (hx : Continues P x y) :
    Continues Q x y := by
  obtain ⟨es, he, hP⟩ := hx
  exact ⟨es, he, fun e hm => hPQ e (hP e hm)⟩

theorem Continues.note (x : Execution κ η α) {e : Event} (he : P e = true) :
    Continues P x (x.note e) :=
  ⟨[e], rfl, by simpa using he⟩

theorem Continues.foldl_eq {σ : Type} {f : σ → Event → σ} (hf : ∀ s e, P e = true → f s e = s)
    (hx : Continues P x y) (s : σ) : y.history.foldl f s = x.history.foldl f s := by
  obtain ⟨es, he, hP⟩ := hx
  rw [he, List.foldl_append]
  clear he
  induction es with
  | nil => rfl
  | cons e es ih =>
    rw [List.foldl_cons, hf _ e (hP e (List.mem_cons_self ..))]
    exact ih fun d hd => hP d (List.mem_cons_of_mem _ hd)

theorem continues_moveTo (x : Execution κ η α) (next : ExecutionState) :
    Continues Event.isRemark x (x.moveTo next) := by
  unfold moveTo
  split
  · exact .refl x
  · exact ⟨[.moved x.state next], rfl, by simp [Event.isRemark]⟩

/-- A run or an attempt is over, with no connection in hand and the pool left alone. -/
structure Ends (x : Execution κ η α) (w : World ω κ ξ) (r : Execution κ η α × World ω κ ξ) :
    Prop where
  history : Continues Event.isRemark x r.1
  phase : (∃ outcome, r.1.phase = .finished outcome) ∨ ∃ due, r.1.phase = .waiting due
  pool : r.2.pool = w.pool
  outside : r.2.outside = w.outside
  request : r.1.request = x.request
  attributes : r.1.attributes = x.attributes
  signal : r.1.signal = x.signal

variable {c : Client ω κ ξ} {h : Handler η α} {w : World ω κ ξ}

theorem decide_world (policy : RetryPolicy) (e : Error) (x : Execution κ η α) (w : World ω κ ξ) :
    (x.decide policy e w).2.pool = w.pool ∧ (x.decide policy e w).2.outside = w.outside := by
  unfold decide
  split <;> exact ⟨rfl, rfl⟩

def decided (h : Handler η α) (e : Error) (decision : RetryDecision) (now : Nat)
    (x : Execution κ η α) : Execution κ η α :=
  let x := x.tellException h e
  x.note (.decided (x.context e now) decision)

/-- Waits or is over, as was decided. -/
def concluded (e : Error) (now : Nat) (x : Execution κ η α) : RetryDecision → Execution κ η α
  | .retry delay => { x.moveTo .retrying with phase := .waiting (now + delay) }
  | .giveUp => (x.moveTo .failed).finish (.error (.retryExhausted (x.retries + 1) e))
  | .notRetryable => (x.moveTo .failed).finish (.error e)

theorem fail_eq (c : Client ω κ ξ) (h : Handler η α) (e : Error) (x : Execution κ η α)
    (w : World ω κ ξ) :
    let q := (x.tellException h e).decide c.policy e w
    x.fail c h e w = ((x.decided h e q.1 q.2.now).concluded e q.2.now q.1, q.2) := by
  unfold fail
  dsimp only
  generalize (x.tellException h e).decide c.policy e w = q
  obtain ⟨_ | _ | _, v⟩ := q <;> rfl

theorem continues_decided (e : Error) (decision : RetryDecision) (now : Nat)
    (x : Execution κ η α) : Continues Event.isRemark x (x.decided h e decision now) :=
  Continues.trans ⟨[.told (.exceptionOccurred e)], rfl, by simp [Event.isRemark]⟩ (.note _ rfl)

theorem continues_concluded (e : Error) (now : Nat) (x : Execution κ η α)
    (decision : RetryDecision) : Continues Event.isRemark x (x.concluded e now decision) := by
  cases decision with
  | retry delay => exact continues_moveTo x .retrying
  | giveUp => exact continues_moveTo x .failed
  | notRetryable => exact continues_moveTo x .failed

theorem phase_concluded (e : Error) (now : Nat) (x : Execution κ η α) (decision : RetryDecision) :
    (∃ e', (x.concluded e now decision).phase = .finished (.error e')) ∨
      ∃ due, (x.concluded e now decision).phase = .waiting due := by
  cases decision with
  | retry delay => exact .inr ⟨_, rfl⟩
  | giveUp => exact .inl ⟨_, rfl⟩
  | notRetryable => exact .inl ⟨_, rfl⟩

theorem ends_fail (e : Error) (x : Execution κ η α) (w : World ω κ ξ) :
    Ends x w (x.fail c h e w) := by
  rw [fail_eq]
  generalize hq : (x.tellException h e).decide c.policy e w = q
  have hd := decide_world c.policy e (x.tellException h e) w
  rw [hq] at hd
  refine ⟨(continues_decided e _ _ x).trans (continues_concluded e _ _ _), ?_, hd.1, hd.2, ?_, ?_,
    ?_⟩
  · rcases phase_concluded e q.2.now (x.decided h e q.1 q.2.now) q.1 with ⟨e', hp⟩ | hp
    · exact .inl ⟨_, hp⟩
    · exact .inr hp
  all_goals cases q.1 <;> simp [concluded, decided, tellException, note, finish]

theorem phase_fail (e : Error) (x : Execution κ η α) (w : World ω κ ξ) :
    (∃ e', (x.fail c h e w).1.phase = .finished (.error e')) ∨
      ∃ due, (x.fail c h e w).1.phase = .waiting due := by
  rw [fail_eq]
  exact phase_concluded e _ _ _

theorem phase_succeed (h : Handler η α) (x : Execution κ η α) :
    (x.succeed h).phase = .finished (h.complete x.handler).1 := by
  simp [succeed, tellComplete, finish]

theorem phase_interrupt (c : Client ω κ ξ) (h : Handler η α) (x : Execution κ η α)
    (w : World ω κ ξ) : ∃ e, (x.interrupt c h w).1.phase = .finished (.error e) :=
  ⟨_, rfl⟩

theorem ends_succeed (x : Execution κ η α) (w : World ω κ ξ) : Ends x w (x.succeed h, w) where
  history := (continues_moveTo x .complete).trans ⟨[.told .complete], rfl, by simp [Event.isRemark]⟩
  phase := .inl ⟨_, rfl⟩
  pool := rfl
  outside := rfl
  request := request_moveTo _ _
  attributes := attributes_moveTo _ _
  signal := signal_moveTo _ _

theorem ends_interrupted (e : Error) (told : Bool) (x : Execution κ η α) (w : World ω κ ξ) :
    Ends x w
      ((if told then (x.moveTo .failed).tellException h e else x.moveTo .failed).finish
        (.error e), w) := by
  have hm := continues_moveTo x .failed
  cases told with
  | false =>
    exact ⟨hm, .inl ⟨_, rfl⟩, rfl, rfl, request_moveTo _ _, attributes_moveTo _ _,
      signal_moveTo _ _⟩
  | true =>
    refine ⟨hm.trans ?_, .inl ⟨_, rfl⟩, rfl, rfl, ?_, ?_, ?_⟩
    · exact ⟨[.told (.exceptionOccurred e)], rfl, by simp [Event.isRemark]⟩
    · exact request_moveTo _ _
    · exact attributes_moveTo _ _
    · exact signal_moveTo _ _

theorem ends_finish (e : Error) (x : Execution κ η α) (w : World ω κ ξ) :
    Ends x w (x.finish (.error e), w) :=
  ⟨.refl x, .inl ⟨_, rfl⟩, rfl, rfl, rfl, rfl, rfl⟩

theorem ends_settle (c : Client ω κ ξ) (h : Handler η α) (l : Lease κ)
    (result : Except Error BodyEnd) (x : Execution κ η α) (w : World ω κ ξ) :
    ∃ y v, Ends y v (x.settle c h l result w) := by
  unfold settle
  rcases result with e | _ | _
  · exact ⟨_, _, ends_fail e _ _⟩
  · dsimp only
    split
    · exact ⟨_, _, ends_succeed _ _⟩
    · exact ⟨_, _, ends_fail _ _ _⟩
  · exact ⟨_, _, ends_succeed _ _⟩

theorem ends_interrupt (c : Client ω κ ξ) (h : Handler η α) (x : Execution κ η α)
    (w : World ω κ ξ) : ∃ y v, Ends y v (x.interrupt c h w) :=
  ⟨_, _, ends_interrupted _ _ _ _⟩

theorem kill_cases (net : Network ω κ) (x : Execution κ η α) (w : World ω κ ξ) :
    x.kill net w = (x, w) ∨ ∃ y v, Ends y v (x.kill net w) := by
  unfold kill
  split
  · exact .inl rfl
  · exact .inr ⟨_, _, ends_finish _ _ _⟩

end Execution

end Courier
