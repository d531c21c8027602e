import Courier.Proofs.Client.Retrying
import Courier.Proofs.Integrity.Hooks
import Courier.Proofs.Stream.Digesting

/-! # Bodies that can be opened once

A stream that can be opened once is opened in one attempt at most: whatever the policy says, the
attempt in which it has been opened is the last. Attempts that fail before are retried like others.
-/

namespace Courier

variable {ω κ ξ η α : Type}

/-! ## Counters -/

namespace Cells

def Counts (c : Cells) (k : Counter) (n : Nat) : Prop :=
  c.counts[k.index]? = some n

/-- Where the counter stands has changed at most so. -/
def Shifts (P : Nat → Nat → Prop) (k : Counter) (c c' : Cells) : Prop :=
  ∀ n, c.Counts k n → ∃ m, P n m ∧ c'.Counts k m

variable {P Q : Nat → Nat → Prop} {k : Counter} {c c' : Cells} {n : Nat}

theorem Counts.count (h : c.Counts k n) : c.count k = n := by
  unfold Counts at h
  simp [Cells.count, List.getD_eq_getElem?_getD, h]

theorem counts_of_lt (h : k.index < c.counts.length) : c.Counts k (c.count k) := by
  simp [Counts, Cells.count, List.getD_eq_getElem?_getD, List.getElem?_eq_getElem h]

theorem Shifts.mono (h : Shifts P k c c') (hP : ∀ n m, P n m → Q n m) : Shifts Q k c c' := by
  intro n hn
  obtain ⟨m, hm, hc⟩ := h n hn
  exact ⟨m, hP n m hm, hc⟩

theorem shifts_of_eq (hP : ∀ n, P n n) (h : c'.counts = c.counts) : Shifts P k c c' := by
  intro n hn
  refine ⟨n, hP n, ?_⟩
  unfold Counts
  rw [h]
  exact hn

end Cells

theorem BodyProvider.counts_openStream (p : BodyProvider) {c : Cells} {k : Counter} {n : Nat}
    (h : c.Counts k n) :
    (p.openStream c).2.Counts k (if p.counter.index = k.index then n + 1 else n) := by
  have hd (slots : List Slot) (c : Cells) :
      (slots.foldl (fun c slot => c.setDigest slot none) c).counts = c.counts := by
    induction slots generalizing c with
    | nil => rfl
    | cons slot slots ih => exact (ih _).trans rfl
  unfold Cells.Counts at h ⊢
  unfold openStream
  rw [hd, Cells.increment, List.getElem?_modify, h]
  split <;> rfl

theorem RequestBody.counts_openStream (b : RequestBody) {c : Cells} {k : Counter} {n : Nat}
    (h : c.Counts k n) :
    (b.openStream c).2.Counts k n ∨ (b.openStream c).2.Counts k (n + 1) := by
  cases b with
  | empty => exact .inl h
  | buffered bytes => exact .inl h
  | streaming p =>
    have hp := p.counts_openStream h
    split at hp
    · exact .inr hp
    · exact .inl hp

theorem RequestBody.isReplayable_oneShot {b : RequestBody} {k : Counter} {s : ByteStream}
    (hb : b = .streaming (.oneShot k s)) (c : Cells) :
    b.isReplayable c = true ↔ c.count k = 0 := by
  subst hb
  exact decide_eq_true_iff

theorem RequestBody.spent_oneShot {b : RequestBody} {k : Counter} {s : ByteStream}
    (hb : b = .streaming (.oneShot k s)) {c : Cells} (hc : 0 < c.count k) :
    b.isReplayable c = false := by
  rw [Bool.eq_false_iff, Ne, isReplayable_oneShot hb]
  omega

/-! ## Reading counts nothing -/

theorem Tap.counts_read (auto : Bool) (t : Tap) (ch : Channel) (c : Cells) :
    (t.read auto ch c).cells.counts = c.counts := by
  unfold read
  split
  · rfl
  · exact Subscription.kept_poll Cells.ignores_counts _ _ _ _

theorem Tap.counts_apply (t : Tap) (m : Handler.Move) (ch : Channel) (c : Cells) :
    (t.apply m ch c).cells.counts = c.counts := by
  cases m with
  | pull => exact t.counts_read true ch c
  | next => exact t.counts_read false ch c
  | subscribe =>
    unfold apply
    dsimp only
    split
    · rfl
    · split <;> rfl
  | cancel =>
    unfold apply
    dsimp only
    split <;> rfl
  | _ => rfl

theorem Streaming.counts_stepHandler (h : Handler η α) (s : Streaming κ) (state : η) (c : Cells) :
    (s.stepHandler h state c).2.2.counts = c.counts := by
  unfold stepHandler
  split
  · rfl
  · split
    · rfl
    · exact s.tap.counts_apply _ _ c

namespace Execution

variable {c : Client ω κ ξ} {h : Handler η α} {x y : Execution κ η α} {w v : World ω κ ξ}
  {r : Execution κ η α × World ω κ ξ} {e : Error} {P : Nat → Nat → Prop} {k : Counter}
  {R : Execution κ η α → World ω κ ξ → World ω κ ξ → Prop}

/-- Hooks, the network and others change where the counter stands at most so. -/
structure Minds (P : Nat → Nat → Prop) (c : Client ω κ ξ)
    (R : Execution κ η α → World ω κ ξ → World ω κ ξ → Prop) (k : Counter) : Prop where
  onRequest : ∀ q (s : HookState ξ), s.cells.Shifts P k (c.chain.onRequest q s).2.cells
  onResponse : ∀ q (s : HookState ξ), s.cells.Shifts P k (c.chain.onResponse q s).2.cells
  send : ∀ head body connection outside (cells : Cells),
    cells.Shifts P k (c.network.send head body connection outside cells).cells
  others : ∀ x w w', R x w w' → w.cells.Shifts P k w'.cells

theorem Minds.mono {Q : Nat → Nat → Prop} (h : Minds P c R k) (hP : ∀ n m, P n m → Q n m) :
    Minds Q c R k where
  onRequest q s := (h.onRequest q s).mono hP
  onResponse q s := (h.onResponse q s).mono hP
  send head body connection outside cells := (h.send head body connection outside cells).mono hP
  others x w w' hr := (h.others x w w' hr).mono hP

theorem cells_fail (e : Error) (x : Execution κ η α) (w : World ω κ ξ) :
    (x.fail c h e w).2.cells = w.cells := by
  rw [fail_eq]
  exact (decide_cases c.policy e (x.tellException h e) w).1

theorem cells_failWith (l : Lease κ) (e : Error) (x : Execution κ η α) (w : World ω κ ξ) :
    (x.failWith c h l e w).2.cells = w.cells :=
  cells_fail e _ _

theorem cells_settle (l : Lease κ) (result : Except Error BodyEnd) (x : Execution κ η α)
    (w : World ω κ ξ) : (x.settle c h l result w).2.cells = w.cells := by
  unfold settle
  rcases result with e | _ | _
  · exact cells_failWith l e x w
  · dsimp only
    split
    · rfl
    · exact cells_fail _ _ _
  · rfl

theorem cells_interrupt (x : Execution κ η α) (w : World ω κ ξ) :
    (x.interrupt c h w).2.cells = w.cells := by
  unfold interrupt letGo
  dsimp only
  split
  · rfl
  · split <;> rfl

theorem Advance.counts (hP : ∀ n, P n n) (hm : Minds P c R k) (ha : Advance c h x w r) {n : Nat}
    (hn : w.cells.Counts k n) :
    (∃ m, P n m ∧ r.2.cells.Counts k m) ∨
      r.2.cells.Counts k (n + 1) ∧ x.phase.lease? = none ∧ r.1.phase.lease?.isSome = true := by
  have hsame : w.cells.Shifts P k w.cells := Cells.shifts_of_eq hP rfl
  cases ha with
  | prepare _ => exact .inl (hsame n hn)
  | refused _ hk =>
    have hs := hm.onRequest x.request (x.opened.hookState w) n hn
    rw [hk] at hs
    rw [cells_fail]
    exact .inl hs
  | unqueued _ hk _ =>
    have hs := hm.onRequest x.request (x.opened.hookState w) n hn
    rw [hk] at hs
    rw [cells_fail]
    exact .inl hs
  | queued _ hk _ =>
    have hs := hm.onRequest x.request (x.opened.hookState w) n hn
    rw [hk] at hs
    exact .inl hs
  | acquiring _ _ _ => exact .inl (hsame n hn)
  | unacquired _ _ _ =>
    rw [cells_fail]
    exact .inl (hsame n hn)
  | @leased request _ lease _ _ hp _ _ =>
    obtain ho | ho := request.body.counts_openStream hn
    · exact .inl ⟨n, hP n, ho⟩
    · exact .inr ⟨ho, by rw [hp]; rfl, rfl⟩
  | @unsent head body lease _ _ _ _ _ _ _ hs =>
    have hc := hm.send head body lease.connection w.outside w.cells n hn
    rw [hs] at hc
    rw [cells_failWith]
    exact .inl hc
  | @sent head body lease _ _ _ _ _ _ hs =>
    have hc := hm.send head body lease.connection w.outside w.cells n hn
    rw [hs] at hc
    exact .inl hc
  | expired _ _ =>
    rw [cells_failWith]
    exact .inl (hsame n hn)
  | headless _ _ _ =>
    rw [cells_failWith]
    exact .inl (hsame n hn)
  | withheld _ _ _ _ =>
    rw [cells_failWith]
    exact .inl (hsame n hn)
  | @rejected _ _ head _ _ _ _ _ _ _ _ hk =>
    have hs := hm.onResponse (responseOf head) (x.hookState w) n hn
    rw [hk] at hs
    rw [cells_failWith]
    exact .inl hs
  | @responded _ _ head _ _ _ _ _ _ _ _ hk =>
    have hs := hm.onResponse (responseOf head) (x.hookState w) n hn
    rw [hk] at hs
    exact .inl hs
  | settled _ _ =>
    rw [cells_settle]
    exact .inl (hsame n hn)
  | pumped _ _ _ _ => exact .inl (hsame n hn)
  | @handled s s' state cells _ _ _ hs =>
    have hc := Streaming.counts_stepHandler h { s with turn := .handler } x.handler w.cells
    rw [hs] at hc
    exact .inl (Cells.shifts_of_eq hP hc n hn)
  | resume _ _ => exact .inl (hsame n hn)

theorem counts_step (hP : ∀ n, P n n) (hm : Minds P c R k) (hs : x.step c h w = some r) {n : Nat}
    (hn : w.cells.Counts k n) :
    (∃ m, P n m ∧ r.2.cells.Counts k m) ∨
      r.2.cells.Counts k (n + 1) ∧ x.phase.lease? = none ∧ r.1.phase.lease?.isSome = true := by
  obtain ⟨_, ⟨_, rfl⟩ | ⟨_, ha⟩⟩ := step_cases hs
  · rw [cells_interrupt]
    exact .inl ⟨n, hP n, hn⟩
  · exact ha.counts hP hm hn

/-! ## Failing with the stream gone -/

theorem outcome?_fail (hb : x.request.body.isReplayable w.cells = false) (e : Error) :
    (x.fail c h e w).1.outcome? = some (.error e) := by
  have hd : (x.tellException h e).decide c.policy e w = (.notRetryable, w) := by
    unfold Execution.decide
    exact if_neg fun h' => Bool.noConfusion (hb.symm.trans h')
  rw [fail_eq, hd]
  rfl

theorem isReplayable_of_fail (hf : (x.fail c h e w).1.isFinished = false) :
    x.request.body.isReplayable w.cells = true := by
  cases hb : x.request.body.isReplayable w.cells with
  | true => rfl
  | false =>
    have ho := outcome?_fail (c := c) (h := h) hb e
    cases hf.symm.trans (isFinished_of_phase (phase_of_outcome? ho))

theorem isReplayable_of_failWith {l : Lease κ}
    (hf : (x.failWith c h l e w).1.isFinished = false) :
    x.request.body.isReplayable w.cells = true :=
  isReplayable_of_fail (x := (x.discard c.network l w).1) (w := (x.discard c.network l w).2) hf

theorem isReplayable_of_settle {l : Lease κ} {result : Except Error BodyEnd}
    (hf : (x.settle c h l result w).1.isFinished = false) :
    x.request.body.isReplayable w.cells = true := by
  unfold settle at hf
  rcases result with e | _ | _
  · exact isReplayable_of_failWith hf
  · dsimp only at hf
    split at hf
    · cases hf
    · have hb := isReplayable_of_fail hf
      exact hb
  · cases hf

theorem Advance.isReplayable (ha : Advance c h x w r) (hx : x.phase.lease?.isSome = true)
    (hl : r.1.phase.lease? = none) (hf : r.1.isFinished = false) :
    x.request.body.isReplayable r.2.cells = true := by
  cases ha with
  | prepare hp => simp [hp, Phase.lease?] at hx
  | refused hp _ => simp [hp, Phase.lease?] at hx
  | unqueued hp _ _ => simp [hp, Phase.lease?] at hx
  | queued hp _ _ => simp [hp, Phase.lease?] at hx
  | acquiring hp _ _ => simp [hp, Phase.lease?] at hx
  | unacquired hp _ _ => simp [hp, Phase.lease?] at hx
  | leased hp _ _ => simp [hp, Phase.lease?] at hx
  | unsent _ _ _ =>
    rw [cells_failWith]
    exact isReplayable_of_failWith hf
  | sent _ _ _ => cases hl
  | expired _ _ =>
    rw [cells_failWith]
    exact isReplayable_of_failWith hf
  | headless _ _ _ =>
    rw [cells_failWith]
    exact isReplayable_of_failWith hf
  | @withheld _ _ head _ _ _ _ _ _ _ =>
    rw [cells_failWith]
    exact isReplayable_of_failWith (x := x.note (.answered head)) hf
  | @rejected _ _ head _ _ _ s _ _ _ _ _ =>
    rw [cells_failWith]
    exact isReplayable_of_failWith (x := (x.note (.answered head)).afterHooks s) hf
  | responded _ _ _ _ _ => cases hl
  | settled _ _ =>
    rw [cells_settle]
    exact isReplayable_of_settle hf
  | pumped _ _ _ _ => cases hl
  | handled _ _ _ _ => cases hl
  | resume hp _ => simp [hp, Phase.lease?] at hx

theorem failure_cases (hs : x.step c h w = some r) (hf : x.failure? c w = some e) :
    r.1.outcome? = some (.error e) ∨
      x.signal.aborted = false ∧ ∃ y v, Tells [] x y ∧ r = y.fail c h e v := by
  obtain ⟨_, ⟨hx, rfl⟩ | ⟨hx, ha⟩⟩ := step_cases hs
  · refine .inl ?_
    unfold failure? at hf
    rw [if_pos hx] at hf
    split at hf
    · cases hf
      exact outcome?_of_phase rfl
    · cases hf
  · have hfault : x.fault? c w = some e := by
      rw [← hf]
      simp [failure?, hx]
    refine .inr ⟨hx, ?_⟩
    cases ha.passage with
    | begins hp => cases (fault?_eq_none (by rw [hp]; rfl)).symm.trans hfault
    | goes _ _ _ _ hn => cases hn.symm.trans hfault
    | answered _ _ _ _ hn => cases hn.symm.trans hfault
    | @fails y v e' _ ht he =>
      cases he.symm.trans hfault
      exact ⟨y, v, ht, rfl⟩
    | succeeds _ _ _ _ hn => cases hn.symm.trans hfault
    | resumes hp => cases (fault?_eq_none (by rw [hp]; rfl)).symm.trans hfault

theorem lease?_of_failure (hs : x.step c h w = some r) (hf : x.failure? c w = some e) :
    r.1.phase.lease? = none := by
  obtain ho | ⟨_, y, v, _, rfl⟩ := failure_cases hs hf
  · rw [phase_of_outcome? ho]
    rfl
  · obtain ⟨_, hp⟩ | ⟨_, hp⟩ := phase_fail (c := c) (h := h) e y v
    all_goals
      rw [hp]
      rfl

theorem outcome?_of_failure (hs : x.step c h w = some r) (hf : x.failure? c w = some e)
    (hb : x.request.body.isReplayable r.2.cells = false) :
    r.1.outcome? = some (.error e) := by
  obtain ho | ⟨_, y, v, ht, rfl⟩ := failure_cases hs hf
  · exact ho
  · rw [cells_fail, ← ht.request] at hb
    exact outcome?_fail hb e

/-! ## The last attempt -/

theorem Continues.count_prepare (hx : Continues Event.isRemark x y) :
    (callbacks y.history).count .prepare = (callbacks x.history).count .prepare := by
  obtain ⟨es, he, hP⟩ := hx
  have hn : (callbacks es).count .prepare = 0 := by
    rw [List.count_eq_zero]
    intro hm
    obtain ⟨e, hm, hc⟩ := List.mem_filterMap.mp hm
    have hr := hP e hm
    cases e <;> simp_all [Event.callback?, Event.isRemark]
  rw [he, callbacks, List.filterMap_append, List.count_append]
  change _ + (callbacks es).count .prepare = _
  rw [hn]
  rfl

theorem Passage.of_spent (hp : Passage c h x w r) (hx : x.phase.inAttempt = true)
    (hb : x.request.body.isReplayable r.2.cells = false) :
    (callbacks r.1.history).count .prepare = (callbacks x.history).count .prepare ∧
      (r.1.isFinished = true ∨ r.1.phase.inAttempt = true ∧ r.1.request = x.request) := by
  have hsame {y : Execution κ η α} (ht : Tells [] x y) :
      (callbacks y.history).count .prepare = (callbacks x.history).count .prepare := by
    rw [ht.callbacks, List.append_nil]
  cases hp with
  | begins hp => simp [hp, Phase.inAttempt] at hx
  | goes _ hy _ ht _ => exact ⟨hsame ht, .inr ⟨hy, ht.request⟩⟩
  | @answered y _ _ _ _ _ hy ht _ =>
    refine ⟨?_, .inr ⟨?_, ht.request⟩⟩
    · rw [ht.callbacks, List.count_append]
      rfl
    · cases hp : y.phase with
      | streaming _ => rfl
      | _ => simp [hp, Phase.isAnswered] at hy
  | @fails y v e _ ht _ =>
    refine ⟨(ends_fail e y v).history.count_prepare.trans (hsame ht), .inl ?_⟩
    rw [cells_fail, ← ht.request] at hb
    exact isFinished_of_phase (phase_of_outcome? (outcome?_fail hb e))
  | @succeeds y v _ _ _ _ ht _ _ =>
    exact ⟨(ends_succeed y v).history.count_prepare.trans (hsame ht),
      .inl (isFinished_of_phase (phase_succeed h y))⟩
  | resumes hp => simp [hp, Phase.inAttempt] at hx

theorem step_of_spent (hs : x.step c h w = some r) (hx : x.phase.inAttempt = true)
    (hb : x.request.body.isReplayable r.2.cells = false) :
    (callbacks r.1.history).count .prepare = (callbacks x.history).count .prepare ∧
      (r.1.isFinished = true ∨ r.1.phase.inAttempt = true ∧ r.1.request = x.request) := by
  obtain ⟨_, ⟨_, rfl⟩ | ⟨_, ha⟩⟩ := step_cases hs
  · refine ⟨?_, .inl rfl⟩
    have hl : callbacks (x.letGo c.network w).1.history = callbacks x.history :=
      callbacks_letGo c.network x w
    rw [← hl]
    exact (ends_interrupted _ _ _ (x.letGo c.network w).2).history.count_prepare
  · exact ha.passage.of_spent hx hb

/-! ## Runs -/

variable {x₀ : Execution κ η α} {w₀ : World ω κ ξ} {s : ByteStream}

theorem counts_of_step (hm : Minds (· ≤ ·) c R k) (hs : x.step c h w = some r) {n : Nat}
    (hn : w.cells.Counts k n) : ∃ m, n ≤ m ∧ r.2.cells.Counts k m := by
  obtain ⟨m, hm, hc⟩ | ⟨hc, _⟩ := counts_step (fun _ => Nat.le_refl _) hm hs hn
  · exact ⟨m, hm, hc⟩
  · exact ⟨n + 1, n.le_succ, hc⟩

theorem Runs.counts (hm : Minds (· ≤ ·) c R k) (hr : Runs c h R (x₀, w₀) r) {n : Nat}
    (hn : w₀.cells.Counts k n) : ∃ m, n ≤ m ∧ r.2.cells.Counts k m := by
  induction hr with
  | refl => exact ⟨n, Nat.le_refl n, hn⟩
  | step _ hs ih =>
    obtain ⟨m, hnm, hc⟩ := ih
    obtain ⟨l, hml, hl⟩ := counts_of_step hm hs hc
    exact ⟨l, Nat.le_trans hnm hml, hl⟩
  | turn _ _ ih => exact ih
  | abort _ _ _ ih => exact ih
  | others _ ho ih =>
    obtain ⟨m, hnm, hc⟩ := ih
    obtain ⟨l, hml, hl⟩ := hm.others _ _ _ ho m hc
    exact ⟨l, Nat.le_trans hnm hml, hl⟩

/-- The attempt under way is the last if its body is gone, whoever has opened it. -/
theorem Runs.last_attempt (hm : Minds (· ≤ ·) c R k) (hr : Runs c h R (x, w) r)
    (hb : x.request.body = .streaming (.oneShot k s)) (hx : x.phase.inAttempt = true) {n : Nat}
    (hn : w.cells.Counts k n) (hpos : 0 < n) :
    (callbacks r.1.history).count .prepare = (callbacks x.history).count .prepare ∧
      (r.1.isFinished = true ∨ r.1.phase.inAttempt = true ∧ r.1.request = x.request) := by
  induction hr with
  | refl => exact ⟨rfl, .inr ⟨hx, rfl⟩⟩
  | @step y v r hr hs ih =>
    obtain ⟨hcount, hf | ⟨hi, hq⟩⟩ := ih
    · rw [step_of_isFinished hf] at hs
      cases hs
    · obtain ⟨m, hnm, hc⟩ := (hr.step hs).counts hm hn
      have hgone : y.request.body.isReplayable r.2.cells = false := by
        refine RequestBody.spent_oneShot (hq ▸ hb) ?_
        rw [hc.count]
        omega
      obtain ⟨hp, ho⟩ := step_of_spent hs hi hgone
      exact ⟨hp.trans hcount, ho.imp_right fun ⟨hi, hr⟩ => ⟨hi, hr.trans hq⟩⟩
  | @turn y v who _ ih =>
    rcases y.withTurn_cases who with he | ⟨s, _, he⟩
    · rwa [he]
    · rw [he]
      obtain ⟨hcount, hf | ⟨_, hq⟩⟩ := ih
      · simp_all [isFinished, Phase.isFinished]
      · exact ⟨hcount, .inr ⟨rfl, hq⟩⟩
  | abort _ _ _ ih => exact ih
  | others _ _ ih => exact ih

/-- Where nobody else opens the stream, it has been opened at most once, and only if there is or was
a connection to send it over. -/
def Unspent (k : Counter) (x : Execution κ η α) (w : World ω κ ξ) : Prop :=
  ∃ n, w.cells.Counts k n ∧ n ≤ 1 ∧ (x.phase.lease? = none → x.isFinished = false → n = 0)

theorem Runs.unspent (hm : Minds (· = ·) c R k) (hx : Fresh x₀)
    (hb : x₀.request.body = .streaming (.oneShot k s)) (hn : w₀.cells.Counts k 0)
    (hr : Runs c h R (x₀, w₀) r) : Unspent k r.1 r.2 := by
  induction hr with
  | refl => exact ⟨0, hn, Nat.zero_le 1, fun _ _ => rfl⟩
  | @step x w r hr hs ih =>
    obtain ⟨hf, hstep⟩ := step_cases hs
    obtain ⟨as, rest, hstory⟩ := hr.story hx hf
    obtain ⟨n, hc, hle, hz⟩ := ih
    obtain ⟨m, rfl, hc'⟩ | ⟨hc', hl, hl'⟩ := counts_step (fun _ => rfl) hm hs hc
    · refine ⟨n, hc', hle, fun hl hn => ?_⟩
      cases hx : x.phase.lease? with
      | none => exact hz hx hf
      | some l =>
        -- the connection has been let go, so there is another attempt to come
        obtain ⟨_, rfl⟩ | ⟨_, ha⟩ := hstep
        · cases hn
        · have hb' := ha.isReplayable (by rw [hx]; rfl) hl hn
          rw [RequestBody.isReplayable_oneShot (hstory.request ▸ hb), hc'.count] at hb'
          exact hb'
    · have hn := hz hl hf
      refine ⟨n + 1, hc', by omega, fun hl => ?_⟩
      rw [hl] at hl'
      cases hl'
  | @turn x w who _ ih =>
    obtain ⟨n, hc, hle, hz⟩ := ih
    rcases x.withTurn_cases who with he | ⟨s, _, he⟩
    · rw [he]
      exact ⟨n, hc, hle, hz⟩
    · rw [he]
      exact ⟨n, hc, hle, fun hl => nomatch hl⟩
  | abort _ _ _ ih => exact ih
  | @others x w w' _ ho ih =>
    obtain ⟨n, hc, hle, hz⟩ := ih
    obtain ⟨m, rfl, hc'⟩ := hm.others x w w' ho n hc
    exact ⟨n, hc', hle, hz⟩

theorem Runs.follows (hx : Fresh x₀) (hr : Runs c h R (x₀, w₀) (x, w))
    (hs : x.step c h w = some r) (hf : x.failure? c w = some e) (ha : x.signal.aborted = false)
    (hb : x₀.request.body.isReplayable r.2.cells = true) : Follows c.policy x e r.1 := by
  obtain ⟨as, rest, hstory⟩ := hr.story hx (step_cases hs).1
  have hfault : x.fault? c w = some e := by
    rw [← hf]
    simp [failure?, ha]
  exact (hstory.follows ha hs hb hfault).2

/-- A body that can be opened once is sent at most once, whatever the policy, the server and aborts
do. If it has been opened, the attempt under way is the last. An attempt that fails is followed by
what the policy says as long as the body has not been opened; if it has, the error of the attempt is
the outcome as it is. Where nobody else opens it, it is opened at most once, and an attempt that
fails with no connection leased is followed by what the policy says. -/
theorem one_shot_sent_once {c : Client ω κ ξ} {h : Handler η α}
    {R : Execution κ η α → World ω κ ξ → World ω κ ξ → Prop} {x₀ x : Execution κ η α}
    {w₀ w : World ω κ ξ} {k : Counter} {s : ByteStream} (hx : x₀.Fresh)
    (hb : x₀.request.body = .streaming (.oneShot k s)) (hk : k.index < w₀.cells.counts.length)
    (hm : Minds (· ≤ ·) c R k) (hr : Runs c h R (x₀, w₀) (x, w)) :
    (x.phase.inAttempt = true → 0 < w.cells.count k → ∀ r, Runs c h R (x, w) r →
      (callbacks r.1.history).count .prepare = (callbacks x.history).count .prepare) ∧
    (∀ r e, x.step c h w = some r → x.failure? c w = some e →
      (r.2.cells.count k = 0 → x.signal.aborted = false → Follows c.policy x e r.1) ∧
      (0 < r.2.cells.count k → r.1.outcome? = some (.error e))) ∧
    (Minds (· = ·) c R k → w₀.cells.count k = 0 → w.cells.count k ≤ 1 ∧
      ∀ r e, x.step c h w = some r → x.failure? c w = some e → x.phase.lease? = none →
        x.signal.aborted = false → Follows c.policy x e r.1) := by
  have hfollows {r : Execution κ η α × World ω κ ξ} {e : Error} (hs : x.step c h w = some r)
      (hf : x.failure? c w = some e) (ha : x.signal.aborted = false)
      (hz : r.2.cells.count k = 0) : Follows c.policy x e r.1 :=
    hr.follows hx hs hf ha ((RequestBody.isReplayable_oneShot hb _).mpr hz)
  refine ⟨fun hi hpos r hr' => ?_, fun r e hs hf => ⟨fun hz ha => hfollows hs hf ha hz, ?_⟩, ?_⟩
  · obtain ⟨as, rest, hstory⟩ := hr.story hx (isFinished_of_inAttempt hi)
    obtain ⟨n, -, hn⟩ := hr.counts hm (Cells.counts_of_lt hk)
    rw [hn.count] at hpos
    exact (hr'.last_attempt hm (hstory.request ▸ hb) hi hn hpos).1
  · intro hpos
    obtain ⟨as, rest, hstory⟩ := hr.story hx (step_cases hs).1
    exact outcome?_of_failure hs hf (RequestBody.spent_oneShot (hstory.request ▸ hb) hpos)
  · intro hm' hz
    have hn : w₀.cells.Counts k 0 := hz ▸ Cells.counts_of_lt hk
    obtain ⟨n, hc, hle, hzero⟩ := hr.unspent hm' hx hb hn
    refine ⟨by rw [hc.count]; exact hle, fun r e hs hf hl ha => hfollows hs hf ha ?_⟩
    obtain rfl := hzero hl (step_cases hs).1
    obtain ⟨m, rfl, hc'⟩ | ⟨_, _, hl'⟩ := counts_step (fun _ => rfl) hm' hs hc
    · exact hc'.count
    · rw [lease?_of_failure hs hf] at hl'
      cases hl'

end Execution

/-! ## Hooks and networks that open nothing -/

theorem Interceptor.counts_runHooks {hooks : List (Hook ξ α)}
    (hh : ∀ f ∈ hooks, ∀ m s, (f m s).2.cells.counts = s.cells.counts) (m : α) (s : HookState ξ) :
    (runHooks hooks m s).2.cells.counts = s.cells.counts := by
  induction hooks generalizing m s with
  | nil => rfl
  | cons f hooks ih =>
    have hf := hh f List.mem_cons_self m s
    unfold runHooks
    generalize f m s = q at hf ⊢
    obtain ⟨e | m, s'⟩ := q
    · exact hf
    · exact (ih (fun g hg => hh g (List.mem_cons_of_mem f hg)) m s').trans hf

namespace Rehearsal

theorem counts_send (head : RequestHead) (body : Option ByteStream) (l : Line) (s : Stage)
    (c : Cells) : (network.send head body l s c).cells.counts = c.counts := by
  have hbody : (Stage.bodyOf body c).2.counts = c.counts := by
    cases body with
    | none => rfl
    | some body => exact ByteStream.kept_readAll Cells.ignores_counts body c
  change (Stage.send head body l s c).cells.counts = _
  unfold Stage.send
  split
  · rfl
  · rcases hb : Stage.bodyOf body c with ⟨_ | _, _⟩
    all_goals
      rw [hb] at hbody
      exact hbody

def streamedPut (chunks : List Bytes) : Request :=
  { plainGet with method := .put, body := .streaming (.oneShot ⟨0⟩ (.ofChunks chunks)) }

/-- A client that retries whatever went wrong and checks its uploads. -/
def stubbornClient : Client Stage Line Unit :=
  { scriptedClient ⟨[Integrity.interceptor .enabled]⟩ with policy := ⟨.always, .none, 5⟩ }

/-- An upload whose first connection is refused and whose second is answered so, after so many
steps. -/
def refusedPut (chunks : List Bytes) (reply : Reply) (steps : Nat) :
    Execution Line Buffering BufferedResponse × World Stage Line Unit :=
  Execution.walk stubbornClient Buffering.handler steps
    (.start (streamedPut chunks) .start (Attributes.empty.put .operationKind .upload),
      { scripted [reply] with
        outside := { Stage.empty with script := [reply], refusals := 1 }
        cells := ⟨[], [0]⟩ })

end Rehearsal

namespace Execution

open Rehearsal (stubbornClient refusedPut)

theorem minds_of_counts {c : Client ω κ ξ}
    {R : Execution κ η α → World ω κ ξ → World ω κ ξ → Prop}
    (hq : ∀ i ∈ c.chain.interceptors, ∀ q s, (i.onRequest q s).2.cells.counts = s.cells.counts)
    (hp : ∀ i ∈ c.chain.interceptors, ∀ p s, (i.onResponse p s).2.cells.counts = s.cells.counts)
    (hs : ∀ head body l o (cells : Cells),
      (c.network.send head body l o cells).cells.counts = cells.counts)
    (hR : ∀ x w w', R x w w' → w'.cells.counts = w.cells.counts) (k : Counter) :
    Minds (· = ·) c R k where
  onRequest q s := Cells.shifts_of_eq (fun _ => rfl)
    (Interceptor.counts_runHooks (List.forall_mem_map.mpr hq) q s)
  onResponse q s := Cells.shifts_of_eq (fun _ => rfl)
    (Interceptor.counts_runHooks
      (List.forall_mem_map.mpr fun i hi => hp i (List.mem_reverse.mp hi)) q s)
  send head body l o cells := Cells.shifts_of_eq (fun _ => rfl) (hs head body l o cells)
  others x w w' hr := Cells.shifts_of_eq (fun _ => rfl) (hR x w w' hr)

theorem minds_stubbornClient (k : Counter) :
    Minds (· = ·) stubbornClient (fun (_ : Execution Rehearsal.Line η α) _ _ => False) k := by
  have hi : stubbornClient.chain.interceptors = [Integrity.interceptor .enabled] := rfl
  refine minds_of_counts ?_ ?_ Rehearsal.counts_send (fun _ _ _ hr => hr.elim) k
  · intro i hm q s
    rw [hi, List.mem_singleton] at hm
    subst hm
    exact Integrity.counts_onRequest .enabled q s
  · intro i hm p s
    rw [hi, List.mem_singleton] at hm
    subst hm
    exact congrArg (fun s => s.cells.counts) (Integrity.state_onResponse .enabled p s)

/-- The refused attempt is followed by another, which sends the body. It is busy there, and although
retries are left there is no third. -/
theorem one_shot_sent_once_refused_put :
    let q := refusedPut [[1], [2]] (.ofStatus 503 "Busy")
    let prepared (x : Execution Rehearsal.Line Buffering BufferedResponse) :=
      (callbacks x.history).count .prepare
    prepared (q 10).1 = 2 ∧ (q 10).2.cells.count ⟨0⟩ = 1 ∧
      (∀ r, (q 3).1.step stubbornClient Buffering.handler (q 3).2 = some r →
        Follows stubbornClient.policy (q 3).1 (Rehearsal.Stage.refused Rehearsal.origin) r.1) ∧
      (∀ r, (q 10).1.step stubbornClient Buffering.handler (q 10).2 = some r →
        r.1.outcome? = some (.error (.status 503 "Busy"))) ∧
      ∀ r, Runs stubbornClient Buffering.handler (fun _ _ _ => False) (q 10) r →
        prepared r.1 = 2 := by
  intro q prepared
  have hm : Minds (· = ·) stubbornClient
      (fun (_ : Execution Rehearsal.Line Buffering BufferedResponse) _ _ => False) ⟨0⟩ :=
    minds_stubbornClient ⟨0⟩
  have hm' := hm.mono (Q := (· ≤ ·)) fun _ _ he => Nat.le_of_eq he
  have hcounts : prepared (q 10).1 = 2 ∧ (q 10).2.cells.count ⟨0⟩ = 1 := by decide +kernel
  have hfailures : (q 3).1.failure? stubbornClient (q 3).2 =
        some (Rehearsal.Stage.refused Rehearsal.origin) ∧
      (q 10).1.failure? stubbornClient (q 10).2 = some (.status 503 "Busy") := by
    decide +kernel
  have hq (n : Nat) : Runs stubbornClient Buffering.handler (fun _ _ _ => False) (q 0) (q n) :=
    runs_walk n _
  have hone (n : Nat) := one_shot_sent_once (x := (q n).1) (w := (q n).2) (fresh_start _ _ _) rfl
    (by decide) hm' (hq n)
  refine ⟨hcounts.1, hcounts.2, fun r hs => ?_, fun r hs => ?_, fun r hr => ?_⟩
  · exact ((hone 3).2.2 hm rfl).2 r _ hs hfailures.1 (by decide +kernel) (by decide +kernel)
  · refine ((hone 10).2.1 r _ hs hfailures.2).2 ?_
    obtain ⟨m, hle, hc⟩ := counts_of_step hm' hs (Cells.counts_of_lt (by decide +kernel))
    rw [hc.count]
    exact Nat.lt_of_lt_of_le (by decide +kernel) hle
  · refine ((hone 10).1 (by decide +kernel) (by decide +kernel) r hr).trans hcounts.1

end Execution

end Courier
