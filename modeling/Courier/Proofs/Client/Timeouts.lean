import Courier.Proofs.Client.Fidelity
import Courier.Proofs.Pool.Timeouts

/-! # The socket timeout

An execution waits for the head of a response, and then for each chunk of its body, no longer than
the pool it draws on is configured for. The configuration stays the same whatever becomes of the
execution, and whatever others do with the pool.
-/

namespace Courier

variable {ω κ ξ η α : Type}

/-- Others have moved the pool as acquisitions, leases and closings do. -/
def World.Shared (net : Network ω κ) (w w' : World ω κ ξ) : Prop :=
  ∃ d d' : Depot ω κ, d.pool = w.pool ∧ d'.pool = w'.pool ∧ Depot.Steps net d d'

namespace Execution

variable {c : Client ω κ ξ} {h : Handler η α} {x : Execution κ η α} {w : World ω κ ξ}
  {r : Execution κ η α × World ω κ ξ}

/-! ## The configuration is kept -/

theorem config_failWith (l : Lease κ) (e : Error) (x : Execution κ η α) (w : World ω κ ξ) :
    (x.failWith c h l e w).2.pool.config = w.pool.config := by
  unfold failWith
  dsimp only
  rw [(ends_fail e _ _).pool]
  rfl

theorem config_settle (l : Lease κ) (result : Except Error BodyEnd) (x : Execution κ η α)
    (w : World ω κ ξ) : (x.settle c h l result w).2.pool.config = w.pool.config := by
  unfold settle
  rcases result with e | _ | _
  · exact config_failWith l e x w
  · dsimp only
    rcases hl : w.pool.release c.network l w.outside with ⟨e | ⟨⟩, pool, outside⟩
    · rw [(ends_fail _ _ _).pool]
      exact (Pool.constant_release hl).config
    · exact (Pool.constant_release hl).config
  · rfl

theorem config_letGo (net : Network ω κ) (x : Execution κ η α) (w : World ω κ ξ) :
    (x.letGo net w).2.pool.config = w.pool.config := by
  unfold letGo
  split
  · exact (Acquisition.constant_drop _ _ _).config
  · split <;> rfl

theorem config_kill (net : Network ω κ) (x : Execution κ η α) (w : World ω κ ξ) :
    (x.kill net w).2.pool.config = w.pool.config := by
  unfold kill
  split
  · rfl
  · exact config_letGo net x w

theorem Advance.config (ha : Advance c h x w r) : r.2.pool.config = w.pool.config := by
  cases ha with
  | prepare => rfl
  | refused => rw [(ends_fail _ _ _).pool]; rfl
  | unqueued => rw [(ends_fail _ _ _).pool]; rfl
  | queued _ _ ha => exact Acquisition.config_start ha
  | acquiring _ _ ha => exact (Acquisition.constant_poll ha).config
  | unacquired _ _ ha =>
    rw [(ends_fail _ _ _).pool]
    exact (Acquisition.constant_poll ha).config
  | leased _ _ ha => exact (Acquisition.constant_poll ha).config
  | unsent => exact config_failWith _ _ _ _
  | sent => rfl
  | expired => exact config_failWith _ _ _ _
  | headless => exact config_failWith _ _ _ _
  | withheld => exact config_failWith _ _ _ _
  | rejected => exact config_failWith _ _ _ _
  | responded => rfl
  | settled => exact config_settle _ _ _ _
  | pumped => rfl
  | handled => rfl
  | resume => rfl

theorem config_step (hs : x.step c h w = some r) : r.2.pool.config = w.pool.config := by
  obtain ⟨-, ⟨-, rfl⟩ | ⟨-, ha⟩⟩ := step_cases hs
  · exact config_letGo c.network x w
  · exact ha.config

theorem Moves.config {r₀ : Execution κ η α × World ω κ ξ}
    (hr : Moves c h (fun _ => World.Shared c.network) r₀ r) :
    r.2.pool.config = r₀.2.pool.config := by
  induction hr with
  | refl => rfl
  | tail _ hm ih =>
    refine Eq.trans ?_ ih
    cases hm with
    | step hs => exact config_step hs
    | turn => rfl
    | abort => rfl
    | kill => exact config_kill _ _ _
    | others ho =>
      obtain ⟨d, d', hd, hd', hs⟩ := ho
      rw [← hd, ← hd']
      exact hs.config

/-! ## Waits -/

/-- What is waited for comes off the connection. -/
inductive Waits : Phase κ α → Wait → Prop
  | head {l : Lease κ} {wait : Wait} : Waits (.awaiting l wait) wait
  | chunk {s : Streaming κ} {wait : Wait} (hp : s.pump = .reading wait) : Waits (.streaming s) wait

theorem pump_start (net : Network ω κ) (now limit : Nat) (l : Lease κ) (body : ResponseBody)
    (outside : ω) : (Streaming.start net now limit l body outside).pump =
      .reading (.start now (net.chunkDelay l.connection outside) limit) := by
  cases body <;> rfl

theorem reading_stepPump {net : Network ω κ} {now limit : Nat} {s s' : Streaming κ}
    {read : Option (Except Error (Option Bytes))} {outside outside' : ω} {wait : Wait}
    (hs : s.stepPump net now limit outside = (read, s', outside')) (hp : s'.pump = .reading wait) :
    s.pump = .reading wait ∨ ∃ delay, wait = .start now delay limit := by
  obtain rfl : (s.stepPump net now limit outside).2.1 = s' := by rw [hs]
  clear hs
  unfold Streaming.stepPump at hp
  split at hp
  · exact .inl hp
  · split at hp
    · exact .inl hp
    · cases hp
      exact .inr ⟨_, rfl⟩
    · cases hp
  · split at hp
    · cases hp
    · split at hp
      · exact .inl hp
      · cases hp
      · unfold Streaming.readChunk at hp
        dsimp only at hp
        split at hp <;> cases hp

theorem Ends.not_waits {y : Execution κ η α} {v : World ω κ ξ} (he : Ends y v r) (wait : Wait) :
    ¬ Waits r.1.phase wait := by
  rcases he.phase with ⟨_, hp⟩ | ⟨_, hp⟩
  all_goals
    rw [hp]
    rintro ⟨⟩

/-- Whatever is waited for after a step has been waited for before it, or from now on. -/
theorem Advance.waits (ha : Advance c h x w r) {wait : Wait} (hw : Waits r.1.phase wait) :
    Waits x.phase wait ∨ ∃ delay, wait = .start w.now delay w.pool.config.socketMillis := by
  cases ha with
  | prepare => cases hw
  | refused => exact absurd hw ((ends_fail _ _ _).not_waits wait)
  | unqueued => exact absurd hw ((ends_fail _ _ _).not_waits wait)
  | queued => cases hw
  | acquiring => cases hw
  | unacquired => exact absurd hw ((ends_fail _ _ _).not_waits wait)
  | leased => cases hw
  | unsent => exact absurd hw ((ends_fail _ _ _).not_waits wait)
  | sent =>
    cases hw
    exact .inr ⟨_, rfl⟩
  | expired => exact absurd hw ((ends_fail _ _ _).not_waits wait)
  | headless => exact absurd hw ((ends_fail _ _ _).not_waits wait)
  | withheld => exact absurd hw ((ends_fail _ _ _).not_waits wait)
  | rejected => exact absurd hw ((ends_fail _ _ _).not_waits wait)
  | responded =>
    cases hw with
    | chunk hp =>
      cases (pump_start _ _ _ _ _ _).symm.trans hp
      exact .inr ⟨_, rfl⟩
  | settled =>
    obtain ⟨_, _, he⟩ := ends_settle c h _ _ x w
    exact absurd hw (he.not_waits wait)
  | @pumped s s' read outside hx _ _ hs =>
    cases hw with
    | chunk hp =>
      rw [hx]
      exact (reading_stepPump hs hp).imp_left .chunk
  | @handled s s' state cells hx _ _ hs =>
    cases hw with
    | chunk hp =>
      have hkept := Streaming.pump_stepHandler h { s with turn := .handler } x.handler w.cells
      rw [hs] at hkept
      rw [hx]
      exact .inl (.chunk (hkept.symm.trans hp))
  | resume => cases hw

theorem waits_step (hs : x.step c h w = some r) {wait : Wait} (hw : Waits r.1.phase wait) :
    Waits x.phase wait ∨ ∃ delay, wait = .start w.now delay w.pool.config.socketMillis := by
  obtain ⟨-, ⟨-, rfl⟩ | ⟨-, ha⟩⟩ := step_cases hs
  · obtain ⟨_, _, he⟩ := ends_interrupt c h x w
    exact absurd hw (he.not_waits wait)
  · exact ha.waits hw

/-! ## How a wait ends -/

variable {begun limit : Nat} {delay : Option Nat}

theorem step_awaiting {l : Lease κ} (hp : x.phase = .awaiting l (.start begun delay limit))
    (ha : x.signal.aborted = false) :
    x.step c h w =
      if delay.any (begun + · ≤ w.now) then some (x.readHead c h l w)
      else if begun + limit ≤ w.now then
        some (x.failWith c h l (.socketTimeout w.pool.config.socketMillis duringHead) w)
      else none := by
  have hs := Wait.status_start begun delay limit w.now
  have hf : x.isFinished = false := by simp [isFinished, hp, Phase.isFinished]
  unfold step
  rw [hf, ha, if_neg Bool.false_ne_true, if_neg Bool.false_ne_true, hp]
  dsimp only
  by_cases hd : delay.any (begun + · ≤ w.now) = true
  · rw [if_pos hd] at hs ⊢
    rw [hs]
  · rw [if_neg hd] at hs ⊢
    by_cases hl : begun + limit ≤ w.now
    · rw [if_pos hl] at hs ⊢
      rw [hs]
    · rw [if_neg hl] at hs ⊢
      rw [hs]

/-- A chunk of the body is waited for, and neither side has let go of it. -/
structure Reads (x : Execution κ η α) (s : Streaming κ) (wait : Wait) : Prop where
  phase : x.phase = .streaming s
  pump : s.pump = .reading wait
  cancelled : s.channel.watchCancelled.1 = false
  aborted : x.signal.aborted = false

variable {s : Streaming κ} {wait : Wait}

theorem Reads.outcome?_eq (hr : x.Reads s wait) : s.outcome? = none := by
  simp [Streaming.outcome?, hr.pump]

theorem Reads.step_eq (hr : x.Reads s wait) : x.step c h w = x.stream c h s w := by
  have hf : x.isFinished = false := by simp [isFinished, hr.phase, Phase.isFinished]
  unfold step
  rw [hf, hr.aborted, if_neg Bool.false_ne_true, if_neg Bool.false_ne_true, hr.phase]

theorem stepPump_expired (net : Network ω κ) {now : Nat} (hp : s.pump = .reading wait)
    (hc : s.channel.watchCancelled.1 = false) (hs : wait.status now = .expired) (limit : Nat)
    (outside : ω) :
    ∃ s', s.stepPump net now limit outside = (none, s', outside) ∧
      s'.pump = .ended (.error (.socketTimeout limit Streaming.duringBody)) := by
  rcases hw : s.channel.watchCancelled with ⟨_ | _, channel⟩
  · simp only [Streaming.stepPump, hp, hw, hs]
    exact ⟨_, rfl, rfl⟩
  · rw [hw] at hc
    cases hc

theorem stepPump_pending (net : Network ω κ) {now : Nat} (hp : s.pump = .reading wait)
    (hc : s.channel.watchCancelled.1 = false) (hs : wait.status now = .pending) (limit : Nat)
    (outside : ω) : (s.stepPump net now limit outside).2.1.pump = .reading wait := by
  rcases hw : s.channel.watchCancelled with ⟨_ | _, channel⟩
  · simp only [Streaming.stepPump, hp, hw, hs]
  · rw [hw] at hc
    cases hc

theorem step_reading_expired (hr : x.Reads s (.start begun delay limit)) (ht : s.turn = .pump)
    (hd : delay.any (begun + · ≤ w.now) = false) (hl : begun + limit ≤ w.now) :
    ∃ s', x.step c h w = some ({ x with phase := .streaming s' }, w) ∧
      s'.pump = .ended (.error (.socketTimeout w.pool.config.socketMillis
        Streaming.duringBody)) := by
  have hs : (Wait.start begun delay limit).status w.now = .expired := by
    rw [Wait.status_start, hd, if_neg Bool.false_ne_true, if_pos hl]
  have hnext : s.next? h x.handler w.now = some .pump := by
    simp [Streaming.next?, ht, Streaming.isBlocked, Streaming.isPumpBlocked, hr.pump, hs]
  obtain ⟨s', hpump, hend⟩ := stepPump_expired c.network hr.pump hr.cancelled hs
    w.pool.config.socketMillis w.outside
  refine ⟨s', ?_, hend⟩
  have hturn : { s with turn := .pump } = s := by rw [← ht]
  rw [hr.step_eq, stream, hr.outcome?_eq, hnext]
  dsimp only
  rw [hturn, hpump]
  rfl

theorem step_reading_pending (hr : x.Reads s (.start begun delay limit))
    (hd : delay.any (begun + · ≤ w.now) = false) (hl : w.now < begun + limit)
    (hs : x.step c h w = some r) : Waits r.1.phase (.start begun delay limit) := by
  have hw : (Wait.start begun delay limit).status w.now = .pending := by
    rw [Wait.status_start, hd, if_neg Bool.false_ne_true, if_neg (Nat.not_le.mpr hl)]
  rw [hr.step_eq, stream, hr.outcome?_eq] at hs
  dsimp only at hs
  split at hs
  · cases hs
  · cases hs
    exact .chunk (stepPump_pending (s := { s with turn := .pump }) _ hr.pump hr.cancelled hw _ _)
  · cases hs
    exact .chunk ((Streaming.pump_stepHandler h _ _ _).trans hr.pump)

/-- So long an execution waits for anything that comes off the connection, and no longer. -/
structure Times (c : Client ω κ ξ) (h : Handler η α) (socket : Nat) (x : Execution κ η α)
    (w : World ω κ ξ) : Prop where
  begins : ∀ {r}, x.step c h w = some r → ∀ {wait}, Waits r.1.phase wait →
    Waits x.phase wait ∨ ∃ delay, wait = .start w.now delay socket
  head : ∀ {l begun delay}, x.phase = .awaiting l (.start begun delay socket) →
    x.signal.aborted = false → x.step c h w =
      if delay.any (begun + · ≤ w.now) then some (x.readHead c h l w)
      else if begun + socket ≤ w.now then
        some (x.failWith c h l (.socketTimeout socket duringHead) w)
      else none
  expires : ∀ {s begun delay}, x.Reads s (.start begun delay socket) → s.turn = .pump →
    delay.any (begun + · ≤ w.now) = false → begun + socket ≤ w.now →
      ∃ s', x.step c h w = some ({ x with phase := .streaming s' }, w) ∧
        s'.pump = .ended (.error (.socketTimeout socket Streaming.duringBody))
  lasts : ∀ {s begun delay}, x.Reads s (.start begun delay socket) →
    delay.any (begun + · ≤ w.now) = false → w.now < begun + socket →
      ∀ r, x.step c h w = some r → Waits r.1.phase (.start begun delay socket)

theorem times (c : Client ω κ ξ) (h : Handler η α) (x : Execution κ η α) (w : World ω κ ξ) :
    x.Times c h w.pool.config.socketMillis w where
  begins := waits_step
  head := step_awaiting
  expires := step_reading_expired
  lasts hr hd hl _ hs := step_reading_pending hr hd hl hs

end Execution

end Courier
