import Courier.Stream.Channel

/-! # Operations on a channel

What each operation leaves alone, and what it does to the demand, the queue and the chunks still in
memory. Every later argument about channels goes through these equations.
-/

namespace Courier

namespace Wake

@[simp] theorem isAsleep_notify (w : Wake) : w.notify.isAsleep = false := by
  unfold notify isAsleep
  cases h : w.waiter <;> simp

@[simp] theorem isAsleep_leave (w : Wake) : w.leave.isAsleep = false := by
  unfold leave isAsleep
  cases w.waiter <;> rfl

end Wake

namespace Channel

/-- The chunks of an in-memory source that have not been moved to the queue. -/
def unmoved (ch : Channel) : List Bytes :=
  ch.source.getD []

/-- Demand that is outstanding or has been spent on a chunk in the queue. -/
def load (ch : Channel) : Nat :=
  ch.demand + ch.queue.length

/-- Nothing to be read, nothing asked for, and no end in sight: here a pull grants a unit. -/
def isDry (ch : Channel) : Bool :=
  ch.queue.isEmpty && ch.terminal.isNone && ch.demand = 0 && !ch.cancelled

/-! ## Moving chunks from memory -/

theorem drainSource_of_none {ch : Channel} (h : ch.source = none) : ch.drainSource = ch := by
  simp [drainSource, h]

@[simp] theorem cancelled_drainSource (ch : Channel) :
    ch.drainSource.cancelled = ch.cancelled := by
  unfold drainSource
  split <;> rfl

@[simp] theorem subscribed_drainSource (ch : Channel) :
    ch.drainSource.subscribed = ch.subscribed := by
  unfold drainSource
  split <;> rfl

@[simp] theorem producer_drainSource (ch : Channel) : ch.drainSource.producer = ch.producer := by
  unfold drainSource
  split <;> rfl

@[simp] theorem load_drainSource (ch : Channel) : ch.drainSource.load = ch.load := by
  unfold drainSource load
  split
  · rfl
  · simp only [List.length_append, List.length_take]
    omega

theorem demand_drainSource (ch : Channel) :
    ch.drainSource.demand + ch.unmoved.length = ch.demand + ch.drainSource.unmoved.length := by
  unfold drainSource unmoved
  split
  · rfl
  · rename_i source h
    simp only [h, Option.getD_some, List.length_take, List.length_drop]
    omega

/-! ## Granting -/

@[simp] theorem cancelled_grant (ch : Channel) (n : Nat) :
    (ch.grant n).cancelled = ch.cancelled := by
  unfold grant
  split <;> simp

@[simp] theorem subscribed_grant (ch : Channel) (n : Nat) :
    (ch.grant n).subscribed = ch.subscribed := by
  unfold grant
  split <;> simp

theorem source_grant {ch : Channel} (n : Nat) (h : ch.source = none) :
    (ch.grant n).source = none := by
  unfold grant
  split
  · exact h
  · simp [drainSource_of_none, h]

theorem queue_grant {ch : Channel} (n : Nat) (h : ch.source = none) :
    (ch.grant n).queue = ch.queue := by
  unfold grant
  split
  · rfl
  · simp [drainSource_of_none, h]

theorem terminal_grant {ch : Channel} (n : Nat) (h : ch.source = none) :
    (ch.grant n).terminal = ch.terminal := by
  unfold grant
  split
  · rfl
  · simp [drainSource_of_none, h]

theorem isAsleep_producer_grant {ch : Channel} (n : Nat) (h : ch.producer.isAsleep = false) :
    (ch.grant n).producer.isAsleep = false := by
  unfold grant
  split
  · exact h
  · simp

theorem load_grant_le (ch : Channel) (n : Nat) : (ch.grant n).load ≤ ch.load + n := by
  unfold grant
  split
  · omega
  · change (drainSource _).load ≤ _
    rw [load_drainSource]
    simp only [load]
    omega

theorem load_grant {ch : Channel} {n : Nat} (h : ch.cancelled = false)
    (hn : ch.demand + n ≤ maxDemand) : (ch.grant n).load = ch.load + n := by
  unfold grant
  split
  · rename_i h0
    simp only [h, Bool.or_false, decide_eq_true_eq] at h0
    omega
  · change (drainSource _).load = _
    rw [load_drainSource]
    simp only [load]
    omega

theorem demand_grant_le (ch : Channel) (n : Nat) :
    (ch.grant n).demand + ch.unmoved.length ≤ ch.demand + n + (ch.grant n).unmoved.length := by
  unfold grant
  split
  · omega
  · have h := demand_drainSource { ch with demand := min (ch.demand + n) maxDemand }
    simp only [unmoved] at h ⊢
    omega

/-! ## Granting a unit where nothing is there -/

/-- The channel as a reading finds it once a pull has had the chance to grant. -/
def primed (auto : Bool) (ch : Channel) : Channel :=
  if auto then ch.topUp else ch

/-- What a reading grants before it looks. -/
def ownGrant (auto : Bool) (ch : Channel) : Nat :=
  if auto && ch.isDry then 1 else 0

theorem topUp_of_isDry {ch : Channel} (h : ch.isDry = true) :
    ch.topUp = { ({ ch with demand := 1 } : Channel).drainSource with
      producer := ch.producer.notify } := by
  have h' := h
  unfold isDry at h'
  unfold topUp
  rw [if_pos h']
  simp

theorem topUp_of_not_isDry {ch : Channel} (h : ch.isDry = false) : ch.topUp = ch := by
  unfold isDry at h
  unfold topUp
  rw [if_neg (by simp [h])]

theorem primed_cases (auto : Bool) (ch : Channel) :
    (ch.ownGrant auto = 0 ∧ ch.primed auto = ch) ∨
      (auto = true ∧ ch.isDry = true ∧ ch.ownGrant auto = 1 ∧
        ch.primed auto = { ({ ch with demand := 1 } : Channel).drainSource with
          producer := ch.producer.notify }) := by
  cases auto with
  | false => exact .inl ⟨rfl, rfl⟩
  | true =>
    cases h : ch.isDry with
    | false => exact .inl ⟨by simp [ownGrant, h], by simp [primed, topUp_of_not_isDry h]⟩
    | true => exact .inr ⟨rfl, rfl, by simp [ownGrant, h], by simp [primed, topUp_of_isDry h]⟩

@[simp] theorem cancelled_primed (auto : Bool) (ch : Channel) :
    (ch.primed auto).cancelled = ch.cancelled := by
  rcases ch.primed_cases auto with ⟨_, h⟩ | ⟨_, _, _, h⟩ <;> simp [h]

@[simp] theorem subscribed_primed (auto : Bool) (ch : Channel) :
    (ch.primed auto).subscribed = ch.subscribed := by
  rcases ch.primed_cases auto with ⟨_, h⟩ | ⟨_, _, _, h⟩ <;> simp [h]

theorem load_primed (auto : Bool) (ch : Channel) :
    (ch.primed auto).load = ch.load + ch.ownGrant auto := by
  rcases ch.primed_cases auto with ⟨h0, h⟩ | ⟨_, hdry, h1, h⟩
  · simp [h0, h]
  · rw [h1, h]
    simp only [isDry, Bool.and_eq_true, decide_eq_true_eq] at hdry
    change (drainSource _).load = _
    rw [load_drainSource]
    simp only [load, hdry.1.2]
    omega

theorem demand_primed (auto : Bool) (ch : Channel) :
    (ch.primed auto).demand + ch.unmoved.length =
      ch.demand + ch.ownGrant auto + (ch.primed auto).unmoved.length := by
  rcases ch.primed_cases auto with ⟨h0, h⟩ | ⟨_, hdry, h1, h⟩
  · simp [h0, h]
  · rw [h1, h]
    simp only [isDry, Bool.and_eq_true, decide_eq_true_eq] at hdry
    have hd := demand_drainSource { ch with demand := 1 }
    simp only [unmoved] at hd ⊢
    omega

theorem source_primed {auto : Bool} {ch : Channel} (h : ch.source = none) :
    (ch.primed auto).source = none := by
  rcases ch.primed_cases auto with ⟨_, hp⟩ | ⟨_, _, _, hp⟩ <;> simp [hp, drainSource_of_none, h]

theorem queue_primed {auto : Bool} {ch : Channel} (h : ch.source = none) :
    (ch.primed auto).queue = ch.queue := by
  rcases ch.primed_cases auto with ⟨_, hp⟩ | ⟨_, _, _, hp⟩ <;> simp [hp, drainSource_of_none, h]

theorem terminal_primed {auto : Bool} {ch : Channel} (h : ch.source = none) :
    (ch.primed auto).terminal = ch.terminal := by
  rcases ch.primed_cases auto with ⟨_, hp⟩ | ⟨_, _, _, hp⟩ <;> simp [hp, drainSource_of_none, h]

theorem isAsleep_producer_primed {auto : Bool} {ch : Channel}
    (h : ch.producer.isAsleep = false) : (ch.primed auto).producer.isAsleep = false := by
  rcases ch.primed_cases auto with ⟨_, hp⟩ | ⟨_, _, _, hp⟩ <;> simp [hp, h]

/-! ## Cancelling -/

@[simp] theorem cancelled_cancel (ch : Channel) : ch.cancel.cancelled = true := by
  unfold cancel
  split
  · assumption
  · rfl

@[simp] theorem subscribed_cancel (ch : Channel) : ch.cancel.subscribed = ch.subscribed := by
  unfold cancel
  split <;> rfl

@[simp] theorem source_cancel (ch : Channel) : ch.cancel.source = ch.source := by
  unfold cancel
  split <;> rfl

@[simp] theorem unmoved_cancel (ch : Channel) : ch.cancel.unmoved = ch.unmoved := by
  simp [unmoved]

theorem load_cancel_le (ch : Channel) : ch.cancel.load ≤ ch.load := by
  unfold cancel
  split <;> simp [load]

theorem demand_cancel_le (ch : Channel) : ch.cancel.demand ≤ ch.demand := by
  unfold cancel
  split <;> simp

theorem isAsleep_producer_cancel {ch : Channel}
    (h : ch.cancelled = true → ch.producer.isAsleep = false) :
    ch.cancel.producer.isAsleep = false := by
  unfold cancel
  split
  · exact h ‹_›
  · simp

/-! ## Sending -/

/-- What a send can come to: an answer, or a wait for demand. -/
inductive Sends (ch : Channel) (chunk : Bytes) : Option (Except Error Unit) × Channel → Prop
  | asleep (h : ch.producer.isAsleep = true) : Sends ch chunk (none, ch)
  | empty (h : chunk = []) :
      Sends ch chunk (some (.ok ()), { ch with producer := ch.producer.resume })
  | refused (h : chunk ≠ []) (hc : ch.cancelled = true) :
      Sends ch chunk (some (.error cancelledSend), { ch with producer := ch.producer.resume })
  | accepted (h : chunk ≠ []) (hc : ch.cancelled = false) (hd : 0 < ch.demand) :
      Sends ch chunk (some (.ok ()),
        { ch with
          demand := ch.demand - 1, queue := ch.queue ++ [chunk]
          producer := ch.producer.resume, consumer := ch.consumer.notify })
  | suspended (h : chunk ≠ []) (hc : ch.cancelled = false) (hd : ch.demand = 0) :
      Sends ch chunk (none, { ch with producer := ch.producer.resume.wait })

theorem sends_send (ch : Channel) (chunk : Bytes) : Sends ch chunk (ch.send chunk) := by
  unfold send
  split
  · exact .asleep ‹_›
  · by_cases h : chunk = []
    · subst h
      simpa [offer] using Sends.empty rfl
    · by_cases hc : ch.cancelled = true
      · simpa [offer, h, hc] using Sends.refused h hc
      · rw [Bool.not_eq_true] at hc
        by_cases hd : 0 < ch.demand
        · simpa [offer, h, hc, hd] using Sends.accepted h hc hd
        · simpa [offer, h, hc, hd] using Sends.suspended h hc (by omega)

theorem watchCancelled_cases (ch : Channel) :
    ∃ w : Wake, ch.watchCancelled.2 = { ch with producer := w } ∧
      (ch.watchCancelled.1 = true → ch.cancelled = true) := by
  unfold watchCancelled
  split
  · exact ⟨_, rfl, nofun⟩
  · dsimp only
    split
    · exact ⟨_, rfl, fun _ => ‹_›⟩
    · exact ⟨_, rfl, nofun⟩

theorem leaveProducer_watchCancelled (ch : Channel) :
    ∃ w : Wake, w.isAsleep = false ∧
      ch.watchCancelled.2.leaveProducer = { ch with producer := w } := by
  obtain ⟨w, he, _⟩ := ch.watchCancelled_cases
  refine ⟨w.leave, Wake.isAsleep_leave w, ?_⟩
  rw [he]
  rfl

end Channel

end Courier
