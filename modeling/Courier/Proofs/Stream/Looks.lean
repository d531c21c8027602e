import Courier.Proofs.Stream.Handover

/-! # One look at a channel

What an operation finds when it looks at a channel, and which marks it leaves there or takes away.
-/

namespace Courier

namespace Wake

variable {w : Wake}

def isMarked (w : Wake) : Bool :=
  w.waiter != .absent

theorem waiter_of_isMarked (h : w.isMarked = false) : w.waiter = .absent := by
  simpa [isMarked] using h

@[simp] theorem isMarked_notify (w : Wake) : w.notify.isMarked = w.isMarked := by
  rcases w with ⟨permit, _ | _ | _⟩ <;> rfl

@[simp] theorem isMarked_leave (w : Wake) : w.leave.isMarked = false := by
  rcases w with ⟨permit, _ | _ | _⟩ <;> rfl

theorem resume_of_isMarked (h : w.isMarked = false) : w.resume = w := by
  rw [resume, ← waiter_of_isMarked h]

theorem leave_of_isMarked (h : w.isMarked = false) : w.leave = w := by
  rcases w with ⟨permit, waiter⟩
  cases waiter_of_isMarked h
  rfl

theorem awaits_resume (hw : w.isMarked = true) (ha : w.isAsleep = false) :
    w.Awaits w.resume true := by
  rcases w with ⟨permit, _ | _ | _⟩
  · cases hw
  · cases ha
  · exact .resumes permit

end Wake

namespace Channel

variable {ch : Channel}

/-! ## What is stored -/

theorem stored_drainSource (ch : Channel) : ch.drainSource.stored = ch.stored := by
  unfold drainSource stored
  split
  · rfl
  · rename_i source h
    simp only [h, Option.getD_some, List.length_append, List.length_take, List.length_drop]
    omega

theorem stored_grant (ch : Channel) (n : Nat) : (ch.grant n).stored = ch.stored := by
  unfold grant
  split
  · rfl
  · exact stored_drainSource _

theorem stored_primed (auto : Bool) (ch : Channel) : (ch.primed auto).stored = ch.stored := by
  rcases ch.primed_cases auto with ⟨_, h⟩ | ⟨_, _, _, h⟩
  · rw [h]
  · rw [h]
    exact stored_drainSource _

theorem source_eq_none (ch : Channel) (hd : 0 < ch.demand) (hq : ch.drainSource.queue = [])
    (ht : ch.drainSource.terminal = none) : ch.source = none := by
  cases hs : ch.source with
  | none => rfl
  | some source =>
    simp only [drainSource, hs, List.append_eq_nil_iff, List.take_eq_nil_iff] at hq ht
    have hnil : source = [] := by
      rcases hq.2 with hz | hnil
      · omega
      · exact hnil
    subst hnil
    cases hterm : ch.terminal <;> simp [hterm] at ht

theorem isDry_primed (ch : Channel) (hq : (ch.primed true).queue = [])
    (ht : (ch.primed true).terminal = none) : (ch.primed true).isDry = false := by
  rcases ch.primed_cases true with ⟨hn, h⟩ | ⟨_, _, _, h⟩
  · rw [h]
    simpa [ownGrant] using hn
  · rw [h] at hq ht ⊢
    have hs : ch.source = none := source_eq_none { ch with demand := 1 } Nat.one_pos hq ht
    simp [isDry, drainSource_of_none, hs]

theorem offer_of_none {chunk : Bytes} (h : (ch.offer chunk).1 = none) (w : Wake) :
    (ch.withProducer w).offer chunk = (none, ch.withProducer w) := by
  have ho := ch.offers_offer chunk
  generalize ch.offer chunk = r at h ho
  generalize ch.offerWakes chunk = wakes at ho
  cases ho with
  | empty _ => cases h
  | refused _ _ => cases h
  | accepted _ _ _ => cases h
  | blocked hn hc hd => simp [offer, withProducer, hn, hc, hd]

theorem producer_offer (ch : Channel) (chunk : Bytes) :
    (ch.offer chunk).2.producer = ch.producer := by
  have ho := ch.offers_offer chunk
  generalize ch.offer chunk = r at ho ⊢
  generalize ch.offerWakes chunk = wakes at ho
  cases ho <;> rfl

theorem send_of_asleep (ha : ch.producer.isAsleep = true) (chunk : Bytes) :
    ch.send chunk = (none, ch) := by
  simp [send, ha]

theorem send_cases (ha : ch.producer.isAsleep = false) (chunk : Bytes) :
    let look := (ch.withProducer ch.producer.resume).offer chunk
    (look.1 = none ∧ ch.send chunk = (none, ch.withProducer ch.producer.wait)) ∨
      (look.1.isSome = true ∧ ch.send chunk = look) := by
  intro look
  unfold send
  rw [if_neg (by simp [ha])]
  rcases hl : ({ ch with producer := ch.producer.resume } : Channel).offer chunk
    with ⟨_ | result, ch'⟩
  · have hn := offer_of_none (congrArg Prod.fst hl) ch.producer.resume
    obtain rfl : ch' = ch.withProducer ch.producer.resume :=
      congrArg Prod.snd (hl.symm.trans hn)
    exact .inl ⟨congrArg Prod.fst hl, rfl⟩
  · exact .inr ⟨congrArg (·.1.isSome) hl, hl.symm⟩

theorem watchCancelled_of_asleep (ha : ch.producer.isAsleep = true) :
    ch.watchCancelled = (false, ch) := by
  simp [watchCancelled, ha]

theorem watchCancelled_of_awake (ha : ch.producer.isAsleep = false) :
    ch.watchCancelled =
      if ch.cancelled then (true, ch.withProducer ch.producer.resume)
      else (false, ch.withProducer ch.producer.wait) := by
  simp only [watchCancelled, ha, Bool.false_eq_true, if_false]
  rfl

theorem consumer_primed (auto : Bool) (ch : Channel) :
    (ch.primed auto).consumer = ch.consumer := by
  rcases ch.primed_cases auto with ⟨_, h⟩ | ⟨_, _, _, h⟩
  · rw [h]
  · rw [h]
    exact consumer_drainSource _

/-! ## Marks -/

@[simp] theorem isMarked_consumer_grant (ch : Channel) (n : Nat) :
    (ch.grant n).consumer.isMarked = ch.consumer.isMarked := by
  unfold grant
  split <;> simp [consumer_drainSource]

@[simp] theorem isMarked_producer_grant (ch : Channel) (n : Nat) :
    (ch.grant n).producer.isMarked = ch.producer.isMarked := by
  unfold grant
  split <;> simp

@[simp] theorem consumer_cancel (ch : Channel) : ch.cancel.consumer = ch.consumer := by
  unfold cancel
  split <;> rfl

@[simp] theorem isMarked_producer_cancel (ch : Channel) :
    ch.cancel.producer.isMarked = ch.producer.isMarked := by
  unfold cancel
  split <;> simp

@[simp] theorem isMarked_producer_primed (auto : Bool) (ch : Channel) :
    (ch.primed auto).producer.isMarked = ch.producer.isMarked := by
  rcases ch.primed_cases auto with ⟨_, h⟩ | ⟨_, _, _, h⟩ <;> simp [h]

theorem isMarked_consumer_send (ch : Channel) (chunk : Bytes) :
    (ch.send chunk).2.consumer.isMarked = ch.consumer.isMarked := by
  have hs := ch.sends_send chunk
  generalize ch.send chunk = r at hs ⊢
  cases hs <;> simp

theorem consumer_watchCancelled (ch : Channel) :
    ch.watchCancelled.2.consumer = ch.consumer := by
  obtain ⟨w, h, _⟩ := ch.watchCancelled_cases
  rw [h]

end Channel

namespace Outlet

variable (o : Outlet) (ch : Channel)

theorem parts_drop :
    Channel.Parts ch (o.drop ch) (if o.attached then [] else ch.cancelWakes) := by
  unfold drop
  cases o.attached
  · exact ch.parts_cancel
  · rfl

theorem consumer_drop : (o.drop ch).consumer = ch.consumer := by
  unfold drop
  split <;> simp

theorem isMarked_producer_drop : (o.drop ch).producer.isMarked = ch.producer.isMarked := by
  unfold drop
  split <;> simp

end Outlet

namespace Subscription

variable {auto : Bool} {looks : Nat} {s : Subscription} {ch : Channel} {cells : Cells}

/-! ## A look, by what it finds -/

theorem look_nil (hq : (ch.primed auto).queue = []) (ht : (ch.primed auto).terminal = none) :
    look auto (looks + 1) s ch cells =
      ⟨.pending, s, (ch.primed auto).withConsumer (ch.primed auto).consumer.wait, cells⟩ := by
  unfold look
  rw [Channel.primed] at hq ht ⊢
  generalize (if auto = true then ch.topUp else ch) = ch' at hq ht ⊢
  cases ch'
  cases hq
  cases ht
  rfl

theorem look_terminal {t : Terminal} (hq : (ch.primed auto).queue = [])
    (ht : (ch.primed auto).terminal = some t) :
    look auto (looks + 1) s ch cells = s.close t (ch.primed auto) cells := by
  unfold look
  rw [Channel.primed] at hq ht ⊢
  generalize (if auto = true then ch.topUp else ch) = ch' at hq ht ⊢
  cases ch'
  cases hq
  cases ht
  rfl

theorem look_cons {chunk : Bytes} {rest : List Bytes}
    (hq : (ch.primed auto).queue = chunk :: rest) :
    look auto (looks + 1) s ch cells =
      match Filter.pushAll s.filters chunk with
      | (.ok (some out), filters) =>
        ⟨.chunk out, { s with filters }, { ch.primed auto with queue := rest }, cells⟩
      | (.ok none, filters) =>
        look auto looks { s with filters } (Channel.grant { ch.primed auto with queue := rest } 1)
          cells
      | (.error e, filters) =>
        ⟨.failed e, ⟨filters, true⟩, Channel.cancel { ch.primed auto with queue := rest },
          cells⟩ := by
  rw [look]
  rw [Channel.primed] at hq ⊢
  generalize (if auto = true then ch.topUp else ch) = ch' at hq ⊢
  cases ch'
  cases hq
  rfl

/-! ## Marks -/

theorem parts_cancel (s : Subscription) (ch : Channel) :
    Channel.Parts ch (s.cancel ch).2 (if s.done then [] else ch.cancelWakes) := by
  unfold cancel
  cases s.done
  · exact ch.parts_cancel
  · rfl

theorem consumer_cancel (s : Subscription) (ch : Channel) :
    (s.cancel ch).2.consumer = ch.consumer := by
  unfold cancel
  split <;> simp

theorem isMarked_producer_cancel (s : Subscription) (ch : Channel) :
    (s.cancel ch).2.producer.isMarked = ch.producer.isMarked := by
  unfold cancel
  split <;> simp

theorem isMarked_producer_close (s : Subscription) (t : Terminal) (ch : Channel) (cells : Cells) :
    (s.close t ch cells).channel.producer.isMarked = ch.producer.isMarked := by
  rw [channel_close]

theorem Looks.isMarked_producer {g : Grants} {p : Pull} (h : Looks auto cells s ch g p) :
    p.channel.producer.isMarked = ch.producer.isMarked := by
  induction h with
  | spent => rfl
  | taken _ _ => exact Channel.isMarked_producer_primed ..
  | withheld _ _ _ ih => simpa using ih
  | refused _ _ => simp
  | closed _ _ => simp [isMarked_producer_close]
  | waits _ _ => exact Channel.isMarked_producer_primed ..

theorem isMarked_producer_poll (auto : Bool) (s : Subscription) (ch : Channel) (cells : Cells) :
    (s.poll auto ch cells).channel.producer.isMarked = ch.producer.isMarked := by
  rcases s.poll_cases auto ch cells with ⟨_, _, h⟩ | ⟨_, _, h⟩ | ⟨_, h⟩
  · rw [h]
  · rw [h]
  · exact h.isMarked_producer

end Subscription

end Courier
