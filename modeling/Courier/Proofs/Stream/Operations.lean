import Courier.Proofs.Stream.Looks
import Courier.Proofs.Stream.Wakeups

/-! # Operations, step by step

Every operation of a channel is a run of the steps that an end of it takes, from one point where the
end rests to the next. So what holds after any steps holds between any operations, whoever else
takes steps meanwhile.
-/

namespace Courier

namespace Handover

variable {d d' : Handover}

/-! ## Wake-ups -/

theorem reaches_producerWakes (d : Handover) :
    Reaches d
      { d with channel := d.producerOwes.foldl Channel.wake d.channel, producerOwes := [] } := by
  generalize ho : d.producerOwes = owes
  induction owes generalizing d with
  | nil =>
    cases d
    cases ho
    exact .refl
  | cons side rest ih => exact (Step.producerWakes ho).reaches.trans (ih _ rfl)

theorem reaches_consumerWakes (d : Handover) :
    Reaches d
      { d with channel := d.consumerOwes.foldl Channel.wake d.channel, consumerOwes := [] } := by
  generalize ho : d.consumerOwes = owes
  induction owes generalizing d with
  | nil =>
    cases d
    cases ho
    exact .refl
  | cons side rest ih => exact (Step.consumerWakes ho).reaches.trans (ih _ rfl)

theorem reaches_producerActs {ch : Channel} {p : Producer} {wakes : List Side}
    (hp : Channel.Parts d.channel ch wakes)
    (hs : Step d
      { d with channel := ch.withWakesOf d.channel, producer := p, producerOwes := wakes })
    (ho : d.producerOwes = []) : Reaches d { d with channel := ch, producer := p } := by
  have hr := hs.reaches.trans (reaches_producerWakes _)
  dsimp only at hr
  rw [← hp, ← ho] at hr
  exact hr

theorem reaches_consumerActs {ch : Channel} {c : Consumer} {wakes : List Side}
    (hp : Channel.Parts d.channel ch wakes)
    (hs : Step d
      { d with channel := ch.withWakesOf d.channel, consumer := c, consumerOwes := wakes })
    (ho : d.consumerOwes = []) : Reaches d { d with channel := ch, consumer := c } := by
  have hr := hs.reaches.trans (reaches_consumerWakes _)
  dsimp only at hr
  rw [← hp, ← ho] at hr
  exact hr

/-- An end that does nothing, or waits and has left a mark for it. -/
structure Rests (w : Wake) (waits : Bool) (owes : List Side) : Prop where
  owes : owes = []
  marked : w.isMarked = waits

/-! ## The producer -/

def ProducerRests (d : Handover) : Prop :=
  Rests d.channel.producer d.producer.resumed?.isSome d.producerOwes

theorem ProducerRests.isMarked_of_idle (h : d.ProducerRests) (hp : d.producer = .idle) :
    d.channel.producer.isMarked = false := by
  rw [h.marked, hp]
  rfl

/-- Waiting takes another look if a wake-up is kept, which finds what the first one found. -/
theorem reaches_producerWait {p : Producer} (hp : d.producer.resumed? = some p)
    (hw : d.channel.producer.isMarked = false)
    (hl : ∀ w, Reaches { d with channel := d.channel.withProducer w, producer := p }
      { d with channel := d.channel.withProducer w }) :
    Reaches d { d with channel := d.channel.withProducer d.channel.producer.wait } := by
  have hwait : ∀ e : Handover, e.producer.resumed? = some p →
      e.channel.producer = ⟨false, .absent⟩ →
      Reaches e { e with channel := e.channel.withProducer ⟨false, .waiting⟩ } :=
    fun e he hn => (Step.producerAwaits he (by rw [hn]; exact .waits)).reaches
  rcases hk : d.channel.producer with ⟨permit, waiter⟩
  rw [hk] at hw
  cases Wake.waiter_of_isMarked hw
  cases permit with
  | false => exact hwait d hp hk
  | true =>
    have htake : Reaches d
        { d with channel := d.channel.withProducer ⟨false, .absent⟩, producer := p } :=
      (Step.producerAwaits hp (by rw [hk]; exact .takes)).reaches
    exact (htake.trans (hl _)).trans (hwait _ hp rfl)

theorem reaches_producerLooks (h : d.ProducerRests) {p : Producer}
    (hs : d.producer = .idle → Step d { d with producer := p })
    (hp : d.producer = .idle ∨ d.producer.resumed? = some p)
    (ha : d.channel.producer.isAsleep = false) :
    Reaches d
      { d with channel := d.channel.withProducer d.channel.producer.resume, producer := p } := by
  rcases hp with hp | hp
  · rw [Wake.resume_of_isMarked (h.isMarked_of_idle hp)]
    exact (hs hp).reaches
  · have hw : d.channel.producer.isMarked = true := by
      rw [h.marked, hp]
      rfl
    exact (Step.producerAwaits hp (Wake.awaits_resume hw ha)).reaches

theorem ProducerRests.eq_of_isAsleep (h : d.ProducerRests) {p : Producer}
    (hp : d.producer = .idle ∨ d.producer = p) (ha : d.channel.producer.isAsleep = true) :
    d.producer = p :=
  hp.resolve_left fun hi => by
    simp [Wake.isAsleep, Wake.waiter_of_isMarked (h.isMarked_of_idle hi)] at ha

theorem reaches_offer {chunk : Bytes} (hp : d.producer = .sending chunk)
    (ho : d.producerOwes = []) :
    Reaches d
      { d with
        channel := (d.channel.offer chunk).2
        producer := if (d.channel.offer chunk).1.isSome then .idle else .blocked chunk } :=
  reaches_producerActs (d.channel.parts_offer chunk) (.offer hp ho) ho

theorem reaches_observe (hp : d.producer = .watching) (ho : d.producerOwes = []) :
    Reaches d { d with producer := if d.channel.cancelled then .idle else .guarding } :=
  (Step.observe hp ho).reaches

def sent (d : Handover) (chunk : Bytes) : Handover :=
  { d with
    channel := (d.channel.send chunk).2
    producer := if (d.channel.send chunk).1.isSome then .idle else .blocked chunk }

theorem reaches_send (h : d.ProducerRests) {chunk : Bytes}
    (hp : d.producer = .idle ∨ d.producer = .blocked chunk) :
    Reaches d (d.sent chunk) ∧ (d.sent chunk).ProducerRests := by
  unfold sent
  cases ha : d.channel.producer.isAsleep with
  | true =>
    rw [Channel.send_of_asleep ha, Option.isSome_none, if_neg Bool.false_ne_true,
      ← h.eq_of_isAsleep hp ha]
    exact ⟨.refl, h⟩
  | false =>
    have hp' : d.producer = .idle ∨ d.producer.resumed? = some (.sending chunk) :=
      hp.imp_right fun hb => by rw [hb]; rfl
    have hl := (reaches_producerLooks h (fun hi => .send chunk hi h.owes) hp' ha).trans
      (reaches_offer rfl h.owes)
    rcases Channel.send_cases ha chunk with ⟨hn, hs⟩ | ⟨hn, hs⟩
    · have hagain : ∀ w, (d.channel.withProducer w).offer chunk =
          (none, d.channel.withProducer w) :=
        fun w => Channel.offer_of_none hn w
      rw [hs]
      refine ⟨?_, h.owes, rfl⟩
      rw [hagain] at hl
      refine hl.trans (reaches_producerWait (p := .sending chunk) rfl rfl fun w => ?_)
      have hr := reaches_offer (d := { d with
        channel := d.channel.withProducer w, producer := .sending chunk }) rfl h.owes
      rw [hagain] at hr
      exact hr
    · rw [hs, if_pos hn]
      rw [if_pos hn] at hl
      refine ⟨hl, h.owes, ?_⟩
      dsimp only
      rw [Channel.producer_offer]
      rfl

def watched (d : Handover) : Handover :=
  { d with
    channel := d.channel.watchCancelled.2
    producer := if d.channel.watchCancelled.1 then .idle else .guarding }

theorem reaches_watch (h : d.ProducerRests)
    (hp : d.producer = .idle ∨ d.producer = .guarding) :
    Reaches d d.watched ∧ d.watched.ProducerRests := by
  unfold watched
  cases ha : d.channel.producer.isAsleep with
  | true =>
    rw [Channel.watchCancelled_of_asleep ha, if_neg Bool.false_ne_true, ← h.eq_of_isAsleep hp ha]
    exact ⟨.refl, h⟩
  | false =>
    have hp' : d.producer = .idle ∨ d.producer.resumed? = some .watching :=
      hp.imp_right fun hb => by rw [hb]; rfl
    have hl := (reaches_producerLooks h (fun hi => .watch hi h.owes) hp' ha).trans
      (reaches_observe rfl h.owes)
    have hx : ∀ w, (d.channel.withProducer w).cancelled = d.channel.cancelled := fun _ => rfl
    rw [Channel.watchCancelled_of_awake ha]
    cases hc : d.channel.cancelled with
    | true =>
      rw [hx, hc] at hl
      exact ⟨hl, h.owes, rfl⟩
    | false =>
      rw [hx, hc] at hl
      refine ⟨?_, h.owes, rfl⟩
      refine hl.trans (reaches_producerWait (p := .watching) rfl rfl fun w => ?_)
      have hr := reaches_observe (d := { d with
        channel := d.channel.withProducer w, producer := .watching }) rfl h.owes
      rw [hx, hc] at hr
      exact hr

/-! ## The consumer -/

/-- As for the producer; a consumer that has seen the end does not wait. -/
structure ConsumerRests (d : Handover) : Prop
    extends Rests d.channel.consumer d.consumer.resumed?.isSome d.consumerOwes where
  live : ∀ s auto, d.consumer = .blocked s auto → s.done = false

theorem ConsumerRests.still (hc : d.consumer.resumed? = none) (ho : d.consumerOwes = [])
    (hw : d.channel.consumer.isMarked = false) : d.ConsumerRests where
  owes := ho
  marked := by
    rw [hw, hc]
    rfl
  live s auto hb := by
    rw [hb] at hc
    cases hc

theorem ConsumerRests.isMarked_eq_false (h : d.ConsumerRests) (hc : d.consumer.resumed? = none) :
    d.channel.consumer.isMarked = false := by
  rw [h.marked, hc]
  rfl

theorem resumed?_of_idle {s : Subscription} (hc : d.consumer = .idle s) :
    d.consumer.resumed? = none := by
  rw [hc]
  rfl

theorem reaches_consumerWait {c : Consumer} (hc : d.consumer.resumed? = some c)
    (hw : d.channel.consumer.isMarked = false)
    (hl : ∀ w, Reaches { d with channel := d.channel.withConsumer w, consumer := c }
      { d with channel := d.channel.withConsumer w }) :
    Reaches d { d with channel := d.channel.withConsumer d.channel.consumer.wait } := by
  have hwait : ∀ e : Handover, e.consumer.resumed? = some c →
      e.channel.consumer = ⟨false, .absent⟩ →
      Reaches e { e with channel := e.channel.withConsumer ⟨false, .waiting⟩ } :=
    fun e he hn => (Step.consumerAwaits he (by rw [hn]; exact .waits)).reaches
  rcases hk : d.channel.consumer with ⟨permit, waiter⟩
  rw [hk] at hw
  cases Wake.waiter_of_isMarked hw
  cases permit with
  | false => exact hwait d hc hk
  | true =>
    have htake : Reaches d
        { d with channel := d.channel.withConsumer ⟨false, .absent⟩, consumer := c } :=
      (Step.consumerAwaits hc (by rw [hk]; exact .takes)).reaches
    exact (htake.trans (hl _)).trans (hwait _ hc rfl)

theorem reaches_primed {s : Subscription} {auto : Bool} (hc : d.consumer = .reading s auto)
    (ho : d.consumerOwes = []) : Reaches d { d with channel := d.channel.primed auto } := by
  rcases d.channel.primed_cases auto with ⟨_, h⟩ | ⟨rfl, hd, _, _⟩
  · rw [h]
    exact .refl
  · exact reaches_consumerActs (d.channel.parts_topUp hd) (.topUp hc ho hd) ho

def withPull (d : Handover) (auto : Bool) (p : Pull) : Handover :=
  { d with
    channel := p.channel
    cells := p.cells
    consumer :=
      if p.outcome = .pending then .blocked p.subscription auto else .idle p.subscription }

theorem reaches_close {s : Subscription} {auto : Bool} {t : Terminal}
    (hc : d.consumer = .reading s auto) (ho : d.consumerOwes = []) (hq : d.channel.queue = [])
    (ht : d.channel.terminal = some t) (hw : d.channel.consumer.isMarked = false) :
    let d' := d.withPull auto (s.close t d.channel d.cells)
    Reaches d d' ∧ d'.ConsumerRests := by
  have hn : (s.close t d.channel d.cells).outcome ≠ .pending := by
    unfold Subscription.close
    cases t with
    | failed e => exact nofun
    | completed => rcases Filter.completeAll s.filters d.cells with ⟨_ | _, _, _⟩ <;> exact nofun
  unfold withPull
  rw [if_neg hn]
  refine ⟨(Step.close hc ho hq ht).reaches, .still rfl ho ?_⟩
  dsimp only
  rw [Subscription.channel_close]
  exact hw

theorem reaches_block {s : Subscription} {auto : Bool} (hc : d.consumer = .reading s auto)
    (ho : d.consumerOwes = []) (hq : d.channel.queue = []) (ht : d.channel.terminal = none)
    (hd : auto = true → d.channel.isDry = false) :
    Reaches d { d with consumer := .blocked s auto } :=
  (Step.block hc ho hq ht hd).reaches

theorem reaches_waits {s : Subscription} {auto : Bool} (hc : d.consumer = .reading s auto)
    (ho : d.consumerOwes = []) (hq : d.channel.queue = []) (ht : d.channel.terminal = none)
    (hd : auto = true → d.channel.isDry = false) (hw : d.channel.consumer.isMarked = false)
    (hs : s.done = false) :
    let d' := d.withPull auto
      ⟨.pending, s, d.channel.withConsumer d.channel.consumer.wait, d.cells⟩
    Reaches d d' ∧ d'.ConsumerRests := by
  refine ⟨(reaches_block hc ho hq ht hd).trans
    (reaches_consumerWait (c := .reading s auto) rfl hw fun w => ?_), ?_, ?_⟩
  · exact reaches_block (d := { d with
      channel := d.channel.withConsumer w, consumer := .reading s auto }) rfl ho hq ht hd
  · exact ⟨ho, rfl⟩
  · rintro s' auto' ⟨⟩
    exact hs

section Chunks

variable {s : Subscription} {auto : Bool} {chunk out : Bytes} {rest : List Bytes}
  {filters : List Filter}

theorem reaches_delivers (hc : d.consumer = .reading s auto) (ho : d.consumerOwes = [])
    (hq : d.channel.queue = chunk :: rest)
    (hf : Filter.pushAll s.filters chunk = (.ok (some out), filters))
    (hw : d.channel.consumer.isMarked = false) :
    let d' := d.withPull auto
      ⟨.chunk out, { s with filters }, { d.channel with queue := rest }, d.cells⟩
    Reaches d d' ∧ d'.ConsumerRests :=
  ⟨(Step.taken hc ho hq hf).reaches, .still rfl ho hw⟩

theorem reaches_refuses {e : Error} (hc : d.consumer = .reading s auto)
    (ho : d.consumerOwes = []) (hq : d.channel.queue = chunk :: rest)
    (hf : Filter.pushAll s.filters chunk = (.error e, filters))
    (hw : d.channel.consumer.isMarked = false) :
    let d' := d.withPull auto
      ⟨.failed e, ⟨filters, true⟩, Channel.cancel { d.channel with queue := rest }, d.cells⟩
    Reaches d d' ∧ d'.ConsumerRests :=
  ⟨(Step.faulty hc ho hq hf).reaches.trans
      (reaches_consumerActs (Channel.parts_cancel _) (.refuse rfl ho) ho),
    .still rfl ho ((congrArg Wake.isMarked (Channel.consumer_cancel _)).trans hw)⟩

theorem reaches_replaces (hc : d.consumer = .reading s auto) (ho : d.consumerOwes = [])
    (hq : d.channel.queue = chunk :: rest)
    (hf : Filter.pushAll s.filters chunk = (.ok none, filters)) :
    Reaches d
      { d with
        channel := Channel.grant { d.channel with queue := rest } 1
        consumer := .reading { s with filters } auto } :=
  (Step.withheld hc ho hq hf).reaches.trans
    (reaches_consumerActs (Channel.parts_grant _ 1) (.replace rfl ho) ho)

end Chunks

/-- A look takes as many chunks as there are until one gets through. -/
theorem reaches_look (auto : Bool) (looks : Nat) (d : Handover) (s : Subscription)
    (hc : d.consumer = .reading s auto) (ho : d.consumerOwes = [])
    (hw : d.channel.consumer.isMarked = false) (hs : s.done = false)
    (hl : d.channel.stored < looks) :
    let d' := d.withPull auto (Subscription.look auto looks s d.channel d.cells)
    Reaches d d' ∧ d'.ConsumerRests := by
  induction looks generalizing d s with
  | zero => omega
  | succ looks ih =>
    have hprimed := reaches_primed hc ho
    have hstored := d.channel.stored_primed auto
    have hw' : (d.channel.primed auto).consumer.isMarked = false := by
      rw [Channel.consumer_primed]
      exact hw
    cases hq : (d.channel.primed auto).queue with
    | nil =>
      cases ht : (d.channel.primed auto).terminal with
      | none =>
        have hd : auto = true → (d.channel.primed auto).isDry = false := by
          rintro rfl
          exact d.channel.isDry_primed hq ht
        have hr := reaches_waits (d := { d with channel := d.channel.primed auto })
          hc ho hq ht hd hw' hs
        rw [Subscription.look_nil hq ht]
        exact hr.imp_left hprimed.trans
      | some t =>
        have hr := reaches_close (d := { d with channel := d.channel.primed auto })
          hc ho hq ht hw'
        rw [Subscription.look_terminal hq ht]
        exact hr.imp_left hprimed.trans
    | cons chunk rest =>
      rw [Subscription.look_cons hq]
      rcases hf : Filter.pushAll s.filters chunk with ⟨e | _ | out, filters⟩
      · have hr := reaches_refuses (d := { d with channel := d.channel.primed auto })
          hc ho hq hf hw'
        exact hr.imp_left hprimed.trans
      · have hr := reaches_replaces (d := { d with channel := d.channel.primed auto })
          hc ho hq hf
        -- the chunk is off the channel, and the unit for it at most moves another to the queue
        have hless : (Channel.grant { d.channel.primed auto with queue := rest } 1).stored <
            looks := by
          rw [Channel.stored_grant]
          simp only [Channel.stored, hq, List.length_cons] at hstored hl ⊢
          omega
        have hrest := ih
          { d with
            channel := Channel.grant { d.channel.primed auto with queue := rest } 1
            consumer := .reading { s with filters } auto }
          { s with filters } rfl ho ((Channel.isMarked_consumer_grant _ 1).trans hw') hs hless
        exact hrest.imp_left (hprimed.trans hr).trans
      · have hr := reaches_delivers (d := { d with channel := d.channel.primed auto })
          hc ho hq hf hw'
        exact hr.imp_left hprimed.trans

theorem ConsumerRests.eq_of_isAsleep (h : d.ConsumerRests) {s : Subscription} {auto : Bool}
    (hc : d.consumer = .idle s ∨ d.consumer = .blocked s auto)
    (ha : d.channel.consumer.isAsleep = true) : d.consumer = .blocked s auto :=
  hc.resolve_left fun hi => by
    have hw := Wake.waiter_of_isMarked (h.isMarked_eq_false (resumed?_of_idle hi))
    simp [Wake.isAsleep, hw] at ha

theorem reaches_consumerLooks (h : d.ConsumerRests) {s : Subscription} {auto : Bool}
    (hc : d.consumer = .idle s ∨ d.consumer = .blocked s auto) (hs : s.done = false)
    (ha : d.channel.consumer.isAsleep = false) :
    Reaches d
      { d with
        channel := d.channel.withConsumer d.channel.consumer.resume
        consumer := .reading s auto } := by
  rcases hc with hc | hc
  · rw [Wake.resume_of_isMarked (h.isMarked_eq_false (resumed?_of_idle hc))]
    exact (Step.read auto hc hs h.owes).reaches
  · have hr : d.consumer.resumed? = some (.reading s auto) := by
      rw [hc]
      rfl
    have hw : d.channel.consumer.isMarked = true := by
      rw [h.marked, hr]
      rfl
    exact (Step.consumerAwaits hr (Wake.awaits_resume hw ha)).reaches

theorem reaches_poll (h : d.ConsumerRests) {s : Subscription} {auto : Bool}
    (hc : d.consumer = .idle s ∨ d.consumer = .blocked s auto) :
    let d' := d.withPull auto (s.poll auto d.channel d.cells)
    Reaches d d' ∧ d'.ConsumerRests := by
  cases hs : s.done with
  | true =>
    have hi : d.consumer = .idle s := hc.resolve_right fun hb => by
      cases hs.symm.trans (h.live s auto hb)
    rw [Subscription.poll_of_done auto d.cells hs, withPull, if_neg nofun, ← hi]
    exact ⟨.refl, h⟩
  | false =>
    unfold Subscription.poll
    rw [hs, if_neg nofun]
    cases ha : d.channel.consumer.isAsleep with
    | true =>
      rw [if_pos rfl, withPull, if_pos rfl, ← h.eq_of_isAsleep hc ha]
      exact ⟨.refl, h⟩
    | false =>
      rw [if_neg nofun]
      have hl := reaches_look auto (d.channel.stored + 1)
        { d with
          channel := d.channel.withConsumer d.channel.consumer.resume
          consumer := .reading s auto }
        s rfl h.owes rfl hs (Nat.lt_succ_self _)
      exact hl.imp_left (reaches_consumerLooks h hc hs ha).trans

/-! ## Whole operations -/

structure Settled (d : Handover) : Prop where
  producer : d.ProducerRests
  consumer : d.ConsumerRests

/-- What one of the ends does at a stretch, up to where it rests. -/
inductive Operates : Handover → Handover → Prop

  | send {d : Handover} {chunk : Bytes}
      (hp : d.producer = .idle ∨ d.producer = .blocked chunk) : Operates d (d.sent chunk)

  | watch {d : Handover} (hp : d.producer = .idle ∨ d.producer = .guarding) :
      Operates d d.watched

  | leaveProducer {d : Handover} {p : Producer} (hp : d.producer.resumed? = some p) :
      Operates d { d with channel := d.channel.leaveProducer, producer := .idle }

  | finish {d : Handover} (t : Terminal) (hp : d.producer = .idle) :
      Operates d { d with channel := d.channel.finish t, producer := .gone }

  | subscribe {d : Handover} {o o' : Outlet} {s : Subscription} {ch : Channel}
      (hc : d.consumer = .holding o) (hs : o.subscribe d.channel = .ok (s, o', ch)) :
      Operates d { d with channel := ch, consumer := .idle s }

  | abandon {d : Handover} {o : Outlet} (hc : d.consumer = .holding o) :
      Operates d { d with channel := o.drop d.channel, consumer := .gone }

  | request {d : Handover} {s : Subscription} (n : Nat) (hc : d.consumer = .idle s) :
      Operates d { d with channel := s.request n d.channel }

  | poll {d : Handover} {s : Subscription} {auto : Bool}
      (hc : d.consumer = .idle s ∨ d.consumer = .blocked s auto) :
      Operates d (d.withPull auto (s.poll auto d.channel d.cells))

  | leaveConsumer {d : Handover} {c : Consumer} (hc : d.consumer.resumed? = some c) :
      Operates d
        { d with
          channel := d.channel.withConsumer d.channel.consumer.leave
          consumer := d.consumer.left }

  | cancel {d : Handover} {s : Subscription} (hc : d.consumer = .idle s) :
      Operates d
        { d with
          channel := (s.cancel d.channel).2, consumer := .idle (s.cancel d.channel).1 }

  | drop {d : Handover} {s : Subscription} (hc : d.consumer = .idle s) :
      Operates d { d with channel := s.drop d.channel, consumer := .gone }

theorem Settled.producerActs (h : d.Settled) (hp : d'.ProducerRests)
    (hm : d'.channel.consumer.isMarked = d.channel.consumer.isMarked)
    (hc : d'.consumer = d.consumer) (ho : d'.consumerOwes = d.consumerOwes) : d'.Settled where
  producer := hp
  consumer := by
    refine ⟨⟨ho.trans h.consumer.owes, ?_⟩, fun s auto hb => h.consumer.live s auto (hc ▸ hb)⟩
    rw [hm, hc]
    exact h.consumer.marked

theorem Settled.consumerActs (h : d.Settled) (hc : d'.ConsumerRests)
    (hm : d'.channel.producer.isMarked = d.channel.producer.isMarked)
    (hp : d'.producer = d.producer) (ho : d'.producerOwes = d.producerOwes) : d'.Settled where
  producer := by
    refine ⟨ho.trans h.producer.owes, ?_⟩
    rw [hm, hp]
    exact h.producer.marked
  consumer := hc

theorem Operates.reaches (h : Operates d d') (hd : d.Settled) : Reaches d d' ∧ d'.Settled := by
  have hpo := hd.producer.owes
  have hco := hd.consumer.owes
  cases h with
  | send hp =>
    obtain ⟨hr, hrest⟩ := reaches_send hd.producer hp
    exact ⟨hr, hd.producerActs hrest (Channel.isMarked_consumer_send ..) rfl rfl⟩
  | watch hp =>
    obtain ⟨hr, hrest⟩ := reaches_watch hd.producer hp
    refine ⟨hr, hd.producerActs hrest ?_ rfl rfl⟩
    exact congrArg Wake.isMarked (Channel.consumer_watchCancelled _)
  | leaveProducer hp =>
    exact ⟨(Step.producerLeaves hp).reaches,
      hd.producerActs ⟨hpo, Wake.isMarked_leave _⟩ rfl rfl rfl⟩
  | finish t hp =>
    refine ⟨reaches_producerActs (Channel.parts_finish _ t) (.finish t hp hpo) hpo, ?_⟩
    exact hd.producerActs ⟨hpo, hd.producer.isMarked_of_idle hp⟩ (Wake.isMarked_notify _) rfl rfl
  | @subscribe o o' s ch hc hs =>
    refine ⟨(Step.subscribe hc hco hs).reaches, ?_⟩
    obtain rfl := Outlet.channel_subscribe hs
    have hn : d.consumer.resumed? = none := by
      rw [hc]
      rfl
    exact hd.consumerActs (.still rfl hco (hd.consumer.isMarked_eq_false hn)) rfl rfl rfl
  | @abandon o hc =>
    have hn : d.consumer.resumed? = none := by
      rw [hc]
      rfl
    refine ⟨reaches_consumerActs (o.parts_drop _) (.abandon hc hco) hco, ?_⟩
    refine hd.consumerActs (.still rfl hco ?_) (o.isMarked_producer_drop _) rfl rfl
    exact (congrArg Wake.isMarked (o.consumer_drop _)).trans (hd.consumer.isMarked_eq_false hn)
  | @request s n hc =>
    have hn := resumed?_of_idle hc
    unfold Subscription.request
    cases hs : s.done with
    | true => exact ⟨.refl, hd⟩
    | false =>
      refine ⟨reaches_consumerActs (Channel.parts_grant _ n) (.request n hc hs hco) hco, ?_⟩
      refine hd.consumerActs (.still hn hco ?_) (Channel.isMarked_producer_grant ..) rfl rfl
      exact (Channel.isMarked_consumer_grant ..).trans (hd.consumer.isMarked_eq_false hn)
  | poll hc =>
    obtain ⟨hr, hrest⟩ := reaches_poll hd.consumer hc
    exact ⟨hr, hd.consumerActs hrest (Subscription.isMarked_producer_poll ..) rfl rfl⟩
  | leaveConsumer hc =>
    refine ⟨(Step.consumerLeaves hc).reaches, ?_⟩
    exact hd.consumerActs (.still (Consumer.resumed?_left _) hco (Wake.isMarked_leave _))
      rfl rfl rfl
  | @cancel s hc =>
    have hw := hd.consumer.isMarked_eq_false (resumed?_of_idle hc)
    unfold Subscription.cancel
    cases hs : s.done with
    | true =>
      rw [if_pos rfl, ← hc]
      exact ⟨.refl, hd⟩
    | false =>
      refine ⟨reaches_consumerActs (Channel.parts_cancel _) (.cancel hc hs hco) hco, ?_⟩
      refine hd.consumerActs (.still rfl hco ?_) (Channel.isMarked_producer_cancel _) rfl rfl
      exact (congrArg Wake.isMarked (Channel.consumer_cancel _)).trans hw
  | @drop s hc =>
    have hw := hd.consumer.isMarked_eq_false (resumed?_of_idle hc)
    have hx : s.drop d.channel = (s.cancel d.channel).2 := by
      rw [Subscription.drop, Wake.leave_of_isMarked hw]
    rw [hx]
    refine ⟨reaches_consumerActs (s.parts_cancel _) (.drop hc hco) hco, ?_⟩
    refine hd.consumerActs (.still rfl hco ?_) (s.isMarked_producer_cancel _) rfl rfl
    exact (congrArg Wake.isMarked (s.consumer_cancel _)).trans hw

inductive Works (d : Handover) : Handover → Prop

  | refl : Works d d

  | tail {d' d'' : Handover} : Works d d' → Operates d' d'' → Works d d''

/-- Operations come to nothing that steps do not come to. -/
theorem Works.reaches (h : Works d d') (hd : d.Settled) : Reaches d d' ∧ d'.Settled := by
  induction h with
  | refl => exact ⟨.refl, hd⟩
  | tail _ ho ih =>
    obtain ⟨hr, hd'⟩ := ih
    obtain ⟨hr', hd''⟩ := ho.reaches hd'
    exact ⟨hr.trans hr', hd''⟩

theorem settled_start (o : Outlet) (cells : Cells) : (start o cells).Settled :=
  ⟨⟨rfl, rfl⟩, .still rfl rfl rfl⟩

theorem settled_ofChunks (chunks : List Bytes) (o : Outlet) (cells : Cells) :
    (ofChunks chunks o cells).Settled := by
  refine ⟨⟨rfl, ?_⟩, .still rfl rfl ?_⟩
  · simp [ofChunks, Channel.ofChunks, Channel.start, Wake.idle, Wake.isMarked,
      Producer.resumed?]
  · simp [ofChunks, Channel.ofChunks, Channel.consumer_drainSource, Channel.start, Wake.idle,
      Wake.isMarked]

theorem Rests.waits_of_isAsleep {w : Wake} {waits : Bool} {owes : List Side}
    (h : Rests w waits owes)
    (ha : w.isAsleep = true) : waits = true := by
  rw [← h.marked]
  simp_all [Wake.isAsleep, Wake.isMarked]

/-- Between operations nobody owes a wake-up, so whoever sleeps has its reason. -/
theorem Works.asleep {d₀ : Handover} (h₀ : (∃ o cells, d₀ = start o cells) ∨
      ∃ chunks o cells, d₀ = ofChunks chunks o cells) (hw : Works d₀ d) :
    (d.channel.producer.isAsleep = true → d.Starved) ∧
      (d.channel.consumer.isAsleep = true → d.Bare) := by
  have hd₀ : Sound d₀ ∧ d₀.Settled := by
    rcases h₀ with ⟨o, cells, rfl⟩ | ⟨chunks, o, cells, rfl⟩
    · exact ⟨sound_start o cells, settled_start o cells⟩
    · exact ⟨sound_ofChunks chunks o cells, settled_ofChunks chunks o cells⟩
  obtain ⟨hr, hd⟩ := hw.reaches hd₀.2
  have h : Sound d := hr.sound hd₀.1
  constructor
  · intro ha
    exact h.starved (Rests.waits_of_isAsleep hd.producer ha) ha (by simp [hd.consumer.owes])
  · intro ha
    exact h.bare (Rests.waits_of_isAsleep hd.consumer.toRests ha) ha (by simp [hd.producer.owes])

end Handover

end Courier
