import Courier.Proofs.Stream.Handover

/-! # No wake-up is lost

Whoever waits at a channel has a reason to, unless a wake-up has reached it, is kept for it, or is
still owed to it by the other end. The reason is what it saw when it last looked, and every change
that takes the reason away owes a wake-up for it.
-/

namespace Courier

namespace Wake

variable {w w' : Wake}

theorem isUnwoken_notify (w : Wake) : w.notify.isUnwoken = false := by
  rcases w with ⟨permit, _ | _ | _⟩ <;> simp [notify, isUnwoken]

theorem isUnwoken_of_isAsleep (ha : w.isAsleep = true) (hp : w.permit = false) :
    w.isUnwoken = true := by
  simp_all [isAsleep, isUnwoken]

end Wake

namespace Handover

/-- One end of a channel: while it waits it owes no wake-ups, only then does it have a mark at its
wake-up, which no kept wake-up lies beside, and it has this reason to wait, unless it has been woken
or the other end owes it a wake-up. -/
structure End (side : Side) (w : Wake) (waits : Bool) (own others : List Side) (reason : Prop) :
    Prop where
  settled : waits = true → own = []
  marked : w.waiter ≠ .absent → waits = true
  unkept : w.isAsleep = true → w.permit = false
  reason : waits = true → w.isUnwoken = true → side ∉ others → reason

namespace End

variable {side : Side} {w w' : Wake} {waits goesOn : Bool}
  {own own' others others' : List Side} {reason reason' : Prop}

theorem absent (hw : w.waiter = .absent) : End side w false own others reason where
  settled := nofun
  marked hn := absurd hw hn
  unkept ha := by simp [Wake.isAsleep, hw] at ha
  reason := nofun

theorem waiter (h : End side w false own others reason) : w.waiter = .absent :=
  Decidable.byContradiction fun hn => nomatch h.marked hn

theorem elsewhere (h : End side w false own others reason) :
    End side w false own' others' reason' :=
  .absent h.waiter

theorem mono (h : End side w waits own others reason) (hs : waits = true → own' = [])
    (hr : waits = true → side ∉ others' → side ∉ others ∧ (reason → reason')) :
    End side w waits own' others' reason' where
  settled := hs
  marked := h.marked
  unkept := h.unkept
  reason hw hu ho := (hr hw ho).2 (h.reason hw hu (hr hw ho).1)

theorem owed (h : End side w waits own others reason) (ho : side ∈ others') :
    End side w waits own others' reason' where
  settled := h.settled
  marked := h.marked
  unkept := h.unkept
  reason _ _ hn := absurd ho hn

theorem woken (h : End side w waits own others reason) (hs : waits = true → own' = []) :
    End side w.notify waits own' others' reason' where
  settled := hs
  marked hn := by
    apply h.marked
    intro ha
    exact hn (by simp [Wake.notify, ha])
  unkept ha := by simp at ha
  reason _ hu := by simp [Wake.isUnwoken_notify] at hu

theorem blocks (h : End side w false own others reason) (hr : reason') :
    End side w true [] others' reason' where
  settled _ := rfl
  marked _ := rfl
  unkept := h.unkept
  reason _ _ _ := hr

theorem awaits (h : End side w true own others reason) (ha : w.Awaits w' goesOn) :
    End side w' (!goesOn) own others reason := by
  cases ha with
  | takes => exact .absent rfl
  | waits =>
    refine ⟨h.settled, fun _ => rfl, fun _ => rfl, fun _ _ ho => ?_⟩
    exact h.reason rfl rfl ho
  | resumes permit => exact .absent rfl

theorem leaves (w : Wake) : End side w.leave false own others reason :=
  .absent (by rcases w with ⟨_, _ | _ | _⟩ <;> rfl)

end End

/-- Why the producer waits, if it waits to send. -/
def Starved (d : Handover) : Prop :=
  ∀ chunk, d.producer = .blocked chunk → d.channel.demand = 0 ∧ d.channel.cancelled = false

/-- Why the consumer waits: there is nothing to be had, and if it asks for what it lacks, then it
has asked. -/
def Bare (d : Handover) : Prop :=
  ∀ s auto, d.consumer = .blocked s auto →
    d.channel.queue = [] ∧ d.channel.terminal = none ∧
      (auto = true → d.channel.demand = 0 → d.channel.cancelled = true)

structure Sound (d : Handover) : Prop where
  producer : End .producer d.channel.producer d.producer.resumed?.isSome d.producerOwes
    d.consumerOwes d.Starved
  consumer : End .consumer d.channel.consumer d.consumer.resumed?.isSome d.consumerOwes
    d.producerOwes d.Bare

variable {d d' : Handover}

theorem starved_of_eq (hp : d'.producer = d.producer) (hd : d'.channel.demand = d.channel.demand)
    (hc : d'.channel.cancelled = d.channel.cancelled) (hs : d.Starved) : d'.Starved := by
  intro chunk hb
  rw [hd, hc]
  exact hs chunk (hp ▸ hb)

theorem bare_of_eq (hc : d'.consumer = d.consumer) (hq : d'.channel.queue = d.channel.queue)
    (ht : d'.channel.terminal = d.channel.terminal) (hd : d'.channel.demand = d.channel.demand)
    (hx : d'.channel.cancelled = d.channel.cancelled) (hb : d.Bare) : d'.Bare := by
  intro s auto hs
  rw [hq, ht, hd, hx]
  exact hb s auto (hc ▸ hs)

/-! ## What a step keeps -/

theorem End.waits_eq_false {side other : Side} {w : Wake} {waits : Bool}
    {own others rest : List Side} {reason : Prop} (h : End side w waits own others reason)
    (ho : own = other :: rest) : waits = false := by
  cases hw : waits with
  | false => rfl
  | true => cases ho.symm.trans (h.settled hw)

theorem End.paid {side other : Side} {w : Wake} {waits : Bool} {own rest : List Side}
    {reason reason' : Prop} (h : End side w waits own (other :: rest) reason) (hn : side ≠ other)
    (hr : reason → reason') : End side w waits own rest reason' :=
  h.mono h.settled fun _ ho => ⟨by simp [hn, ho], hr⟩

theorem Sound.producerWakes (h : Sound d) {side : Side} {rest : List Side}
    (ho : d.producerOwes = side :: rest) :
    Sound { d with channel := d.channel.wake side, producerOwes := rest } := by
  have hw := h.producer.waits_eq_false ho
  have hp := h.producer
  have hc := h.consumer
  rw [ho] at hc
  rw [hw] at hp
  cases side with
  | producer =>
    refine ⟨?_, hc.paid nofun (bare_of_eq rfl rfl rfl rfl rfl)⟩
    change End _ _ d.producer.resumed?.isSome _ _ _
    rw [hw]
    exact hp.woken nofun
  | consumer =>
    refine ⟨?_, hc.woken h.consumer.settled⟩
    change End _ _ d.producer.resumed?.isSome _ _ _
    rw [hw]
    exact hp.elsewhere

theorem Sound.consumerWakes (h : Sound d) {side : Side} {rest : List Side}
    (ho : d.consumerOwes = side :: rest) :
    Sound { d with channel := d.channel.wake side, consumerOwes := rest } := by
  have hw := h.consumer.waits_eq_false ho
  have hp := h.producer
  have hc := h.consumer
  rw [ho] at hp
  rw [hw] at hc
  cases side with
  | producer =>
    refine ⟨hp.woken h.producer.settled, ?_⟩
    change End _ _ d.consumer.resumed?.isSome _ _ _
    rw [hw]
    exact hc.elsewhere
  | consumer =>
    refine ⟨hp.paid nofun (starved_of_eq rfl rfl rfl), ?_⟩
    change End _ _ d.consumer.resumed?.isSome _ _ _
    rw [hw]
    exact hc.woken nofun

/-- The producer changes something: if it waits from now on it has its reason, and if it takes the
consumer's reason away it owes it a wake-up. -/
theorem Sound.producerActs (h : Sound d) (ho : d.producerOwes = [])
    (hn : d.producer.resumed?.isSome = false) (hw : d'.channel.producer = d.channel.producer)
    (hv : d'.channel.consumer = d.channel.consumer) (hc : d'.consumer = d.consumer)
    (hco : d'.consumerOwes = d.consumerOwes)
    (hp : d'.producer.resumed?.isSome = true → d'.producerOwes = [] ∧ d'.Starved)
    (hb : .consumer ∈ d'.producerOwes ∨ (d.Bare → d'.Bare)) : Sound d' := by
  have hpe := h.producer
  rw [hn] at hpe
  refine ⟨?_, ?_⟩
  · rw [hw, hco]
    cases hr : d'.producer.resumed?.isSome with
    | false => exact hpe.elsewhere
    | true =>
      obtain ⟨hown, hs⟩ := hp hr
      rw [hown]
      exact hpe.blocks hs
  · rw [hv, hc, hco]
    rcases hb with hb | hb
    · exact h.consumer.owed hb
    · exact h.consumer.mono h.consumer.settled fun _ _ => ⟨by simp [ho], hb⟩

/-- The consumer changes something: if it waits from now on it has its reason, and if it takes the
producer's reason away it owes it a wake-up. -/
theorem Sound.consumerActs (h : Sound d) (ho : d.consumerOwes = [])
    (hn : d.consumer.resumed?.isSome = false) (hw : d'.channel.consumer = d.channel.consumer)
    (hv : d'.channel.producer = d.channel.producer) (hp : d'.producer = d.producer)
    (hpo : d'.producerOwes = d.producerOwes)
    (hc : d'.consumer.resumed?.isSome = true → d'.consumerOwes = [] ∧ d'.Bare)
    (hs : .producer ∈ d'.consumerOwes ∨ (d.Starved → d'.Starved)) : Sound d' := by
  have hce := h.consumer
  rw [hn] at hce
  refine ⟨?_, ?_⟩
  · rw [hv, hp, hpo]
    rcases hs with hs | hs
    · exact h.producer.owed hs
    · exact h.producer.mono h.producer.settled fun _ _ => ⟨by simp [ho], hs⟩
  · rw [hw, hpo]
    cases hr : d'.consumer.resumed?.isSome with
    | false => exact hce.elsewhere
    | true =>
      obtain ⟨hown, hb⟩ := hc hr
      rw [hown]
      exact hce.blocks hb

theorem Sound.offer (h : Sound d) {chunk : Bytes} (hp : d.producer = .sending chunk)
    (ho : d.producerOwes = []) :
    Sound
      { d with
        channel := (d.channel.offer chunk).2.withWakesOf d.channel
        producer := if (d.channel.offer chunk).1.isSome then .idle else .blocked chunk
        producerOwes := d.channel.offerWakes chunk } := by
  have hn : d.producer.resumed?.isSome = false := by
    rw [hp]
    rfl
  have hf := d.channel.offers_offer chunk
  generalize d.channel.offer chunk = r at hf ⊢
  generalize d.channel.offerWakes chunk = wakes at hf ⊢
  cases hf with
  | empty _ => exact h.producerActs ho hn rfl rfl rfl rfl nofun (.inr id)
  | refused _ _ => exact h.producerActs ho hn rfl rfl rfl rfl nofun (.inr id)
  | accepted _ _ _ =>
    exact h.producerActs ho hn rfl rfl rfl rfl nofun (.inl (List.mem_singleton_self _))
  | blocked _ hc hd =>
    refine h.producerActs ho hn rfl rfl rfl rfl (fun _ => ⟨rfl, ?_⟩) (.inr id)
    exact fun _ _ => ⟨hd, hc⟩

theorem Sound.grant (h : Sound d) (n : Nat) (ho : d.consumerOwes = [])
    (hn : d.consumer.resumed?.isSome = false) {c : Consumer} (hc : c.resumed?.isSome = false) :
    Sound
      { d with
        channel := (d.channel.grant n).withWakesOf d.channel
        consumer := c
        consumerOwes := d.channel.grantWakes n } := by
  refine h.consumerActs ho hn rfl rfl rfl rfl ?_ ?_
  · intro hw
    cases hc.symm.trans hw
  · by_cases hz : (n = 0 || d.channel.cancelled) = true
    · refine .inr (starved_of_eq rfl ?_ ?_)
      · simp [Channel.grant, hz, Channel.withWakesOf]
      · simp [Channel.grant, hz, Channel.withWakesOf]
    · refine .inl ?_
      simp [Channel.grantWakes, hz]

theorem Sound.cancel (h : Sound d) (ho : d.consumerOwes = [])
    (hn : d.consumer.resumed?.isSome = false) {c : Consumer} (hc : c.resumed?.isSome = false) :
    Sound
      { d with
        channel := d.channel.cancel.withWakesOf d.channel
        consumer := c
        consumerOwes := d.channel.cancelWakes } := by
  refine h.consumerActs ho hn rfl rfl rfl rfl ?_ ?_
  · intro hw
    cases hc.symm.trans hw
  · cases hx : d.channel.cancelled with
    | false => exact .inl (by simp [Channel.cancelWakes, hx])
    | true =>
      refine .inr (starved_of_eq rfl ?_ ?_)
      · simp [Channel.cancel, hx, Channel.withWakesOf]
      · simp [Channel.cancel, hx, Channel.withWakesOf]

theorem Sound.producerAwaits (h : Sound d) {p : Producer} {w : Wake} {goesOn : Bool}
    (hp : d.producer.resumed? = some p) (hw : d.channel.producer.Awaits w goesOn) :
    Sound
      { d with
        channel := d.channel.withProducer w
        producer := if goesOn then p else d.producer } := by
  have he := h.producer
  rw [hp] at he
  have ha := he.awaits hw
  refine ⟨?_, h.consumer.mono h.consumer.settled fun _ ho => ⟨ho, bare_of_eq rfl rfl rfl rfl rfl⟩⟩
  cases goesOn with
  | true =>
    change End _ _ p.resumed?.isSome _ _ _
    rw [Producer.resumed?_eq_none hp]
    exact ha.elsewhere
  | false =>
    change End _ _ d.producer.resumed?.isSome _ _ _
    rw [hp]
    exact ha.mono ha.settled fun _ ho => ⟨ho, starved_of_eq rfl rfl rfl⟩

theorem Sound.consumerAwaits (h : Sound d) {c : Consumer} {w : Wake} {goesOn : Bool}
    (hc : d.consumer.resumed? = some c) (hw : d.channel.consumer.Awaits w goesOn) :
    Sound
      { d with
        channel := d.channel.withConsumer w
        consumer := if goesOn then c else d.consumer } := by
  have he := h.consumer
  rw [hc] at he
  have ha := he.awaits hw
  refine ⟨h.producer.mono h.producer.settled fun _ ho => ⟨ho, starved_of_eq rfl rfl rfl⟩, ?_⟩
  cases goesOn with
  | true =>
    change End _ _ c.resumed?.isSome _ _ _
    rw [Consumer.resumed?_eq_none hc]
    exact ha.elsewhere
  | false =>
    change End _ _ d.consumer.resumed?.isSome _ _ _
    rw [hc]
    exact ha.mono ha.settled fun _ ho => ⟨ho, bare_of_eq rfl rfl rfl rfl rfl⟩

theorem Sound.step (h : Sound d) (hs : Step d d') : Sound d' := by
  cases hs with
  | producerWakes ho => exact h.producerWakes ho
  | send chunk hp ho =>
    exact h.producerActs ho (by rw [hp]; rfl) rfl rfl rfl rfl nofun (.inr id)
  | offer hp ho => exact h.offer hp ho
  | watch hp ho => exact h.producerActs ho (by rw [hp]; rfl) rfl rfl rfl rfl nofun (.inr id)
  | observe hp ho =>
    refine h.producerActs ho (by rw [hp]; rfl) rfl rfl rfl rfl (fun _ => ⟨ho, ?_⟩) (.inr id)
    intro chunk hb
    dsimp only at hb
    split at hb <;> cases hb
  | producerAwaits hp hw => exact h.producerAwaits hp hw
  | producerLeaves hp =>
    refine ⟨.leaves _, h.consumer.mono h.consumer.settled fun _ ho => ⟨ho, ?_⟩⟩
    exact bare_of_eq rfl rfl rfl rfl rfl
  | finish t hp ho =>
    exact h.producerActs ho (by rw [hp]; rfl) rfl rfl rfl rfl nofun
      (.inl (List.mem_singleton_self _))
  | consumerWakes ho => exact h.consumerWakes ho
  | @subscribe o o' s ch hc ho hs =>
    obtain rfl := Outlet.channel_subscribe hs
    exact h.consumerActs ho (by rw [hc]; rfl) rfl rfl rfl rfl nofun (.inr id)
  | @abandon o hc ho =>
    have hn : d.consumer.resumed?.isSome = false := by
      rw [hc]
      rfl
    unfold Outlet.drop
    cases ha : o.attached with
    | false => exact h.cancel ho hn rfl
    | true => exact h.consumerActs ho hn rfl rfl rfl rfl nofun (.inr id)
  | request n hc hd ho =>
    have hn : d.consumer.resumed?.isSome = false := by
      rw [hc]
      rfl
    exact h.grant n ho hn hn
  | read auto hc hd ho => exact h.consumerActs ho (by rw [hc]; rfl) rfl rfl rfl rfl nofun (.inr id)
  | taken hc ho hq hf =>
    exact h.consumerActs ho (by rw [hc]; rfl) rfl rfl rfl rfl nofun (.inr id)
  | withheld hc ho hq hf =>
    exact h.consumerActs ho (by rw [hc]; rfl) rfl rfl rfl rfl nofun (.inr id)
  | replace hc ho => exact h.grant 1 ho (by rw [hc]; rfl) rfl
  | faulty hc ho hq hf =>
    exact h.consumerActs ho (by rw [hc]; rfl) rfl rfl rfl rfl nofun (.inr id)
  | refuse hc ho => exact h.cancel ho (by rw [hc]; rfl) rfl
  | @close s auto t hc ho hq ht =>
    have he := s.channel_close t d.channel d.cells
    refine h.consumerActs ho (by rw [hc]; rfl) ?_ ?_ rfl rfl nofun (.inr (starved_of_eq rfl ?_ ?_))
    all_goals
      dsimp only
      rw [he]
  | topUp hc ho hd =>
    refine h.consumerActs ho (by rw [hc]; rfl) rfl rfl rfl rfl ?_ (.inl (List.mem_singleton_self _))
    intro hw
    simp [hc, Consumer.resumed?] at hw
  | @block s auto hc ho hq ht hd =>
    refine h.consumerActs ho (by rw [hc]; rfl) rfl rfl rfl rfl (fun _ => ⟨ho, ?_⟩) (.inr id)
    rintro s auto ⟨⟩
    refine ⟨hq, ht, fun hauto => ?_⟩
    simpa [Channel.isDry, hq, ht] using hd hauto
  | consumerAwaits hc hw => exact h.consumerAwaits hc hw
  | consumerLeaves hc =>
    refine ⟨h.producer.mono h.producer.settled fun _ ho => ⟨ho, starved_of_eq rfl rfl rfl⟩, ?_⟩
    change End _ _ d.consumer.left.resumed?.isSome _ _ _
    rw [Consumer.resumed?_left]
    exact .leaves _
  | cancel hc hd ho => exact h.cancel ho (by rw [hc]; rfl) rfl
  | @drop s hc ho =>
    have hn : d.consumer.resumed?.isSome = false := by
      rw [hc]
      rfl
    unfold Subscription.cancel
    cases hd : s.done with
    | false => exact h.cancel ho hn rfl
    | true =>
      refine h.consumerActs ho hn rfl rfl rfl rfl ?_ (.inr id)
      rintro ⟨⟩

theorem Reaches.sound (h : Sound d) (hr : Reaches d d') : Sound d' := by
  induction hr with
  | refl => exact h
  | tail _ hs ih => exact ih.step hs

/-- Whoever sleeps and has no wake-up coming to it has its reason. -/
theorem Sound.starved (h : Sound d) (hw : d.producer.resumed?.isSome = true)
    (ha : d.channel.producer.isAsleep = true) (ho : .producer ∉ d.consumerOwes) : d.Starved :=
  h.producer.reason hw (Wake.isUnwoken_of_isAsleep ha (h.producer.unkept ha)) ho

theorem Sound.bare (h : Sound d) (hw : d.consumer.resumed?.isSome = true)
    (ha : d.channel.consumer.isAsleep = true) (ho : .consumer ∉ d.producerOwes) : d.Bare :=
  h.consumer.reason hw (Wake.isUnwoken_of_isAsleep ha (h.consumer.unkept ha)) ho

theorem sound_start (o : Outlet) (cells : Cells) : Sound (start o cells) :=
  ⟨.absent rfl, .absent rfl⟩

theorem sound_ofChunks (chunks : List Bytes) (o : Outlet) (cells : Cells) :
    Sound (ofChunks chunks o cells) := by
  refine ⟨.absent ?_, .absent ?_⟩
  · simp [ofChunks, Channel.ofChunks, Channel.start, Wake.idle]
  · simp [ofChunks, Channel.ofChunks, Channel.consumer_drainSource, Channel.start, Wake.idle]

/-- However the steps of a producer and a consumer follow each other: a producer that waits to send
and has no wake-up coming to it finds no demand and no cancel, and a consumer that waits for a chunk
and has no wake-up coming to it finds neither a chunk nor the end. A wake-up is coming if it has
been given, or if the other end has made its change and has yet to give it. A producer that waits to
send and a consumer that waits for a chunk it has asked for never both have none coming. -/
theorem no_lost_wakeup {d₀ d : Handover} (h₀ : (∃ o cells, d₀ = start o cells) ∨
      ∃ chunks o cells, d₀ = ofChunks chunks o cells) (hr : Reaches d₀ d) :
    (∀ chunk, d.producer = .blocked chunk → d.channel.producer.isAsleep = true →
      .producer ∉ d.consumerOwes → d.channel.demand = 0 ∧ d.channel.cancelled = false) ∧
    (∀ s auto, d.consumer = .blocked s auto → d.channel.consumer.isAsleep = true →
      .consumer ∉ d.producerOwes → d.channel.queue = [] ∧ d.channel.terminal = none) ∧
    ∀ chunk s, ¬(d.producer = .blocked chunk ∧ d.channel.producer.isAsleep = true ∧
      d.consumer = .blocked s true ∧ d.channel.consumer.isAsleep = true) := by
  have h : Sound d := by
    rcases h₀ with ⟨o, cells, rfl⟩ | ⟨chunks, o, cells, rfl⟩
    · exact hr.sound (sound_start o cells)
    · exact hr.sound (sound_ofChunks chunks o cells)
  refine ⟨?_, ?_, ?_⟩
  · exact fun chunk hb ha ho => h.starved (by rw [hb]; rfl) ha ho chunk hb
  · intro s auto hb ha ho
    obtain ⟨hq, ht, _⟩ := h.bare (by rw [hb]; rfl) ha ho s auto hb
    exact ⟨hq, ht⟩
  · rintro chunk s ⟨hbp, hap, hbc, hac⟩
    have hwp : d.producer.resumed?.isSome = true := by rw [hbp]; rfl
    have hwc : d.consumer.resumed?.isSome = true := by rw [hbc]; rfl
    -- neither owes the other a wake-up, for both wait
    have hop : d.producerOwes = [] := h.producer.settled hwp
    have hoc : d.consumerOwes = [] := h.consumer.settled hwc
    obtain ⟨hd, hx⟩ := h.starved hwp hap (by simp [hoc]) chunk hbp
    obtain ⟨_, _, hdry⟩ := h.bare hwc hac (by simp [hop]) s true hbc
    cases hx.symm.trans (hdry rfl hd)

/-- A send finds no demand and a reader of a stream that nobody asked for chunks of finds none, and
both wait. -/
theorem no_lost_wakeup_unasked :
    ∃ d, Reaches (start .start .empty) d ∧ d.producer = .blocked [1] ∧
      d.channel.producer.isAsleep = true ∧ d.consumer = .blocked ⟨[], false⟩ false ∧
      d.channel.consumer.isAsleep = true ∧ (d.channel.demand = 0 ∧ d.channel.cancelled = false) ∧
      d.channel.queue = [] ∧ d.channel.terminal = none := by
  have hr := Reaches.refl (d := start .start .empty)
    |>.tail (.send [1] rfl rfl)
    |>.tail (.subscribe rfl rfl rfl)
    |>.tail (.offer rfl rfl)
    |>.tail (.read false rfl rfl rfl)
    |>.tail (.producerAwaits rfl .waits)
    |>.tail (.block rfl rfl rfl rfl nofun)
    |>.tail (.consumerAwaits rfl .waits)
  obtain ⟨hp, hc, _⟩ := no_lost_wakeup (.inl ⟨.start, .empty, rfl⟩) hr
  exact ⟨_, hr, rfl, rfl, rfl, rfl, hp [1] rfl rfl nofun, hc _ false rfl rfl nofun⟩

end Handover

end Courier
