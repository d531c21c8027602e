import Courier.Proofs.Stream.Duct

/-! # Delivery over a channel

Without filters the consumer is given what the producer sent: the chunks accepted so far in their
order, then the end the producer gave first, and nothing after that. The invariant tells apart
whether the consumer can still read.
-/

namespace Courier.Rehearsal.Duct

variable {t : List Event} {d d' : Duct} {e : Event} {cells : Cells}

/-- What may be seen next after what has been seen. A reading after the end, or after a cancel,
finds nothing more; before that it finds the next chunk accepted, or the end once there is none. -/
def Allowed (past : List Event) : Event → Prop
  | .sent chunk answer =>
    chunk ≠ [] → isCancelled past = true → answer = some (.error Channel.cancelledSend)
  | .polled _ outcome _ =>
    if isClosed past then outcome = .finished
    else
      match outcome with
      | .pending => True
      | .chunk bytes => returned past ++ [bytes] <+: accepted past
      | .failed e => returned past = accepted past ∧ (terminals past).head? = some (.failed e)
      | .finished => returned past = accepted past ∧ (terminals past).head? = some .completed
  | _ => True

structure Open (t : List Event) (d : Duct) : Prop where
  uncancelled : d.channel.cancelled = false
  accepted_eq : accepted t = returned t ++ d.channel.queue
  terminal : (terminals t).head? = d.channel.terminal
  unended : d.producer ≠ .gone → d.channel.terminal = none
  live : ∀ s, d.subscription = some s → s.done = false
  unfailed : failures t = 0

structure Shut (t : List Event) (d : Duct) : Prop where
  in_order : returned t <+: accepted t
  refuses : d.producer ≠ .gone → d.channel.cancelled = true
  done : ∀ s, d.subscription = some s → s.done = true
  taken : d.channel.subscribed = true ∨ d.outlet = none
  failures_le : failures t ≤ 1

structure Delivers (t : List Event) (d : Duct) : Prop where
  outlet : ∀ o, d.outlet = some o → o.filters = [] ∧ o.attached = d.channel.subscribed
  filters : ∀ s, d.subscription = some s → s.filters = []
  source : d.channel.source = none
  lone : d.channel.subscribed = false → d.subscription = none
  awake : d.channel.cancelled = true → d.channel.producer.isAsleep = false
  isOpen : isClosed t = false → Open t d
  isShut : isClosed t = true → Shut t d

theorem Delivers.in_order (h : Delivers t d) : returned t <+: accepted t := by
  cases hc : isClosed t with
  | false => exact (h.isOpen hc).accepted_eq ▸ List.prefix_append _ _
  | true => exact (h.isShut hc).in_order

theorem Delivers.failures_le (h : Delivers t d) : failures t ≤ 1 := by
  cases hc : isClosed t with
  | false => simp [(h.isOpen hc).unfailed]
  | true => exact (h.isShut hc).failures_le

theorem Delivers.isOpen_of_uncancelled (h : Delivers t d) (hp : d.producer ≠ .gone)
    (hc : d.channel.cancelled = false) : isClosed t = false := by
  cases hs : isClosed t with
  | false => rfl
  | true =>
    rw [(h.isShut hs).refuses hp] at hc
    cases hc

theorem Delivers.isClosed_eq (h : Delivers t d) {s : Subscription}
    (hs : d.subscription = some s) : isClosed t = s.done := by
  cases hc : isClosed t with
  | false => exact ((h.isOpen hc).live s hs).symm
  | true => exact ((h.isShut hc).done s hs).symm

theorem Delivers.subscribed (h : Delivers t d) {s : Subscription}
    (hs : d.subscription = some s) : d.channel.subscribed = true := by
  cases hn : d.channel.subscribed with
  | true => rfl
  | false =>
    rw [h.lone hn] at hs
    cases hs

/-! ## Steps that show nothing -/

/-- Nothing is handed over, ended or failed. -/
structure Event.Silent (e : Event) : Prop where
  accepted? : e.accepted? = none
  returned? : e.returned? = none
  terminal? : e.terminal? = none
  isFailure : e.isFailure = false

theorem Event.silent_quiet : Event.quiet.Silent := ⟨rfl, rfl, rfl, rfl⟩

theorem Event.silent_cancelled : Event.cancelled.Silent := ⟨rfl, rfl, rfl, rfl⟩

theorem Event.silent_requested (live : Bool) (n : Nat) : (Event.requested live n).Silent :=
  ⟨rfl, rfl, rfl, rfl⟩

theorem Event.silent_pending (auto : Bool) (g : Grants) :
    (Event.polled auto .pending g).Silent := ⟨rfl, rfl, rfl, rfl⟩

theorem Event.silent_finished (auto : Bool) (g : Grants) :
    (Event.polled auto .finished g).Silent := ⟨rfl, rfl, rfl, rfl⟩

theorem Event.silent_sent {chunk : Bytes} {answer : Option (Except Error Unit)}
    (h : chunk = [] ∨ answer ≠ some (.ok ())) : (Event.sent chunk answer).Silent := by
  refine ⟨?_, rfl, rfl, rfl⟩
  rcases answer with _ | _ | ⟨⟨⟩⟩ <;> simp_all [Event.accepted?]

theorem Delivers.skip (h : Delivers t d) (he : e.Silent)
    (hc : e.closes = true → isClosed t = true) : Delivers (t ++ [e]) d where
  outlet := h.outlet
  filters := h.filters
  source := h.source
  lone := h.lone
  awake := h.awake
  isOpen hn := by
    rw [isClosed_snoc, Bool.or_eq_false_iff] at hn
    have ho := h.isOpen hn.1
    exact ⟨ho.uncancelled, by simp [he.accepted?, he.returned?, ho.accepted_eq],
      by simp [he.terminal?, ho.terminal], ho.unended, ho.live,
      by simp [he.isFailure, ho.unfailed]⟩
  isShut hn := by
    rw [isClosed_snoc, Bool.or_eq_true] at hn
    have hs := h.isShut (hn.elim id hc)
    exact ⟨by simpa [he.accepted?, he.returned?] using hs.in_order, hs.refuses, hs.done,
      hs.taken, by simpa [he.isFailure] using hs.failures_le⟩

/-- In the second state the two ends stand as they do in the first, or have let go. -/
structure Agrees (d d' : Duct) : Prop where
  queue : d'.channel.queue = d.channel.queue
  source : d'.channel.source = d.channel.source
  terminal : d'.channel.terminal = d.channel.terminal
  cancelled : d'.channel.cancelled = d.channel.cancelled
  subscribed : d'.channel.subscribed = d.channel.subscribed
  producer : d'.producer = .gone ↔ d.producer = .gone
  outlet : ∀ o, d'.outlet = some o → d.outlet = some o
  subscription : ∀ s, d'.subscription = some s → d.subscription = some s
  awake : (d.channel.cancelled = true → d.channel.producer.isAsleep = false) →
    d.channel.cancelled = true → d'.channel.producer.isAsleep = false

theorem Delivers.congr (h : Delivers t d) (ha : Agrees d d') : Delivers t d' where
  outlet o ho := by
    rw [ha.subscribed]
    exact h.outlet o (ha.outlet o ho)
  filters s hs := h.filters s (ha.subscription s hs)
  source := ha.source.trans h.source
  lone hs := by
    refine Option.eq_none_iff_forall_ne_some.mpr fun s hd => ?_
    have hn := h.lone (ha.subscribed ▸ hs)
    rw [ha.subscription s hd] at hn
    cases hn
  awake hc := ha.awake h.awake (ha.cancelled ▸ hc)
  isOpen hc := by
    have ho := h.isOpen hc
    exact ⟨ha.cancelled.trans ho.uncancelled, ha.queue ▸ ho.accepted_eq,
      ha.terminal ▸ ho.terminal,
      fun hp => ha.terminal.trans (ho.unended fun hg => hp (ha.producer.mpr hg)),
      fun s hs => ho.live s (ha.subscription s hs), ho.unfailed⟩
  isShut hc := by
    have hs := h.isShut hc
    refine ⟨hs.in_order,
      fun hp => ha.cancelled.trans (hs.refuses fun hg => hp (ha.producer.mpr hg)),
      fun s hd => hs.done s (ha.subscription s hd), ?_, hs.failures_le⟩
    refine hs.taken.imp ha.subscribed.trans fun hn => ?_
    exact Option.eq_none_iff_forall_ne_some.mpr fun o ho => by simp [ha.outlet o ho] at hn

/-! ## The producer's steps -/

theorem Agrees.producer_turn {p : Producer} {w : Wake} (hd : d.producer ≠ .gone) (hp : p ≠ .gone)
    (hw : d.channel.cancelled = true → d.channel.producer.isAsleep = false →
      w.isAsleep = false) :
    Agrees d { d with channel := { d.channel with producer := w }, producer := p } where
  queue := rfl
  source := rfl
  terminal := rfl
  cancelled := rfl
  subscribed := rfl
  producer := ⟨fun h => absurd h hp, fun h => absurd h hd⟩
  outlet _ h := h
  subscription _ h := h
  awake ha hc := hw hc (ha hc)

theorem Delivers.accept (h : Delivers t d) {chunk : Bytes} {p : Producer} (hn : chunk ≠ [])
    (hd : d.producer ≠ .gone) (hc : d.channel.cancelled = false) :
    Delivers (t ++ [.sent chunk (some (.ok ()))])
      { d with
        channel :=
          { d.channel with
            demand := d.channel.demand - 1, queue := d.channel.queue ++ [chunk]
            producer := d.channel.producer.resume, consumer := d.channel.consumer.notify }
        producer := p } where
  outlet := h.outlet
  filters := h.filters
  source := h.source
  lone := h.lone
  awake _ := rfl
  isOpen _ := by
    have ho := h.isOpen (h.isOpen_of_uncancelled hd hc)
    exact ⟨hc, by simp [Event.accepted?, Event.returned?, hn, ho.accepted_eq],
      by simpa [Event.terminal?] using ho.terminal, fun _ => ho.unended hd, ho.live,
      by simpa [Event.isFailure] using ho.unfailed⟩
  isShut hs := by
    rw [isClosed_snoc, h.isOpen_of_uncancelled hd hc] at hs
    cases hs

theorem Delivers.send (h : Delivers t d) {chunk : Bytes}
    (hd : d.producer = .idle ∨ d.producer = .sending chunk) :
    Allowed t (.sent chunk (d.send chunk).1) ∧
      Delivers (t ++ [.sent chunk (d.send chunk).1]) (d.send chunk).2 := by
  have hg : d.producer ≠ .gone := by rcases hd with hd | hd <;> simp [hd]
  have hcan : isCancelled t = true → d.channel.cancelled = true :=
    fun hc => (h.isShut (isClosed_of_isCancelled hc)).refuses hg
  obtain ⟨r, hr, h1, p, hp, h2⟩ := send_cases d chunk
  rw [h1, h2]
  cases hr with
  | asleep ha =>
    constructor
    · intro _ hc
      rw [h.awake (hcan hc)] at ha
      cases ha
    · exact (h.congr (.producer_turn hg hp fun _ h => h)).skip
        (Event.silent_sent (.inr (by simp))) nofun
  | empty hn =>
    constructor
    · exact fun hc _ => absurd hn hc
    · exact (h.congr (.producer_turn hg hp fun _ _ => rfl)).skip
        (Event.silent_sent (.inl hn)) nofun
  | refused hn hc =>
    constructor
    · exact fun _ _ => rfl
    · exact (h.congr (.producer_turn hg hp fun _ _ => rfl)).skip
        (Event.silent_sent (.inr (by simp))) nofun
  | accepted hn hc hdem =>
    constructor
    · intro _ hcc
      rw [hcan hcc] at hc
      cases hc
    · exact h.accept hn hg hc
  | suspended hn hc hdem =>
    constructor
    · intro _ hcc
      rw [hcan hcc] at hc
      cases hc
    · refine (h.congr (.producer_turn hg hp fun hcc => ?_)).skip
        (Event.silent_sent (.inr (by simp))) nofun
      rw [hc] at hcc
      cases hcc

theorem Delivers.finish (h : Delivers t d) (hd : d.producer ≠ .gone) (e : Terminal) :
    Delivers (t ++ [.ended e]) { d with channel := d.channel.finish e, producer := .gone } where
  outlet := h.outlet
  filters := h.filters
  source := h.source
  lone := h.lone
  awake := h.awake
  isOpen hc := by
    have ho := h.isOpen (by simpa [Event.closes] using hc)
    have ht := ho.terminal
    rw [ho.unended hd, List.head?_eq_none_iff] at ht
    exact ⟨ho.uncancelled,
      by simpa [Event.accepted?, Event.returned?, Channel.finish] using ho.accepted_eq,
      by simp [Event.terminal?, Channel.finish, ht, ho.unended hd], fun hg => absurd rfl hg,
      ho.live, by simpa [Event.isFailure] using ho.unfailed⟩
  isShut hc := by
    have hs := h.isShut (by simpa [Event.closes] using hc)
    exact ⟨by simpa [Event.accepted?, Event.returned?] using hs.in_order,
      fun hg => absurd rfl hg, hs.done, hs.taken,
      by simpa [Event.isFailure] using hs.failures_le⟩

theorem Delivers.leaveProducer (h : Delivers t d) {p : Producer} (hd : d.producer ≠ .gone)
    (hp : p ≠ .gone) :
    Delivers t { d with channel := d.channel.leaveProducer, producer := p } :=
  h.congr (.producer_turn hd hp fun _ _ => Wake.isAsleep_leave _)

theorem Delivers.dropProducer (h : Delivers t d) (hd : d.producer ≠ .gone) :
    Delivers (t ++ [.ended (.failed Channel.droppedProducer)]) d.dropProducer := by
  unfold Duct.dropProducer
  cases hp : d.producer with
  | gone => exact absurd hp hd
  | idle => exact h.finish hd _
  | sending chunk => exact (h.leaveProducer hd (p := .idle) (by simp)).finish (by simp) _

theorem Delivers.watch (h : Delivers t d) (hd : d.producer ≠ .gone) :
    Delivers (t ++ [.quiet]) d.watchCancelled.2 := by
  obtain ⟨w, hw, he⟩ := watch_cases d
  rw [he]
  exact (h.congr (.producer_turn hd hd fun _ _ => hw)).skip Event.silent_quiet nofun

/-! ## The consumer's steps -/

theorem subscribe_cases (d : Duct) (o : Outlet) :
    (d.channel.subscribed = true ∧ (d.subscribe o).2 = d) ∨
      (d.channel.subscribed = false ∧ (d.subscription = none →
        (d.subscribe o).2 =
          { d with
            channel := { d.channel with subscribed := true }
            outlet := some { o with filters := [], attached := true }
            subscription := some ⟨o.filters, false⟩ })) := by
  unfold Duct.subscribe Outlet.subscribe Channel.subscribe
  cases hs : d.channel.subscribed with
  | true => exact .inl ⟨rfl, rfl⟩
  | false => exact .inr ⟨rfl, fun hn => by simp [hn]⟩

theorem Delivers.subscribe (h : Delivers t d) {o : Outlet} (ho : d.outlet = some o) :
    Delivers (t ++ [.quiet]) (d.subscribe o).2 := by
  refine Delivers.skip ?_ Event.silent_quiet nofun
  rcases subscribe_cases d o with ⟨_, he⟩ | ⟨hs, he⟩
  · rwa [he]
  · rw [he (h.lone hs)]
    exact
      { outlet := by rintro _ ⟨⟩; exact ⟨rfl, rfl⟩
        filters := by rintro _ ⟨⟩; exact (h.outlet o ho).1
        source := h.source
        lone := nofun
        awake := h.awake
        isOpen := fun hc =>
          have hi := h.isOpen hc
          ⟨hi.uncancelled, hi.accepted_eq, hi.terminal, hi.unended, by rintro _ ⟨⟩; rfl,
            hi.unfailed⟩
        isShut := fun hc => by
          rcases (h.isShut hc).taken with ht | ht
          · rw [ht] at hs
            cases hs
          · rw [ht] at ho
            cases ho }

theorem Delivers.cut (h : Delivers t d) {w : Wake} {o : Option Outlet} {s : Option Subscription}
    (ho : ∀ o', o = some o' → d.outlet = some o')
    (hs : ∀ s', s = some s' → s'.filters = [] ∧ s'.done = true)
    (hl : d.channel.subscribed = false → s = none)
    (ht : d.channel.subscribed = true ∨ o = none) :
    Delivers (t ++ [.cancelled])
      { d with
        channel := ({ d.channel with consumer := w } : Channel).cancel, outlet := o
        subscription := s } where
  outlet o' hd := by simpa using h.outlet o' (ho o' hd)
  filters s' hd := (hs s' hd).1
  source := by simpa using h.source
  lone := by simpa using hl
  awake _ := Channel.isAsleep_producer_cancel h.awake
  isOpen hc := by simp [Event.closes] at hc
  isShut _ :=
    ⟨by simpa [Event.accepted?, Event.returned?] using h.in_order, by simp,
      fun s' hd => (hs s' hd).2, by simpa using ht,
      by simpa [Event.isFailure] using h.failures_le⟩

theorem Delivers.dropOutlet (h : Delivers t d) {o : Outlet} (ho : d.outlet = some o) :
    Delivers (t ++ [if o.attached then .quiet else .cancelled]) (d.dropOutlet o) := by
  have hs := (h.outlet o ho).2
  unfold Duct.dropOutlet Outlet.drop
  cases ha : o.attached with
  | true =>
    refine (h.congr ?_).skip Event.silent_quiet nofun
    exact ⟨rfl, rfl, rfl, rfl, rfl, .rfl, (fun _ h => nomatch h), fun _ h => h, id⟩
  | false =>
    have hn := h.lone (hs.symm.trans ha)
    exact h.cut (w := d.channel.consumer) (fun _ h => nomatch h) (by simp [hn]) (fun _ => hn)
      (.inr rfl)

theorem Delivers.cancel (h : Delivers t d) {s : Subscription} (hs : d.subscription = some s) :
    Delivers (t ++ [.cancelled]) (d.cancel s) := by
  unfold Duct.cancel Subscription.cancel
  cases hd : s.done with
  | true =>
    refine (h.congr ?_).skip Event.silent_cancelled fun _ => (h.isClosed_eq hs).trans hd
    exact ⟨rfl, rfl, rfl, rfl, rfl, .rfl, fun _ h => h, fun _ h => hs.trans h, id⟩
  | false =>
    refine h.cut (w := d.channel.consumer) (fun _ h => h) ?_ ?_ (.inl (h.subscribed hs))
    · rintro _ ⟨⟩
      exact ⟨h.filters s hs, rfl⟩
    · rw [h.subscribed hs]
      nofun

theorem Delivers.dropSubscription (h : Delivers t d) {s : Subscription}
    (hs : d.subscription = some s) :
    Delivers (t ++ [.cancelled]) (d.dropSubscription s) := by
  unfold Duct.dropSubscription Subscription.drop Subscription.cancel
  cases hd : s.done with
  | true =>
    refine (h.congr ?_).skip Event.silent_cancelled fun _ => (h.isClosed_eq hs).trans hd
    exact ⟨rfl, rfl, rfl, rfl, rfl, .rfl, fun _ h => h, (fun _ h => nomatch h), id⟩
  | false =>
    exact h.cut (fun _ h => h) (fun _ h => nomatch h) (fun _ => rfl) (.inl (h.subscribed hs))

theorem Delivers.request (h : Delivers t d) {s : Subscription} (n : Nat) :
    Delivers (t ++ [.requested (!s.done) n]) (d.request s n) := by
  refine (h.congr ?_).skip (Event.silent_requested _ n) nofun
  unfold Duct.request Subscription.request
  cases s.done with
  | true => exact ⟨rfl, rfl, rfl, rfl, rfl, .rfl, fun _ h => h, fun _ h => h, id⟩
  | false =>
    exact ⟨Channel.queue_grant n h.source,
      by simpa [h.source] using Channel.source_grant n h.source, Channel.terminal_grant n h.source, by simp, by simp, .rfl, fun _ h => h, fun _ h => h,
      fun ha hc => Channel.isAsleep_producer_grant n (ha hc)⟩

theorem Delivers.leave (h : Delivers t d) :
    Delivers (t ++ [.quiet])
      { d with channel := { d.channel with consumer := d.channel.consumer.leave } } := by
  refine (h.congr ?_).skip Event.silent_quiet nofun
  exact ⟨rfl, rfl, rfl, rfl, rfl, .rfl, fun _ h => h, fun _ h => h, id⟩

/-! ## Reading -/

theorem Delivers.taken (h : Delivers t d) {s : Subscription} {ch : Channel} {chunk : Bytes}
    {rest : List Bytes} {auto : Bool} {g : Grants} (hs : d.subscription = some s)
    (hd : s.done = false) (ha : Agrees d { d with channel := ch })
    (hq : ch.queue = chunk :: rest) :
    Allowed t (.polled auto (.chunk chunk) g) ∧
      Delivers (t ++ [.polled auto (.chunk chunk) g])
        { d with
          channel := { ch with queue := rest }
          subscription := some { s with filters := [] } } := by
  have hc : isClosed t = false := (h.isClosed_eq hs).trans hd
  have hn := h.congr ha
  have ho := hn.isOpen hc
  have he : accepted t = returned t ++ [chunk] ++ rest := by
    simpa [hq] using ho.accepted_eq
  constructor
  · simp only [Allowed, hc, Bool.false_eq_true, if_false]
    exact ⟨rest, he.symm⟩
  · exact
      { outlet := hn.outlet
        filters := by rintro _ ⟨⟩; rfl
        source := hn.source
        lone := fun hl => Bool.noConfusion ((hn.subscribed hs).symm.trans hl)
        awake := hn.awake
        isOpen := fun _ =>
          ⟨ho.uncancelled, by simpa [Event.accepted?, Event.returned?] using he,
            by simpa [Event.terminal?] using ho.terminal, ho.unended,
            by rintro _ ⟨⟩; exact hd, by simpa [Event.isFailure] using ho.unfailed⟩
        isShut := fun hx => by simp [hc, Event.closes] at hx }

def told : Terminal → Polled
  | .completed => .finished
  | .failed e => .failed e

theorem close_of_unfiltered {s : Subscription} (hf : s.filters = []) (e : Terminal) (ch : Channel)
    (cells : Cells) :
    s.close e ch cells =
      ⟨told e, { s with done := true }, { ch with terminal := none }, cells⟩ := by
  cases e with
  | completed => simp [Subscription.close, Filter.completeAll, hf, told]
  | failed e => rfl

theorem Delivers.closed (h : Delivers t d) {s : Subscription} {ch : Channel} {e : Terminal}
    {auto : Bool} {g : Grants} (hs : d.subscription = some s) (hd : s.done = false)
    (ha : Agrees d { d with channel := ch }) (hq : ch.queue = []) (ht : ch.terminal = some e) :
    Allowed t (.polled auto (told e) g) ∧
      Delivers (t ++ [.polled auto (told e) g])
        { d with
          channel := { ch with terminal := none }
          subscription := some { s with done := true } } := by
  have hc : isClosed t = false := (h.isClosed_eq hs).trans hd
  have hn := h.congr ha
  have ho := hn.isOpen hc
  have he : returned t = accepted t := by simpa [hq] using ho.accepted_eq.symm
  have hf : (terminals t).head? = some e := ho.terminal.trans ht
  constructor
  · cases e <;> simp [told, Allowed, hc, he, hf]
  · exact
      { outlet := hn.outlet
        filters := by rintro _ ⟨⟩; exact h.filters s hs
        source := hn.source
        lone := fun hl => Bool.noConfusion ((hn.subscribed hs).symm.trans hl)
        awake := hn.awake
        isOpen := fun hx => by cases e <;> simp [told, Event.closes] at hx
        isShut := fun _ =>
          ⟨by cases e <;> simp [told, Event.accepted?, Event.returned?, he],
            fun hp => absurd (ho.unended hp) (by simp [ht]), by rintro _ ⟨⟩; rfl,
            .inl (hn.subscribed hs), by cases e <;> simp [told, Event.isFailure, ho.unfailed]⟩ }

theorem Agrees.primed (hs : d.channel.source = none) (auto : Bool) (w : Wake) :
    Agrees d { d with channel := ({ d.channel with consumer := w } : Channel).primed auto } where
  queue := Channel.queue_primed hs
  source := by
    rw [hs]
    exact Channel.source_primed hs
  terminal := Channel.terminal_primed hs
  cancelled := Channel.cancelled_primed _ _
  subscribed := Channel.subscribed_primed _ _
  producer := .rfl
  outlet _ h := h
  subscription _ h := h
  awake ha hc := Channel.isAsleep_producer_primed (ha hc)

theorem Delivers.look (h : Delivers t d) {s : Subscription} (auto : Bool)
    (hs : d.subscription = some s) :
    Allowed t (.polled auto (d.look s auto).1 (s.pollGrants auto d.channel)) ∧
      Delivers (t ++ [.polled auto (d.look s auto).1 (s.pollGrants auto d.channel)])
        (d.look s auto).2 := by
  have hc := h.isClosed_eq hs
  have hf := h.filters s hs
  have same : Agrees d { d with subscription := some s } :=
    ⟨rfl, rfl, rfl, rfl, rfl, .rfl, fun _ h => h, fun _ h => hs.trans h, id⟩
  unfold Duct.look
  obtain ⟨hd, hg, hp⟩ | ⟨hd, hg, hp⟩ | ⟨hd, hl⟩ :=
    Subscription.poll_cases auto s d.channel d.cells
  · rw [hp, hg]
    refine ⟨by simp [Allowed, hc, hd], ?_⟩
    exact (h.congr same).skip (Event.silent_finished _ _) fun _ => hc.trans hd
  · rw [hp, hg]
    refine ⟨by simp [Allowed, hc, hd], ?_⟩
    exact (h.congr same).skip (Event.silent_pending _ _) nofun
  · have ha := Agrees.primed h.source auto d.channel.consumer.resume
    generalize s.pollGrants auto d.channel = g at hl ⊢
    generalize s.poll auto d.channel d.cells = p at hl ⊢
    cases hl with
    | spent =>
      refine ⟨by simp [Allowed, hc, hd], (h.congr ?_).skip (Event.silent_pending _ _) nofun⟩
      exact ⟨rfl, rfl, rfl, rfl, rfl, .rfl, fun _ h => h, fun _ h => hs.trans h, id⟩
    | taken hq hp =>
      rw [hf] at hp
      cases hp
      exact h.taken hs hd ha hq
    | withheld hq hp _ =>
      rw [hf] at hp
      cases hp
    | refused hq hp =>
      rw [hf] at hp
      cases hp
    | closed hq ht =>
      rw [close_of_unfiltered hf]
      exact h.closed hs hd ha hq ht
    | waits hq ht =>
      refine ⟨by simp [Allowed, hc, hd], (h.congr ?_).skip (Event.silent_pending _ _) nofun⟩
      exact ⟨ha.queue, ha.source, ha.terminal, ha.cancelled, ha.subscribed, .rfl, fun _ h => h,
        fun _ h => hs.trans h, ha.awake⟩

/-! ## Runs -/

theorem Delivers.piped : Delivers [] (piped [] cells) where
  outlet := by rintro _ ⟨⟩; exact ⟨rfl, rfl⟩
  filters := nofun
  source := rfl
  lone _ := rfl
  awake := nofun
  isOpen _ := ⟨rfl, rfl, rfl, fun _ => rfl, nofun, rfl⟩
  isShut := nofun

theorem Delivers.step (h : Delivers t d) (hs : Step d e d') :
    Allowed t e ∧ Delivers (t ++ [e]) d' := by
  cases hs with
  | send hp => exact h.send hp
  | giveUp hp => exact ⟨trivial, (h.leaveProducer (by simp [hp]) (by simp)).skip
      Event.silent_quiet nofun⟩
  | watch hp => exact ⟨trivial, h.watch (by simp [hp])⟩
  | complete hp => exact ⟨trivial, h.finish (by simp [hp]) _⟩
  | fail e hp => exact ⟨trivial, h.finish (by simp [hp]) _⟩
  | dropProducer hp => exact ⟨trivial, h.dropProducer hp⟩
  | subscribe ho => exact ⟨trivial, h.subscribe ho⟩
  | @dropOutlet o ho =>
    refine ⟨?_, h.dropOutlet ho⟩
    cases o.attached <;> exact trivial
  | request n hs => exact ⟨trivial, h.request n⟩
  | look auto hs => exact h.look auto hs
  | leave hs => exact ⟨trivial, h.leave⟩
  | cancel hs => exact ⟨trivial, h.cancel hs⟩
  | dropSubscription hs => exact ⟨trivial, h.dropSubscription hs⟩

theorem run_delivers (h : Run (Duct.piped [] cells) t d) : Delivers t d := by
  induction h with
  | nil => exact .piped
  | snoc _ hs ih => exact (ih.step hs).2

/-- What a run shows at any point is what it was allowed to show there. -/
theorem run_allowed {past later : List Event} (h : Run (Duct.piped [] cells) t d)
    (ht : t = past ++ e :: later) : Allowed past e := by
  induction h generalizing later with
  | nil => simp at ht
  | @snoc t' d d' e' hr hs ih =>
    rcases List.eq_nil_or_concat later with rfl | ⟨later', last, rfl⟩
    · obtain ⟨rfl, he⟩ := List.append_inj' ht rfl
      cases he
      exact ((run_delivers hr).step hs).1
    · rw [List.concat_eq_append, ← List.cons_append, ← List.append_assoc] at ht
      exact ih (List.append_inj' ht rfl).1

/-- At every moment the consumer has been given the accepted chunks in their order up to some
point. It is told of the end, the producer's first, once there is nothing left, and of an error
only once; after the end or a cancel it finds nothing more, and after a cancel no chunk is taken. -/
theorem channel_delivers (h : Run (piped [] cells) t d) :
    returned t <+: accepted t ∧
      (∀ past e later, t = past ++ e :: later → Allowed past e) ∧ failures t ≤ 1 :=
  ⟨(run_delivers h).in_order, fun _ _ _ ht => run_allowed h ht, (run_delivers h).failures_le⟩

theorem channel_delivers_one_chunk :
    let t := [.quiet, .requested true 2, .sent [104] (some (.ok ())), .ended .completed,
      .polled false (.chunk [104]) .none, .polled true .finished .none]
    (∃ d, Run (piped [] default) t d) ∧ returned t <+: accepted t ∧
      (∀ past e later, t = past ++ e :: later → Allowed past e) ∧ failures t ≤ 1 := by
  have h₀ : Run (piped [] default) [] _ := .nil
  have hr := h₀ |>.snoc (.subscribe rfl) |>.snoc (.request 2 rfl)
    |>.snoc (.send (.inl rfl) : Step _ (.sent [104] _) _) |>.snoc (.complete rfl)
    |>.snoc (.look false rfl) |>.snoc (.look true rfl)
  exact ⟨⟨_, hr⟩, channel_delivers hr⟩

end Courier.Rehearsal.Duct
