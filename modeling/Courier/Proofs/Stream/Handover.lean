import Courier.Proofs.Stream.Subscription
import Courier.Stream.ByteStream

/-! # Two ends, one critical section at a time

An operation changes the state of a channel at once, wakes whom it has to wake afterwards, one after
the other, and waits by itself. The ends of a channel are followed here from one of these to the
next, in any order, so that either may find the other between a change and the wake-up for it.
-/

namespace Courier

inductive Side
  | producer
  | consumer
  deriving DecidableEq, Repr

namespace Wake

/-- Neither has a wake-up reached the one who waits, nor is one kept. -/
def isUnwoken (w : Wake) : Bool :=
  w.waiter != .notified && !w.permit

/-- One who has to wait takes a wake-up that is kept, or waits, or goes on once it is woken. -/
inductive Awaits : Wake → Wake → Bool → Prop

  | takes : Awaits ⟨true, .absent⟩ ⟨false, .absent⟩ true

  | waits : Awaits ⟨false, .absent⟩ ⟨false, .waiting⟩ false

  | resumes (permit : Bool) : Awaits ⟨permit, .notified⟩ ⟨permit, .absent⟩ true

end Wake

namespace Channel

variable (ch : Channel)

/-- The channel with the wake-ups of another: what has changed between them, and nobody woken. -/
def withWakesOf (ch' : Channel) : Channel :=
  { ch with producer := ch'.producer, consumer := ch'.consumer }

def withProducer (w : Wake) : Channel :=
  { ch with producer := w }

def withConsumer (w : Wake) : Channel :=
  { ch with consumer := w }

def wake : Side → Channel
  | .producer => { ch with producer := ch.producer.notify }
  | .consumer => { ch with consumer := ch.consumer.notify }

/-! ## Whom an operation wakes -/

def offerWakes (chunk : Bytes) : List Side :=
  if chunk.isEmpty || ch.cancelled || ch.demand = 0 then [] else [.consumer]

def grantWakes (n : Nat) : List Side :=
  if n = 0 || ch.cancelled then [] else [.producer, .consumer]

def cancelWakes : List Side :=
  if ch.cancelled then [] else [.producer]

/-- An operation is its change of the state and then these wake-ups. -/
def Parts (ch ch' : Channel) (wakes : List Side) : Prop :=
  ch' = wakes.foldl wake (ch'.withWakesOf ch)

/-- What a look at whether a chunk can go comes to. -/
inductive Offers (ch : Channel) (chunk : Bytes) :
    Option (Except Error Unit) × Channel → List Side → Prop

  | empty (h : chunk = []) : Offers ch chunk (some (.ok ()), ch) []

  | refused (h : chunk ≠ []) (hc : ch.cancelled = true) :
      Offers ch chunk (some (.error cancelledSend), ch) []

  | accepted (h : chunk ≠ []) (hc : ch.cancelled = false) (hd : 0 < ch.demand) :
      Offers ch chunk (some (.ok ()),
        { ch with
          demand := ch.demand - 1, queue := ch.queue ++ [chunk], consumer := ch.consumer.notify })
        [.consumer]

  | blocked (h : chunk ≠ []) (hc : ch.cancelled = false) (hd : ch.demand = 0) :
      Offers ch chunk (none, ch) []

theorem offers_offer (chunk : Bytes) :
    Offers ch chunk (ch.offer chunk) (ch.offerWakes chunk) := by
  by_cases h : chunk = []
  · subst h
    simpa [offer, offerWakes] using Offers.empty rfl
  · by_cases hc : ch.cancelled = true
    · simpa [offer, offerWakes, h, hc] using Offers.refused h hc
    · rw [Bool.not_eq_true] at hc
      by_cases hd : 0 < ch.demand
      · have hn : ch.demand ≠ 0 := by omega
        simpa [offer, offerWakes, h, hc, hd, hn] using Offers.accepted h hc hd
      · have hn : ch.demand = 0 := by omega
        simpa [offer, offerWakes, h, hc, hn] using Offers.blocked h hc hn

theorem parts_offer (chunk : Bytes) :
    Parts ch (ch.offer chunk).2 (ch.offerWakes chunk) := by
  have ho := ch.offers_offer chunk
  generalize ch.offer chunk = r at ho ⊢
  generalize ch.offerWakes chunk = wakes at ho ⊢
  cases ho <;> rfl

theorem consumer_drainSource : ch.drainSource.consumer = ch.consumer := by
  unfold drainSource
  split <;> rfl

theorem parts_grant (n : Nat) : Parts ch (ch.grant n) (ch.grantWakes n) := by
  unfold Parts grant grantWakes
  split
  · rfl
  · simp [withWakesOf, wake, consumer_drainSource]

theorem parts_cancel : Parts ch ch.cancel ch.cancelWakes := by
  unfold Parts cancel cancelWakes
  split <;> rfl

theorem parts_topUp (h : ch.isDry = true) : Parts ch ch.topUp [.producer] := by
  rw [topUp_of_isDry h]
  simp [Parts, withWakesOf, wake, consumer_drainSource]

theorem parts_finish (t : Terminal) : Parts ch (ch.finish t) [.consumer] :=
  rfl

end Channel

theorem Outlet.channel_subscribe {o o' : Outlet} {s : Subscription} {ch ch' : Channel}
    (h : o.subscribe ch = .ok (s, o', ch')) : ch' = { ch with subscribed := true } := by
  unfold subscribe Channel.subscribe at h
  split at h
  · cases h
  · rename_i hs
    split at hs <;> cases hs
    cases h
    rfl

/-! ## Where the ends stand -/

namespace Handover

/-- The producer: about to look whether a chunk can go or whether the consumer has cancelled, or
waiting for that after it has looked. -/
inductive Producer
  | gone
  | idle
  | sending (chunk : Bytes)
  | blocked (chunk : Bytes)
  | watching
  | guarding

/-- The consumer: with a stream nobody has subscribed to, about to look for a chunk, to make good
for one withheld or to refuse the rest, or waiting for one after it has looked. -/
inductive Consumer
  | gone
  | holding (o : Outlet)
  | idle (s : Subscription)
  | reading (s : Subscription) (auto : Bool)
  | replacing (s : Subscription) (auto : Bool)
  | refusing (s : Subscription)
  | blocked (s : Subscription) (auto : Bool)

/-- Where one who waits goes on. -/
def Producer.resumed? : Producer → Option Producer
  | blocked chunk => some (sending chunk)
  | guarding => some watching
  | _ => none

def Consumer.resumed? : Consumer → Option Consumer
  | blocked s auto => some (reading s auto)
  | _ => none

def Consumer.left : Consumer → Consumer
  | blocked s _ => idle s
  | c => c

theorem Producer.resumed?_eq_none {p p' : Producer} (h : p.resumed? = some p') :
    p'.resumed? = none := by
  cases p <;> cases h <;> rfl

theorem Consumer.resumed?_eq_none {c c' : Consumer} (h : c.resumed? = some c') :
    c'.resumed? = none := by
  cases c with
  | blocked s auto =>
    cases h
    rfl
  | _ => cases h

theorem Consumer.resumed?_left (c : Consumer) : c.left.resumed? = none := by
  cases c <;> rfl

end Handover

/-- A channel with its ends, and the wake-ups that each of them has yet to give. -/
structure Handover where
  channel : Channel
  cells : Cells
  producer : Handover.Producer
  consumer : Handover.Consumer
  producerOwes : List Side
  consumerOwes : List Side

namespace Handover

def start (o : Outlet) (cells : Cells) : Handover :=
  ⟨.start, cells, .idle, .holding o, [], []⟩

def ofChunks (chunks : List Bytes) (o : Outlet) (cells : Cells) : Handover :=
  ⟨.ofChunks chunks, cells, .gone, .holding o, [], []⟩

/-- One thing that one of the ends does. Before anything else it gives the wake-ups it owes. -/
inductive Step : Handover → Handover → Prop

  | producerWakes {d : Handover} {side : Side} {rest : List Side}
      (ho : d.producerOwes = side :: rest) :
      Step d { d with channel := d.channel.wake side, producerOwes := rest }

  | send {d : Handover} (chunk : Bytes) (hp : d.producer = .idle) (ho : d.producerOwes = []) :
      Step d { d with producer := .sending chunk }

  | offer {d : Handover} {chunk : Bytes} (hp : d.producer = .sending chunk)
      (ho : d.producerOwes = []) :
      Step d
        { d with
          channel := (d.channel.offer chunk).2.withWakesOf d.channel
          producer := if (d.channel.offer chunk).1.isSome then .idle else .blocked chunk
          producerOwes := d.channel.offerWakes chunk }

  | watch {d : Handover} (hp : d.producer = .idle) (ho : d.producerOwes = []) :
      Step d { d with producer := .watching }

  | observe {d : Handover} (hp : d.producer = .watching) (ho : d.producerOwes = []) :
      Step d { d with producer := if d.channel.cancelled then .idle else .guarding }

  | producerAwaits {d : Handover} {p : Producer} {w : Wake} {goesOn : Bool}
      (hp : d.producer.resumed? = some p) (hw : d.channel.producer.Awaits w goesOn) :
      Step d
        { d with
          channel := d.channel.withProducer w
          producer := if goesOn then p else d.producer }

  | producerLeaves {d : Handover} {p : Producer} (hp : d.producer.resumed? = some p) :
      Step d { d with channel := d.channel.leaveProducer, producer := .idle }

  | finish {d : Handover} (t : Terminal) (hp : d.producer = .idle) (ho : d.producerOwes = []) :
      Step d
        { d with
          channel := (d.channel.finish t).withWakesOf d.channel
          producer := .gone
          producerOwes := [.consumer] }

  | consumerWakes {d : Handover} {side : Side} {rest : List Side}
      (ho : d.consumerOwes = side :: rest) :
      Step d { d with channel := d.channel.wake side, consumerOwes := rest }

  | subscribe {d : Handover} {o o' : Outlet} {s : Subscription} {ch : Channel}
      (hc : d.consumer = .holding o) (ho : d.consumerOwes = [])
      (hs : o.subscribe d.channel = .ok (s, o', ch)) :
      Step d { d with channel := ch, consumer := .idle s }

  | abandon {d : Handover} {o : Outlet} (hc : d.consumer = .holding o)
      (ho : d.consumerOwes = []) :
      Step d
        { d with
          channel := (o.drop d.channel).withWakesOf d.channel
          consumer := .gone
          consumerOwes := if o.attached then [] else d.channel.cancelWakes }

  | request {d : Handover} {s : Subscription} (n : Nat) (hc : d.consumer = .idle s)
      (hd : s.done = false) (ho : d.consumerOwes = []) :
      Step d
        { d with
          channel := (d.channel.grant n).withWakesOf d.channel
          consumerOwes := d.channel.grantWakes n }

  | read {d : Handover} {s : Subscription} (auto : Bool) (hc : d.consumer = .idle s)
      (hd : s.done = false) (ho : d.consumerOwes = []) :
      Step d { d with consumer := .reading s auto }

  | taken {d : Handover} {s : Subscription} {auto : Bool} {chunk out : Bytes} {rest : List Bytes}
      {filters : List Filter} (hc : d.consumer = .reading s auto) (ho : d.consumerOwes = [])
      (hq : d.channel.queue = chunk :: rest)
      (hf : Filter.pushAll s.filters chunk = (.ok (some out), filters)) :
      Step d
        { d with
          channel := { d.channel with queue := rest }, consumer := .idle { s with filters } }

  | withheld {d : Handover} {s : Subscription} {auto : Bool} {chunk : Bytes} {rest : List Bytes}
      {filters : List Filter} (hc : d.consumer = .reading s auto) (ho : d.consumerOwes = [])
      (hq : d.channel.queue = chunk :: rest)
      (hf : Filter.pushAll s.filters chunk = (.ok none, filters)) :
      Step d
        { d with
          channel := { d.channel with queue := rest }
          consumer := .replacing { s with filters } auto }

  | replace {d : Handover} {s : Subscription} {auto : Bool} (hc : d.consumer = .replacing s auto)
      (ho : d.consumerOwes = []) :
      Step d
        { d with
          channel := (d.channel.grant 1).withWakesOf d.channel
          consumer := .reading s auto
          consumerOwes := d.channel.grantWakes 1 }

  | faulty {d : Handover} {s : Subscription} {auto : Bool} {chunk : Bytes} {rest : List Bytes}
      {filters : List Filter} {e : Error} (hc : d.consumer = .reading s auto)
      (ho : d.consumerOwes = []) (hq : d.channel.queue = chunk :: rest)
      (hf : Filter.pushAll s.filters chunk = (.error e, filters)) :
      Step d
        { d with
          channel := { d.channel with queue := rest }, consumer := .refusing ⟨filters, true⟩ }

  | refuse {d : Handover} {s : Subscription} (hc : d.consumer = .refusing s)
      (ho : d.consumerOwes = []) :
      Step d
        { d with
          channel := d.channel.cancel.withWakesOf d.channel
          consumer := .idle s
          consumerOwes := d.channel.cancelWakes }

  | close {d : Handover} {s : Subscription} {auto : Bool} {t : Terminal}
      (hc : d.consumer = .reading s auto) (ho : d.consumerOwes = []) (hq : d.channel.queue = [])
      (ht : d.channel.terminal = some t) :
      Step d
        { d with
          channel := (s.close t d.channel d.cells).channel
          cells := (s.close t d.channel d.cells).cells
          consumer := .idle (s.close t d.channel d.cells).subscription }

  | topUp {d : Handover} {s : Subscription} (hc : d.consumer = .reading s true)
      (ho : d.consumerOwes = []) (hd : d.channel.isDry = true) :
      Step d
        { d with
          channel := d.channel.topUp.withWakesOf d.channel, consumerOwes := [.producer] }

  | block {d : Handover} {s : Subscription} {auto : Bool} (hc : d.consumer = .reading s auto)
      (ho : d.consumerOwes = []) (hq : d.channel.queue = []) (ht : d.channel.terminal = none)
      (hd : auto = true → d.channel.isDry = false) : Step d { d with consumer := .blocked s auto }

  | consumerAwaits {d : Handover} {c : Consumer} {w : Wake} {goesOn : Bool}
      (hc : d.consumer.resumed? = some c) (hw : d.channel.consumer.Awaits w goesOn) :
      Step d
        { d with
          channel := d.channel.withConsumer w
          consumer := if goesOn then c else d.consumer }

  | consumerLeaves {d : Handover} {c : Consumer} (hc : d.consumer.resumed? = some c) :
      Step d
        { d with
          channel := d.channel.withConsumer d.channel.consumer.leave
          consumer := d.consumer.left }

  | cancel {d : Handover} {s : Subscription} (hc : d.consumer = .idle s) (hd : s.done = false)
      (ho : d.consumerOwes = []) :
      Step d
        { d with
          channel := d.channel.cancel.withWakesOf d.channel
          consumer := .idle { s with done := true }
          consumerOwes := d.channel.cancelWakes }

  | drop {d : Handover} {s : Subscription} (hc : d.consumer = .idle s) (ho : d.consumerOwes = []) :
      Step d
        { d with
          channel := (s.cancel d.channel).2.withWakesOf d.channel
          consumer := .gone
          consumerOwes := if s.done then [] else d.channel.cancelWakes }

/-- Any number of steps, in any order. -/
inductive Reaches (d : Handover) : Handover → Prop

  | refl : Reaches d d

  | tail {d' d'' : Handover} : Reaches d d' → Step d' d'' → Reaches d d''

variable {d d' d'' : Handover}

theorem Reaches.trans (h : Reaches d d') (h' : Reaches d' d'') : Reaches d d'' := by
  induction h' with
  | refl => exact h
  | tail _ hs ih => exact .tail ih hs

theorem Step.reaches (h : Step d d') : Reaches d d' :=
  .tail .refl h

end Handover

end Courier
