import Mathlib.Algebra.GroupWithZero.Nat
import Courier.Proofs.Stream.Subscription
import Courier.Rehearsal.Duct

/-! # Two ends in any order

The steps of a producer and a consumer that share a channel, with what can be seen of each. A run is
any interleaving of them; its trace lists what was seen, latest last. A send or a reading that has
to wait may be looked at again or given up.
-/

namespace Courier.Rehearsal.Duct

def piped (filters : List Filter) (cells : Cells) : Duct :=
  { start cells with outlet := some { Outlet.start with filters } }

/-- Chunks in memory under a stack of filters; there is no producer. -/
def poured (chunks : List Bytes) (filters : List Filter) (cells : Cells) : Duct :=
  let s := ByteStream.ofChunks chunks
  ofStream { s with outlet := { s.outlet with filters } } cells

/-- What is seen of a step. -/
inductive Event
  | sent (chunk : Bytes) (answer : Option (Except Error Unit))
  | ended (t : Terminal)
  | requested (live : Bool) (n : Nat)
  | polled (auto : Bool) (outcome : Polled) (grants : Grants)
  | cancelled
  | quiet

/-- A look for a chunk that is kept up: one that has to wait goes on waiting. -/
def look (d : Duct) (s : Subscription) (auto : Bool) : Polled × Duct :=
  let p := s.poll auto d.channel d.cells
  (p.outcome,
    { d with channel := p.channel, cells := p.cells, subscription := some p.subscription })

inductive Step : Duct → Event → Duct → Prop

  | send {d : Duct} {chunk : Bytes} (h : d.producer = .idle ∨ d.producer = .sending chunk) :
      Step d (.sent chunk (d.send chunk).1) (d.send chunk).2

  | giveUp {d : Duct} {chunk : Bytes} (h : d.producer = .sending chunk) :
      Step d .quiet { d with channel := d.channel.leaveProducer, producer := .idle }

  | watch {d : Duct} (h : d.producer = .idle) : Step d .quiet d.watchCancelled.2

  | complete {d : Duct} (h : d.producer = .idle) : Step d (.ended .completed) d.complete

  | fail {d : Duct} (e : Error) (h : d.producer = .idle) : Step d (.ended (.failed e)) (d.fail e)

  | dropProducer {d : Duct} (h : d.producer ≠ .gone) :
      Step d (.ended (.failed Channel.droppedProducer)) d.dropProducer

  | subscribe {d : Duct} {o : Outlet} (h : d.outlet = some o) : Step d .quiet (d.subscribe o).2

  | dropOutlet {d : Duct} {o : Outlet} (h : d.outlet = some o) :
      Step d (if o.attached then .quiet else .cancelled) (d.dropOutlet o)

  | request {d : Duct} {s : Subscription} (n : Nat) (h : d.subscription = some s) :
      Step d (.requested (!s.done) n) (d.request s n)

  | look {d : Duct} {s : Subscription} (auto : Bool) (h : d.subscription = some s) :
      Step d (.polled auto (d.look s auto).1 (s.pollGrants auto d.channel)) (d.look s auto).2

  | leave {d : Duct} {s : Subscription} (h : d.subscription = some s) :
      Step d .quiet { d with channel := { d.channel with consumer := d.channel.consumer.leave } }

  | cancel {d : Duct} {s : Subscription} (h : d.subscription = some s) :
      Step d .cancelled (d.cancel s)

  | dropSubscription {d : Duct} {s : Subscription} (h : d.subscription = some s) :
      Step d .cancelled (d.dropSubscription s)

inductive Run (d₀ : Duct) : List Event → Duct → Prop

  | nil : Run d₀ [] d₀

  | snoc {t : List Event} {d d' : Duct} {e : Event} :
      Run d₀ t d → Step d e d' → Run d₀ (t ++ [e]) d'

theorem send_cases (d : Duct) (chunk : Bytes) :
    ∃ r, Channel.Sends d.channel chunk r ∧ (d.send chunk).1 = r.1 ∧
      ∃ p, p ≠ .gone ∧ (d.send chunk).2 = { d with channel := r.2, producer := p } := by
  refine ⟨_, Channel.sends_send d.channel chunk, ?_⟩
  unfold send
  rcases d.channel.send chunk with ⟨_ | r, ch⟩
  · exact ⟨rfl, .sending chunk, by simp, rfl⟩
  · exact ⟨rfl, .idle, by simp, rfl⟩

theorem watch_cases (d : Duct) :
    ∃ w : Wake, w.isAsleep = false ∧
      d.watchCancelled.2 = { d with channel := { d.channel with producer := w } } := by
  obtain ⟨w, hw, he⟩ := Channel.leaveProducer_watchCancelled d.channel
  exact ⟨w, hw, congrArg (fun ch => { d with channel := ch }) he⟩

/-! ## What a trace tells -/

namespace Event

def accepted? : Event → Option Bytes
  | sent chunk (some (.ok ())) => if chunk = [] then none else some chunk
  | _ => none

def returned? : Event → Option Bytes
  | polled _ outcome _ => outcome.chunk?
  | _ => none

def terminal? : Event → Option Terminal
  | ended t => some t
  | _ => none

def requestedUnits : Event → Nat
  | requested true n => n
  | _ => 0

def ownUnits : Event → Nat
  | polled _ _ grants => grants.own
  | _ => 0

def replacedUnits : Event → Nat
  | polled _ _ grants => grants.replaced
  | _ => 0

def isCancel : Event → Bool
  | cancelled => true
  | _ => false

def isFailure : Event → Bool
  | polled _ (.failed _) _ => true
  | _ => false

def isPull : Event → Bool
  | polled auto _ _ => auto
  | _ => false

/-- The consumer has seen the end, or will not look any more. -/
def closes : Event → Bool
  | polled _ (.failed _) _ => true
  | polled _ .finished _ => true
  | cancelled => true
  | _ => false

end Event

def accepted (t : List Event) : List Bytes := t.filterMap Event.accepted?
def returned (t : List Event) : List Bytes := t.filterMap Event.returned?
def terminals (t : List Event) : List Terminal := t.filterMap Event.terminal?

def isClosed (t : List Event) : Bool := t.any Event.closes
def isCancelled (t : List Event) : Bool := t.any Event.isCancel
def failures (t : List Event) : Nat := t.countP Event.isFailure

def requestedUnits (t : List Event) : Nat := (t.map Event.requestedUnits).sum
def ownUnits (t : List Event) : Nat := (t.map Event.ownUnits).sum
def replacedUnits (t : List Event) : Nat := (t.map Event.replacedUnits).sum

section Snoc

variable (t : List Event) (e : Event)

@[simp] theorem accepted_snoc : accepted (t ++ [e]) = accepted t ++ e.accepted?.toList := by
  cases h : e.accepted? <;> simp [accepted, h]

@[simp] theorem returned_snoc : returned (t ++ [e]) = returned t ++ e.returned?.toList := by
  cases h : e.returned? <;> simp [returned, h]

@[simp] theorem terminals_snoc : terminals (t ++ [e]) = terminals t ++ e.terminal?.toList := by
  cases h : e.terminal? <;> simp [terminals, h]

@[simp] theorem isClosed_snoc : isClosed (t ++ [e]) = (isClosed t || e.closes) := by
  simp [isClosed]

@[simp] theorem failures_snoc :
    failures (t ++ [e]) = failures t + if e.isFailure then 1 else 0 := by
  simp [failures, List.countP_append, List.countP_singleton]

@[simp] theorem requestedUnits_snoc :
    requestedUnits (t ++ [e]) = requestedUnits t + e.requestedUnits := by
  simp [requestedUnits]

@[simp] theorem ownUnits_snoc : ownUnits (t ++ [e]) = ownUnits t + e.ownUnits := by
  simp [ownUnits]

@[simp] theorem replacedUnits_snoc :
    replacedUnits (t ++ [e]) = replacedUnits t + e.replacedUnits := by
  simp [replacedUnits]

end Snoc

theorem isClosed_of_isCancelled {t : List Event} (h : isCancelled t = true) :
    isClosed t = true := by
  simp only [isCancelled, isClosed, List.any_eq_true] at h ⊢
  obtain ⟨e, he, hc⟩ := h
  refine ⟨e, he, ?_⟩
  cases e <;> simp_all [Event.isCancel, Event.closes]

end Courier.Rehearsal.Duct
