import Courier.Http.Response
import Courier.Stream.ByteStream

/-! # Response handlers

A handler is told of each step of an attempt and reads the body by moves of its own choice. A move
that has to wait is tried again; every other one is answered by a report.
-/

namespace Courier

namespace Handler

inductive Move
  | subscribe
  | pull
  | next
  | request (n : Nat)
  | cancel
  | leave
  | finish (result : Except Error Unit)

/-- A move that may have to wait for a chunk. -/
def Move.waits : Move → Bool
  | pull => true
  | next => true
  | _ => false

inductive Report
  | subscribed (result : Except Error Unit)
  | item (result : Option (Except Error Bytes))
  | done

end Handler

/-- A handler with state `η` that makes an `α` of the response. -/
structure Handler (η α : Type) where
  prepare : η → η
  headersReceived : ResponseHead → η → η
  /-- The body is handed over, with the length it declares. -/
  openBody : Option Nat → η → η
  move : η → Handler.Move
  observe : Handler.Report → η → η
  exceptionOccurred : Error → η → η
  complete : η → Except Error α × η

/-- What a handler holds of a body: the stream as it was handed over, and the subscription. -/
structure Tap where
  outlet : Option Outlet
  subscription : Option Subscription

namespace Tap

def ofOutlet (o : Outlet) : Tap := ⟨some o, none⟩

def gone : Tap := ⟨none, none⟩

/-- Lets go of everything held. -/
def drop (t : Tap) (ch : Channel) : Channel :=
  let ch := (t.subscription.map (·.drop ch)).getD ch
  (t.outlet.map (·.drop ch)).getD ch

/-- What a move did: no report means that it has to wait. -/
structure Outcome where
  report : Option Handler.Report
  tap : Tap
  channel : Channel
  cells : Cells

def reported : Polled → Option Handler.Report
  | .pending => none
  | .chunk bytes => some (.item (some (.ok bytes)))
  | .failed e => some (.item (some (.error e)))
  | .finished => some (.item none)

def read (auto : Bool) (t : Tap) (ch : Channel) (cells : Cells) : Outcome :=
  match t.subscription with
  | none => ⟨some (.item none), t, ch, cells⟩
  | some s =>
    let p := s.poll auto ch cells
    ⟨reported p.outcome, { t with subscription := some p.subscription }, p.channel, p.cells⟩

def apply (t : Tap) (m : Handler.Move) (ch : Channel) (cells : Cells) : Outcome :=
  match m with
  | .subscribe =>
    match t.outlet with
    | none => ⟨some (.subscribed (.error .alreadySubscribed)), t, ch, cells⟩
    | some o =>
      match o.subscribe ch with
      | .error e => ⟨some (.subscribed (.error e)), t, ch, cells⟩
      | .ok (s, o, ch) => ⟨some (.subscribed (.ok ())), ⟨some o, some s⟩, ch, cells⟩
  | .pull => t.read true ch cells
  | .next => t.read false ch cells
  | .request n =>
    ⟨some .done, t, (t.subscription.map (·.request n ch)).getD ch, cells⟩
  | .cancel =>
    match t.subscription with
    | none => ⟨some .done, t, ch, cells⟩
    | some s =>
      let (s, ch) := s.cancel ch
      ⟨some .done, { t with subscription := some s }, ch, cells⟩
  | .leave => ⟨some .done, gone, t.drop ch, cells⟩
  | .finish _ => ⟨some .done, gone, t.drop ch, cells⟩

end Tap

namespace Handler

variable {η α : Type}

/-- How reading a body with no producer behind it ended; no result means that it never ends. -/
structure Reading (η : Type) where
  result : Option (Except Error Unit)
  state : η
  cells : Cells

/-- Lets the handler read a stream that holds its channel, for so many moves. -/
def readHeld (h : Handler η α) : Nat → η → Tap → Channel → Cells → Reading η
  | 0, state, _, _, cells => ⟨none, state, cells⟩
  | moves + 1, state, tap, ch, cells =>
    match h.move state with
    | .finish result => ⟨some result, state, cells⟩
    | move =>
      let out := tap.apply move ch cells
      match out.report with
      | none => ⟨none, state, out.cells⟩
      | some report => readHeld h moves (h.observe report state) out.tap out.channel out.cells

def onStream (h : Handler η α) (moves : Nat) (state : η) (body : ByteStream) (cells : Cells) :
    Reading η :=
  h.readHeld moves (h.openBody body.outlet.declared state) (.ofOutlet body.outlet) body.channel
    cells

/-- Either of two handlers. -/
def sum {θ β : Type} (h : Handler η α) (k : Handler θ β) : Handler (η ⊕ θ) (α ⊕ β) where
  prepare := Sum.map h.prepare k.prepare
  headersReceived head := Sum.map (h.headersReceived head) (k.headersReceived head)
  openBody declared := Sum.map (h.openBody declared) (k.openBody declared)
  move := Sum.elim h.move k.move
  observe report := Sum.map (h.observe report) (k.observe report)
  exceptionOccurred e := Sum.map (h.exceptionOccurred e) (k.exceptionOccurred e)
  complete
    | .inl state =>
      let (outcome, state) := h.complete state
      (outcome.map .inl, .inl state)
    | .inr state =>
      let (outcome, state) := k.complete state
      (outcome.map .inr, .inr state)

/-! ## How far a handler has got with a body -/

inductive Stage
  | idle
  | opening
  | reading
  | ended (result : Except Error Unit)

def Stage.move : Stage → Move
  | idle => .finish (.ok ())
  | opening => .subscribe
  | reading => .pull
  | ended result => .finish result

end Handler

/-! ## Buffering -/

structure BufferedResponse where
  head : ResponseHead
  body : Bytes
  deriving DecidableEq, Repr

/-- Keeps the head and the whole body. -/
structure Buffering where
  head : Option ResponseHead
  body : Bytes
  gathered : Bytes
  stage : Handler.Stage

namespace Buffering

def start : Buffering := ⟨none, [], [], .idle⟩

def observe (r : Handler.Report) (b : Buffering) : Buffering :=
  match r with
  | .subscribed (.ok ()) => { b with stage := .reading }
  | .subscribed (.error e) => { b with stage := .ended (.error e) }
  | .item (some (.ok chunk)) => { b with gathered := b.gathered ++ chunk }
  | .item (some (.error e)) => { b with stage := .ended (.error e) }
  | .item none => { b with body := b.gathered, stage := .ended (.ok ()) }
  | .done => b

def headless : Error :=
  .responseDecode "response completed without headers"

def handler : Handler Buffering BufferedResponse where
  prepare b := { b with head := none, body := [] }
  headersReceived head b := { b with head := some head }
  openBody _ b := { b with gathered := [], stage := .opening }
  move b := b.stage.move
  observe := observe
  exceptionOccurred _ b := { b with head := none }
  complete b :=
    match b.head with
    | none => (.error headless, b)
    | some head => (.ok ⟨head, b.body⟩, { b with head := none, body := [] })

end Buffering

/-! ## Recording -/

inductive HandlerEvent
  | prepare
  | headers (status : Nat)
  | chunk (length : Nat)
  | bodyComplete
  | exception (kind : ErrorKind)
  | complete
  deriving DecidableEq, Repr

/-- Keeps the body and a record of everything it was told. -/
structure Recording where
  events : List HandlerEvent
  body : Bytes
  stage : Handler.Stage

namespace Recording

def start : Recording := ⟨[], [], .idle⟩

def note (r : Recording) (e : HandlerEvent) : Recording :=
  { r with events := r.events ++ [e] }

def observe (report : Handler.Report) (r : Recording) : Recording :=
  match report with
  | .subscribed (.ok ()) => { r with stage := .reading }
  | .subscribed (.error e) => { r with stage := .ended (.error e) }
  | .item (some (.ok chunk)) => { r.note (.chunk chunk.length) with body := r.body ++ chunk }
  | .item (some (.error e)) => { r with stage := .ended (.error e) }
  | .item none => { r.note .bodyComplete with stage := .ended (.ok ()) }
  | .done => r

def handler : Handler Recording Bytes where
  prepare r := { r.note .prepare with body := [] }
  headersReceived head r := r.note (.headers head.status)
  openBody _ r := { r with stage := .opening }
  move r := r.stage.move
  observe := observe
  exceptionOccurred e r := r.note (.exception e.kind)
  complete r := (.ok r.body, { r.note .complete with body := [] })

end Recording

end Courier
