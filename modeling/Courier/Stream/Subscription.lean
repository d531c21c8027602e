import Courier.Stream.Channel
import Courier.Stream.Filter
import Courier.Text.Inspect

/-! # Subscriptions

A subscription reads a channel through a stack of filters. `next` waits for a chunk within the
demand granted so far; `pull` grants one when there is none.
-/

namespace Courier

inductive Polled
  | pending
  | chunk (bytes : Bytes)
  | failed (error : Error)
  | finished
  deriving DecidableEq, Repr

structure Subscription where
  filters : List Filter
  done : Bool

/-- What a poll gave, and the subscription, channel and cells after it. -/
structure Pull where
  outcome : Polled
  subscription : Subscription
  channel : Channel
  cells : Cells

namespace Subscription

/-- Ends the stream the way its producer did; a filter may object to a completion. -/
def close (s : Subscription) (t : Terminal) (ch : Channel) (cells : Cells) : Pull :=
  let ch := { ch with terminal := none }
  match t with
  | .failed e => ⟨.failed e, { s with done := true }, ch, cells⟩
  | .completed =>
    match Filter.completeAll s.filters cells with
    | (.ok (), filters, cells) => ⟨.finished, ⟨filters, true⟩, ch, cells⟩
    | (.error e, filters, cells) => ⟨.failed e, ⟨filters, true⟩, ch, cells⟩

/-- Looks for a chunk that gets through the filters. Each look takes one chunk off the channel, so
the chunks stored there bound the looks. -/
def look (auto : Bool) : Nat → Subscription → Channel → Cells → Pull
  | 0, s, ch, cells => ⟨.pending, s, ch, cells⟩
  | looks + 1, s, ch, cells =>
    let ch := if auto then ch.topUp else ch
    match ch.queue, ch.terminal with
    | chunk :: rest, _ =>
      let ch := { ch with queue := rest }
      match Filter.pushAll s.filters chunk with
      | (.ok (some out), filters) => ⟨.chunk out, { s with filters }, ch, cells⟩
      | (.ok none, filters) => look auto looks { s with filters } (ch.grant 1) cells
      | (.error e, filters) => ⟨.failed e, ⟨filters, true⟩, ch.cancel, cells⟩
    | [], some t => s.close t ch cells
    | [], none => ⟨.pending, s, { ch with consumer := ch.consumer.wait }, cells⟩

/-- Reads on, or goes on reading: looks again only when woken. -/
def poll (auto : Bool) (s : Subscription) (ch : Channel) (cells : Cells) : Pull :=
  if s.done then ⟨.finished, s, ch, cells⟩
  else if ch.consumer.isAsleep then ⟨.pending, s, ch, cells⟩
  else look auto (ch.stored + 1) s { ch with consumer := ch.consumer.resume } cells

def next : Subscription → Channel → Cells → Pull :=
  poll false

def pull : Subscription → Channel → Cells → Pull :=
  poll true

def request (s : Subscription) (n : Nat) (ch : Channel) : Channel :=
  if s.done then ch else ch.grant n

def cancel (s : Subscription) (ch : Channel) : Subscription × Channel :=
  if s.done then (s, ch) else ({ s with done := true }, ch.cancel)

/-- The subscription goes away; a stream it has not read to its end is cancelled. -/
def drop (s : Subscription) (ch : Channel) : Channel :=
  (s.cancel { ch with consumer := ch.consumer.leave }).2

/-- Pulls up to the end, an error, or a chunk that is not there yet. -/
def pullAll : Nat → Subscription → Channel → Cells → List Bytes × Pull
  | 0, s, ch, cells => ([], ⟨.pending, s, ch, cells⟩)
  | pulls + 1, s, ch, cells =>
    let p := s.pull ch cells
    match p.outcome with
    | .chunk bytes =>
      let (rest, last) := pullAll pulls p.subscription p.channel p.cells
      (bytes :: rest, last)
    | _ => ([], p)

def readAll (s : Subscription) (ch : Channel) (cells : Cells) : List Bytes × Pull :=
  pullAll (ch.stored + 1) s ch cells

def inspect (s : Subscription) : String :=
  Inspect.record "BodySubscription" [("done", Inspect.flag s.done)]

end Subscription

/-- What collecting gave: nothing while the stream has not ended. -/
def collected (chunks : List Bytes) : Polled → Option (Except Error Bytes)
  | .pending => none
  | .chunk _ => none
  | .failed e => some (.error e)
  | .finished => some (.ok chunks.flatten)

end Courier
