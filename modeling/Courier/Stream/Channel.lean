import Courier.Bytes
import Courier.Error
import Courier.Word

/-! # Body channels

One producer and one consumer share a channel. The consumer grants demand, the producer spends it
a chunk at a time, and the end of the stream is told once. Whoever has to wait leaves a mark that
the other side answers with a wake-up.
-/

namespace Courier

inductive Terminal
  | completed
  | failed (error : Error)
  deriving DecidableEq, Repr

inductive Waiter
  | absent
  | waiting
  | notified
  deriving DecidableEq, Repr

/-- A wake-up for one party: it reaches the one who waits, or is kept for the next to wait. -/
structure Wake where
  permit : Bool
  waiter : Waiter
  deriving DecidableEq, Repr

namespace Wake

def idle : Wake := ⟨false, .absent⟩

def notify (w : Wake) : Wake :=
  match w.waiter with
  | .waiting => { w with waiter := .notified }
  | _ => { w with permit := true }

/-- Waits. A wake-up kept from before only costs another look at a state that has not changed. -/
def wait (_ : Wake) : Wake :=
  ⟨false, .waiting⟩

/-- The waiting party looks again. -/
def resume (w : Wake) : Wake :=
  { w with waiter := .absent }

/-- The waiting party goes away; a wake-up it has not used is passed on. -/
def leave (w : Wake) : Wake :=
  match w.waiter with
  | .notified => ⟨true, .absent⟩
  | _ => { w with waiter := .absent }

def isAsleep (w : Wake) : Bool :=
  w.waiter = .waiting

end Wake

structure Channel where
  demand : Nat
  queue : List Bytes
  source : Option (List Bytes)
  terminal : Option Terminal
  subscribed : Bool
  cancelled : Bool
  producer : Wake
  consumer : Wake
  deriving DecidableEq, Repr

namespace Channel

/-- Demand counts up to 2⁶⁴ - 1 and stays there. -/
def maxDemand : Nat := wordSize 64 - 1

def start : Channel :=
  { demand := 0, queue := [], source := none, terminal := none, subscribed := false,
    cancelled := false, producer := .idle, consumer := .idle }

instance : Inhabited Channel := ⟨start⟩

/-- Chunks that will reach the consumer without the producer's help. -/
def stored (ch : Channel) : Nat :=
  ch.queue.length + (ch.source.getD []).length

/-- Moves chunks of an in-memory source to the queue while there is demand. -/
def drainSource (ch : Channel) : Channel :=
  match ch.source with
  | none => ch
  | some source =>
    let moved := source.take ch.demand
    let rest := source.drop ch.demand
    { ch with
      demand := ch.demand - moved.length
      queue := ch.queue ++ moved
      source := some rest
      terminal := if rest.isEmpty && ch.terminal.isNone then some .completed else ch.terminal }

/-- A channel that delivers chunks from memory; empty chunks are left out. -/
def ofChunks (chunks : List Bytes) : Channel :=
  { start with source := some (chunks.filter (!·.isEmpty)) }.drainSource

/-! ## The consumer's side -/

def grant (ch : Channel) (n : Nat) : Channel :=
  if n = 0 || ch.cancelled then ch
  else
    let ch := { ch with demand := min (ch.demand + n) maxDemand }.drainSource
    { ch with producer := ch.producer.notify, consumer := ch.consumer.notify }

def cancel (ch : Channel) : Channel :=
  if ch.cancelled then ch
  else { ch with cancelled := true, queue := [], demand := 0, producer := ch.producer.notify }

/-- Grants one chunk when nothing is there to be read and none was asked for. -/
def topUp (ch : Channel) : Channel :=
  if ch.queue.isEmpty && ch.terminal.isNone && ch.demand = 0 && !ch.cancelled then
    let ch := { ch with demand := 1 }.drainSource
    { ch with producer := ch.producer.notify }
  else ch

def subscribe (ch : Channel) : Except Error Channel :=
  if ch.subscribed then .error .alreadySubscribed else .ok { ch with subscribed := true }

/-! ## The producer's side -/

def cancelledSend : Error :=
  .cancelled "body consumer cancelled the stream"

def droppedProducer : Error :=
  .transmission "body producer dropped before completion"

def finish (ch : Channel) (t : Terminal) : Channel :=
  { ch with terminal := ch.terminal.or (some t), consumer := ch.consumer.notify }

/-- One look at whether the chunk can go: `none` while there is no demand. -/
def offer (ch : Channel) (chunk : Bytes) : Option (Except Error Unit) × Channel :=
  if chunk.isEmpty then (some (.ok ()), ch)
  else if ch.cancelled then (some (.error cancelledSend), ch)
  else if 0 < ch.demand then
    (some (.ok ()),
      { ch with
        demand := ch.demand - 1, queue := ch.queue ++ [chunk], consumer := ch.consumer.notify })
  else (none, ch)

/-- Sends, or goes on sending: waits for demand, and looks again only when woken. -/
def send (ch : Channel) (chunk : Bytes) : Option (Except Error Unit) × Channel :=
  if ch.producer.isAsleep then (none, ch)
  else
    match { ch with producer := ch.producer.resume }.offer chunk with
    | (none, ch) => (none, { ch with producer := ch.producer.wait })
    | done => done

/-- Watches for the consumer to cancel: true once it has. -/
def watchCancelled (ch : Channel) : Bool × Channel :=
  if ch.producer.isAsleep then (false, ch)
  else
    let ch := { ch with producer := ch.producer.resume }
    if ch.cancelled then (true, ch) else (false, { ch with producer := ch.producer.wait })

/-- The producer stops waiting without an answer. -/
def leaveProducer (ch : Channel) : Channel :=
  { ch with producer := ch.producer.leave }

def complete (ch : Channel) : Channel :=
  ch.finish .completed

def fail (ch : Channel) (error : Error) : Channel :=
  ch.finish (.failed error)

def dropProducer (ch : Channel) : Channel :=
  ch.fail droppedProducer

end Channel

end Courier
