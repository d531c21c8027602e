import Courier.Client.Handler

/-! # Sampling handlers

A handler that takes so many chunks of a body and then leaves, cancels, fails, or drains the rest.
It may also refuse to complete. It notes whatever it is told or reads.
-/

namespace Courier.Rehearsal

inductive Ending
  | leave
  | cancel
  | fail (e : Error)
  | drain

/-- How a body is read; without a count it is not read at all. -/
structure Sample where
  take : Option Nat
  ending : Ending
  completion : Except Error Unit

inductive Note
  | headers (head : ResponseHead)
  | length (declared : Option Nat)
  | chunk (bytes : Bytes)
  | finished
  | rest (bytes : Bytes)
  | exception (e : Error)
  | complete

structure Sampling where
  sample : Sample
  notes : List Note
  taken : Nat
  gathered : Bytes
  stage : Handler.Stage

namespace Sampling

def ofSample (sample : Sample) : Sampling :=
  ⟨sample, [], 0, [], .idle⟩

def note (s : Sampling) (n : Note) : Sampling :=
  { s with notes := s.notes ++ [n] }

def finish (s : Sampling) (result : Except Error Unit) : Sampling :=
  { s with stage := .ended result }

def isDone (s : Sampling) : Bool :=
  s.sample.take.any (· ≤ s.taken)

def move (s : Sampling) : Handler.Move :=
  match s.stage with
  | .reading =>
    if s.isDone then
      match s.sample.ending with
      | .leave => .finish (.ok ())
      | .cancel => .cancel
      | .fail e => .finish (.error e)
      | .drain => .pull
    else .pull
  | stage => stage.move

def observeItem (item : Option (Except Error Bytes)) (s : Sampling) : Sampling :=
  match item, s.isDone with
  | some (.error e), _ => s.finish (.error e)
  | some (.ok bytes), false => { s.note (.chunk bytes) with taken := s.taken + 1 }
  | none, false => (s.note .finished).finish (.ok ())
  | some (.ok bytes), true => { s with gathered := s.gathered ++ bytes }
  | none, true => (s.note (.rest s.gathered)).finish (.ok ())

def observe (r : Handler.Report) (s : Sampling) : Sampling :=
  match r with
  | .subscribed (.ok ()) => { s with stage := .reading }
  | .subscribed (.error e) => s.finish (.error e)
  | .item item => s.observeItem item
  | .done => s.finish (.ok ())

def openBody (declared : Option Nat) (s : Sampling) : Sampling :=
  let s := { s.note (.length declared) with taken := 0, gathered := [] }
  if s.sample.take.isNone then s.finish (.ok ()) else { s with stage := .opening }

def handler : Handler Sampling Unit where
  prepare s := s
  headersReceived head s := s.note (.headers head)
  openBody := openBody
  move := move
  observe := observe
  exceptionOccurred e s := s.note (.exception e)
  complete s := (s.sample.completion, s.note .complete)

end Sampling

end Courier.Rehearsal
