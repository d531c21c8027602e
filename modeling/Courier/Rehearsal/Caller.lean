import Courier.Client.Pause

/-! # Callers

Each caller follows a list of acts around one execution, which runs in the callers' task or in a
task of its own.
-/

namespace Courier.Rehearsal

/-- Where an execution runs: in the callers' task, or in one of its own on the event loop. -/
inductive Place
  | inline
  | loop
  deriving DecidableEq, Repr

inductive Act
  | sleep (millis : Nat)
  | launch (place : Place)
  /-- Looks at the state of the execution, and whether it is finished. -/
  | look
  | abort (reason : String)
  | awaitState (s : ExecutionState)
  | join
  /-- Waits for the outcome so long, and then aborts the execution and leaves it. -/
  | joinFor (millis : Nat) (reason : String)
  /-- Lets everyone else go first, so many times. -/
  | giveWay (times : Nat)
  | close
  /-- Closes the client, unless there are callers who go on beside this one. -/
  | closeAlone
  deriving DecidableEq, Repr

/-- When to be woken, and how many alarms were set before. -/
structure Bell where
  due : Nat
  order : Nat
  deriving DecidableEq, Repr

structure Caller (κ η α : Type) where
  acts : List Act
  execution : Execution κ η α
  place : Option Place
  /-- The alarm of the first act. -/
  bell : Option Bell
  /-- The alarm of the execution. -/
  alarm : Option Alarm
  /-- Do the acts go before the execution in the next poll? -/
  actsFirst : Bool
  /-- Is the caller to be woken when its task ends? -/
  listening : Bool
  sights : List (ExecutionState × Bool)
  /-- For each abort, whether it was the first. -/
  aborts : List Bool
  leftEarly : Bool

namespace Caller

variable {κ η α : Type}

def start (acts : List Act) (execution : Execution κ η α) : Caller κ η α :=
  ⟨acts, execution, none, none, none, false, false, [], [], false⟩

def isDone (t : Caller κ η α) : Bool :=
  t.acts.isEmpty

def isRunning (t : Caller κ η α) (place : Place) : Bool :=
  t.place = some place && !t.execution.isFinished

def launch (t : Caller κ η α) (place : Place) (now : Nat) : Caller κ η α :=
  { t with place := some place, execution := { t.execution with started := now } }

def abort (t : Caller κ η α) (reason : String) : Caller κ η α :=
  let (first, execution) := t.execution.abort reason
  { t with execution, aborts := t.aborts ++ [first] }

def isRung (t : Caller κ η α) (millis now : Nat) : Bool :=
  match t.bell with
  | some bell => bell.due ≤ now
  | none => millis = 0

/-- Does the first act have to do with the event loop, so that its end takes from the allowance? -/
def isPaced (t : Caller κ η α) : Bool :=
  match t.acts with
  | .sleep _ :: _ => true
  | .join :: _ => t.place = some .loop
  | .joinFor _ _ :: _ => true
  | _ => false

/-- Can the first act be done now? An execution is launched inline in the course of a turn. -/
def canPass (t : Caller κ η α) (now : Nat) : Bool :=
  match t.acts with
  | [] => false
  | .sleep millis :: _ => t.isRung millis now
  | .launch place :: _ => place = .loop
  | .awaitState s :: _ => t.execution.state = s || t.execution.isFinished
  | .join :: _ => t.execution.isFinished
  | .joinFor millis _ :: _ => t.execution.isFinished || t.isRung millis now
  | .giveWay times :: _ => times = 0
  | _ => true

/-- How often a caller gives way after it has left an execution, so that the abort takes effect. -/
def courtesy : Nat := 4

end Caller

end Courier.Rehearsal
