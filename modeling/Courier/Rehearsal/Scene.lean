import Courier.Client.Polling
import Courier.Pool.Closing
import Courier.Rehearsal.Caller

/-! # The scene

Callers, who of them waits for a poll, and what their acts do. Only who has been woken is polled.
-/

namespace Courier.Rehearsal

/-- How many callers there may be for each to have a turn in every poll. -/
def maxTogether : Nat := 30

/-- How the callers get their turns: one caller after the other is done, all of them in every poll,
or whoever was woken. -/
inductive Company
  | solo
  | together
  | crowd
  deriving DecidableEq, Repr

def Company.ofCount (together : Bool) (count : Nat) : Company :=
  if !together then .solo else if count ≤ maxTogether then .together else .crowd

/-- Who can be woken: the callers' task, one caller of a crowd, or the task of a caller. -/
inductive Sleeper
  | main
  | caller (seat : Nat)
  | task (seat : Nat)
  deriving DecidableEq, Repr

/-- The callers, each named by its seat, and who waits for a poll. -/
structure Scene (ω κ ξ η α : Type) where
  callers : List (Caller κ η α)
  shift : Shift ω κ ξ
  company : Company
  /-- The tasks to be polled; one without a seat closes a connection. -/
  queue : List (Option Nat)
  /-- Those who gave way, the last of them first. -/
  deferred : List Sleeper
  isMainDue : Bool
  /-- Those of a crowd who were woken. -/
  ready : List Nat

namespace Scene

variable {ω κ ξ η α : Type}

def start (company : Company) (callers : List (Caller κ η α)) (world : World ω κ ξ) :
    Scene ω κ ξ η α :=
  ⟨callers, ⟨world, 0, 0⟩, company, [], [], true, List.range callers.length⟩

/-- How many waits may end in one poll of a task. -/
def allowance : Nat := 128

def refreshed (s : Scene ω κ ξ η α) : Scene ω κ ξ η α :=
  { s with shift := { s.shift with allowance } }

def put (seat : Nat) (t : Caller κ η α) (s : Scene ω κ ξ η α) : Scene ω κ ξ η α :=
  { s with callers := s.callers.set seat t }

def isDone (s : Scene ω κ ξ η α) (seat : Nat) : Bool :=
  s.callers[seat]?.all Caller.isDone

/-! ## Waking -/

/-- Who performs the acts of a caller. -/
def actor (s : Scene ω κ ξ η α) (seat : Nat) : Sleeper :=
  if s.company = .crowd then .caller seat else .main

/-- Who drives the execution of a caller. -/
def owner (s : Scene ω κ ξ η α) (seat : Nat) (t : Caller κ η α) : Sleeper :=
  if t.place = some .loop then .task seat else s.actor seat

def wake (who : Sleeper) (s : Scene ω κ ξ η α) : Scene ω κ ξ η α :=
  match who with
  | .main => { s with isMainDue := true }
  | .caller seat =>
    if s.ready.contains seat || s.isDone seat then s
    else { s with ready := s.ready ++ [seat], isMainDue := true }
  | .task seat =>
    if s.queue.contains (some seat) || !s.callers[seat]?.any (·.isRunning .loop) then s
    else { s with queue := s.queue ++ [some seat] }

def wakeAll (s : Scene ω κ ξ η α) (sleepers : List Sleeper) : Scene ω κ ξ η α :=
  sleepers.foldl (fun s who => s.wake who) s

/-- Who waits for a permit with this ticket. -/
def holder? (s : Scene ω κ ξ η α) (ticket : Nat) : Option Sleeper :=
  s.callers.zipIdx.findSome? fun (t, seat) =>
    if t.execution.pause? = some (.permit ticket) then some (s.owner seat t) else none

/-- Answers the calls that came of a move of `who`. -/
def hear (who : Sleeper) (calls : List Call) (s : Scene ω κ ξ η α) : Scene ω κ ξ η α :=
  calls.foldl
    (fun s call =>
      match call with
      | .own => s.wake who
      | .holder ticket => s.wakeAll (s.holder? ticket).toList
      | .closing => { s with queue := s.queue ++ [none] })
    s

/-- Puts off the next poll until everyone else has been polled. -/
def defer (who : Sleeper) (s : Scene ω κ ξ η α) : Scene ω κ ξ η α :=
  if s.deferred.head? = some who then s else { s with deferred := who :: s.deferred }

def wakeDeferred (s : Scene ω κ ξ η α) : Scene ω κ ξ η α :=
  { s with deferred := [] }.wakeAll s.deferred

/-! ## Acts -/

def abort (seat : Nat) (t : Caller κ η α) (reason : String) (s : Scene ω κ ξ η α) :
    Scene ω κ ξ η α :=
  let isHeard := !t.execution.signal.aborted && t.execution.hearsAbort t.alarm
  let s := s.put seat (t.abort reason)
  if isHeard then s.wake (s.owner seat t) else s

/-- Closes the pool; an event loop that stops takes all tasks along. -/
def close (c : Client ω κ ξ) (s : Scene ω κ ξ η α) : Scene ω κ ξ η α :=
  let w := s.shift.world
  let (pool, outside) := w.pool.close c.network w.outside
  let s := { s with shift := { s.shift with world := { w with pool, outside } } }
  let s := s.hear .main ((w.pool.answered pool).map .holder)
  if pool.eventLoop.isRunning then s
  else s.wakeAll ((List.range s.callers.length).map .task)

/-- The first act of the caller is done. -/
def pass (c : Client ω κ ξ) (seat : Nat) (t : Caller κ η α) (s : Scene ω κ ξ η α) :
    Scene ω κ ξ η α :=
  let s := if t.isPaced then { s with shift := s.shift.spend 1 } else s
  match t.acts with
  | [] => s
  | act :: acts =>
    let t := { t with acts, bell := none }
    match act with
    | .launch place => (s.put seat (t.launch place s.shift.now)).wake (.task seat)
    | .look =>
      s.put seat
        { t with sights := t.sights ++ [(t.execution.state, t.execution.isFinished)] }
    | .abort reason => s.abort seat t reason
    | .joinFor _ reason =>
      if t.execution.isFinished then s.put seat t
      else
        let acts := .giveWay Caller.courtesy :: acts
        s.abort seat { t with acts, listening := false, leftEarly := true } reason
    | .close => (s.put seat t).close c
    | .closeAlone =>
      let s := s.put seat t
      if s.company = .solo then s.close c else s
    | _ => s.put seat t

/-- Sees to it that the caller is woken for its first act, which has to wait. -/
def await (seat : Nat) (t : Caller κ η α) (s : Scene ω κ ξ η α) : Scene ω κ ξ η α :=
  let ring (millis : Nat) (t : Caller κ η α) : Scene ω κ ξ η α :=
    if t.bell.isSome then s.put seat t
    else
      { s.put seat { t with bell := some ⟨s.shift.now + millis, s.shift.alarms⟩ } with
        shift := { s.shift with alarms := s.shift.alarms + 1 } }
  match t.acts with
  | .sleep millis :: _ => ring millis t
  | .join :: _ => s.put seat { t with listening := true }
  | .joinFor millis _ :: _ => ring millis { t with listening := true }
  | .giveWay times :: acts =>
    (s.put seat { t with acts := .giveWay (times - 1) :: acts }).defer (s.actor seat)
  | _ => s

/-- The caller does its acts until one has to wait. -/
def perform (c : Client ω κ ξ) (seat : Nat) : Nat → Scene ω κ ξ η α → Scene ω κ ξ η α
  | 0, s => s
  | steps + 1, s =>
    match s.callers[seat]? with
    | none => s
    | some t =>
      if t.isPaced && s.shift.isSpent then s.defer (s.actor seat)
      else if !t.canPass s.shift.now then s.await seat t
      else perform c seat steps (s.pass c seat t)

end Scene

end Courier.Rehearsal
