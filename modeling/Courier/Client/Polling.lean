import Courier.Client.Pause
import Courier.Pool.Calls

/-! # Polling an execution

An event loop polls an execution: it goes on until it has to wait or gives way to others. While a
body is streamed each party goes once in a poll, and they take turns at going first.
-/

namespace Courier

/-- What those who are polled share. -/
structure Shift (ω κ ξ : Type) where
  world : World ω κ ξ
  /-- How many waits may still end in this poll. -/
  allowance : Nat
  /-- How many alarms have been set so far. -/
  alarms : Nat

namespace Shift

variable {ω κ ξ : Type}

def now (s : Shift ω κ ξ) : Nat :=
  s.world.now

def isSpent (s : Shift ω κ ξ) : Bool :=
  s.allowance = 0

def spend (n : Nat) (s : Shift ω κ ξ) : Shift ω κ ξ :=
  { s with allowance := s.allowance - n }

end Shift

namespace Execution

variable {κ η α : Type}

/-- Did the step from `before` wake a party? A pump that is cut off wakes the handler. -/
def hasWoken (before x : Execution κ η α) : Bool :=
  match before.phase, x.phase with
  | .streaming s, .streaming t => s.hasWoken t.turn t
  | .streaming s, .finished _ => !s.pump.isEnded && s.channel.consumer.isAsleep
  | _, _ => false

def withTurn (x : Execution κ η α) (turn : Party) : Execution κ η α :=
  match x.phase with
  | .streaming s => { x with phase := .streaming { s with turn } }
  | _ => x

end Execution

/-- An execution in a poll. -/
structure Poll (ω κ ξ η α : Type) where
  execution : Execution κ η α
  alarm : Option Alarm
  shift : Shift ω κ ξ
  /-- Who has been called, in this order. -/
  calls : List Call
  /-- It gave way for want of allowance. -/
  tired : Bool

namespace Poll

variable {ω κ ξ η α : Type}

def start (x : Execution κ η α) (alarm : Option Alarm) (shift : Shift ω κ ξ) :
    Poll ω κ ξ η α :=
  ⟨x, alarm, shift, [], false⟩

def giveWay (p : Poll ω κ ξ η α) : Poll ω κ ξ η α :=
  { p with tired := true }

def withTurn (p : Poll ω κ ξ η α) (turn : Party) : Poll ω κ ξ η α :=
  { p with execution := p.execution.withTurn turn }

def step (c : Client ω κ ξ) (h : Handler η α) (p : Poll ω κ ξ η α) : Option (Poll ω κ ξ η α) :=
  (p.execution.step c h p.shift.world).map fun (x, world) =>
    let cost := p.execution.cost p.alarm p.shift.now x
    let woken := if p.execution.hasWoken x then [.own] else []
    { p with
      execution := x
      shift := { p.shift.spend cost with world }
      calls := p.calls ++ woken ++ p.shift.world.pool.calls world.pool }

/-- A party goes on until it has to wait; before every read the pump looks at the allowance. -/
def party (c : Client ω κ ξ) (h : Handler η α) (who : Party) : Nat → Poll ω κ ξ η α →
    Poll ω κ ξ η α
  | 0, p => p
  | steps + 1, p =>
    match p.execution.streaming? with
    | none => p
    | some s =>
      if who = .pump && s.isReading && p.shift.isSpent then p.giveWay
      else if s.isBlocked h p.execution.handler p.shift.now who then p
      else
        match (p.withTurn who).step c h with
        | none => p
        | some p => party c h who steps p

/-- Both parties go; next time the other one goes first. -/
def round (c : Client ω κ ξ) (h : Handler η α) (lead : Party) (steps : Nat)
    (p : Poll ω κ ξ η α) : Poll ω κ ξ η α :=
  let p := p.party c h lead steps
  let p := p.party c h lead.other steps
  p.withTurn lead.other

def run (c : Client ω κ ξ) (h : Handler η α) : Nat → Poll ω κ ξ η α → Poll ω κ ξ η α
  | 0, p => p
  | steps + 1, p =>
    if p.shift.isSpent && p.execution.isCostly p.shift.now then p.giveWay
    else
      match p.execution.streaming? with
      | some s =>
        let p := p.round c h s.turn steps
        if p.execution.streaming?.isSome then p else run c h steps p
      | none =>
        match p.step c h with
        | none => p
        | some p => run c h steps p

/-- Sets the alarm for the pause it has come to, if it may. -/
def setAlarm (p : Poll ω κ ξ η α) : Poll ω κ ξ η α :=
  match p.execution.pause? with
  | none => { p with alarm := none }
  | some pause =>
    if p.alarm.any (·.pause = pause) then p
    else if p.shift.isSpent then { p with alarm := none }
    else
      { p with
        alarm := some ⟨pause, p.shift.alarms⟩
        shift := { p.shift with alarms := p.shift.alarms + 1 } }

end Poll

/-- One poll, of at most so many steps. -/
def Execution.poll {ω κ ξ η α : Type} (c : Client ω κ ξ) (h : Handler η α) (steps : Nat)
    (alarm : Option Alarm) (x : Execution κ η α) (shift : Shift ω κ ξ) : Poll ω κ ξ η α :=
  let p := Poll.start x alarm shift
  if shift.isSpent && x.isWatching then p.giveWay else (p.run c h steps).setAlarm

end Courier
