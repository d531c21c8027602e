import Courier.Client.Execution

/-! # Pauses

What an execution waits for, and what it costs to come to the end of it. An event loop lets so many
waits end in one poll; with nothing of that allowance left an execution gives way at the next point
where it could wait.
-/

namespace Courier

/-- What an execution waits for. -/
inductive Pause
  | permit (ticket : Nat)
  | dial (lease : Nat)
  | send (lease : Nat)
  | head (lease : Nat)
  | chunk (lease : Nat) (wait : Wait)
  | backoff (retries : Nat)
  deriving DecidableEq, Repr

/-- The alarm set for a pause, and how many were set before it. -/
structure Alarm where
  pause : Pause
  order : Nat
  deriving DecidableEq, Repr

namespace Streaming

variable {κ : Type}

/-- The read under way. -/
def wait? (s : Streaming κ) : Option Wait :=
  match s.pump with
  | .reading wait => some wait
  | _ => none

def pause? (s : Streaming κ) : Option Pause :=
  s.wait?.map (.chunk s.lease.id)

def isReading (s : Streaming κ) : Bool :=
  s.wait?.isSome

end Streaming

namespace Execution

variable {κ η α : Type}

def pause? (x : Execution κ η α) : Option Pause :=
  match x.phase with
  | .acquiring _ (.waiting ticket _) => some (.permit ticket)
  | .acquiring _ (.dialing lease _) => some (.dial lease)
  | .sending _ _ lease _ => some (.send lease.id)
  | .awaiting lease _ => some (.head lease.id)
  | .streaming s => s.pause?
  | .waiting _ => some (.backoff x.retries)
  | _ => none

/-- The operation under way, where it has a deadline. -/
def wait? (x : Execution κ η α) : Option Wait :=
  match x.phase with
  | .acquiring _ (.dialing _ wait) => some wait
  | .awaiting _ wait => some wait
  | .streaming s => s.wait?
  | _ => none

/-- A body of which a party has not come to its end. -/
def streaming? (x : Execution κ η α) : Option (Streaming κ) :=
  match x.phase with
  | .streaming s => if x.signal.aborted || s.outcome?.isSome then none else some s
  | _ => none

/-! ## The allowance -/

/-- The phases in which an abort is watched for; they begin with a look at the allowance. -/
def isWatching (x : Execution κ η α) : Bool :=
  match x.phase with
  | .waiting _ => true
  | phase => phase.inAttempt

/-- Has it come to watch for an abort? -/
def hearsAbort (alarm : Option Alarm) (x : Execution κ η α) : Bool :=
  match x.phase with
  | .prepared => false
  | .waiting _ => alarm.isSome
  | phase => phase.inAttempt

/-- Does it need some of the allowance to go on from here? What is there at once needs none. -/
def isCostly (x : Execution κ η α) (now : Nat) : Bool :=
  match x.phase with
  | .prepared => true
  | .waiting _ => true
  | .acquiring _ (.waiting _ _) => true
  | .acquiring _ (.dialing _ wait) => !wait.isComplete now
  | .sending _ _ _ due => !due.any (· ≤ now)
  | .awaiting _ wait => !wait.isComplete now
  | _ => false

/-- Has the operation under way run out of time? -/
def isOverdue (x : Execution κ η α) (now : Nat) : Bool :=
  x.wait?.any fun wait => wait.status now = .expired

/-- A pump that has nobody left to read for does not see its pause to the end. -/
def isCut (x : Execution κ η α) : Bool :=
  x.signal.aborted ||
    match x.phase with
    | .streaming s => s.channel.cancelled
    | _ => false

/-- What the step from `x` to `y` takes from the allowance: one for the end of a pause that had its
alarm or ran out of time, and in any case one for a permit and for a delay between attempts. -/
def cost (alarm : Option Alarm) (now : Nat) (x y : Execution κ η α) : Nat :=
  match x.pause? with
  | none => 0
  | some pause =>
    if y.pause? = some pause || x.isCut then 0
    else
      match pause with
      | .permit _ => 1
      | .backoff _ => 1
      | _ => if x.isOverdue now || alarm.any (·.pause = pause) then 1 else 0

end Execution

end Courier
