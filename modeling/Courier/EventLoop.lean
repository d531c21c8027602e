import Courier.Error

/-! # Event loops

A client runs its tasks on a loop of its own or on the one it was started in. Only a loop of its
own can be shut down, and then runs nothing more.
-/

namespace Courier

inductive EventLoop
  | borrowed
  | owned (threads : Nat)
  | stopped
  deriving DecidableEq, Repr, Inhabited

namespace EventLoop

def start (threads : Nat) : Except Error EventLoop :=
  if threads = 0 then .error (.configuration "event_loop_threads" "must be at least 1")
  else .ok (.owned threads)

def noReactor : String :=
  "there is no reactor running, must be called from the context of a Tokio 1.x runtime"

/-- The loop of the caller, if the caller runs in one. -/
def current (inside : Bool) : Except Error EventLoop :=
  if inside then .ok .borrowed else .error (.configuration "event_loop" noReactor)

def isOwned : EventLoop → Bool
  | owned _ => true
  | _ => false

def isRunning : EventLoop → Bool
  | stopped => false
  | _ => true

def shutdown : EventLoop → EventLoop
  | owned _ => stopped
  | l => l

end EventLoop

end Courier
