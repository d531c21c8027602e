import Courier.Text.Inspect

/-! # Abort signals

A signal is raised once, with a reason. Callbacks registered before run when it is raised, in the
order of their registration; a callback registered later runs at once. A callback may register
others, try to raise the signal again, or break off. Whoever waits for the signal sleeps until it
is raised.

Raising a signal is taken as one call. In between, the flag is up before the reason is there, and
whoever looks at both then finds no reason; nothing is said here of such a look.
-/

namespace Courier

inductive AbortCallback.Action (callback : Type)
  | register (c : callback)
  | abort (reason : String)
  | panic

/-- A callback, told apart by its number, and what it does in turn. -/
inductive AbortCallback
  | mk (id : Nat) (actions : List (AbortCallback.Action AbortCallback))

structure AbortSignal where
  aborted : Bool
  reason : Option String
  callbacks : List AbortCallback
  /-- The callbacks that have run, latest last. -/
  ran : List Nat
  /-- How often all who wait have been woken. -/
  wakeups : Nat

namespace AbortSignal

def start : AbortSignal := ⟨false, none, [], [], 0⟩

instance : Inhabited AbortSignal := ⟨start⟩

mutual

def runCallback (s : AbortSignal) : AbortCallback → AbortSignal
  | .mk id actions => runActions { s with ran := s.ran ++ [id] } actions

/-- What a callback does while the signal is up: what it registers runs at once, and raising the
signal again changes nothing. -/
def runActions (s : AbortSignal) : List (AbortCallback.Action AbortCallback) → AbortSignal
  | [] => s
  | .register c :: actions => runActions (runCallback s c) actions
  | .abort _ :: actions => runActions s actions
  | .panic :: _ => s

end

def onAbort (s : AbortSignal) (c : AbortCallback) : AbortSignal :=
  if s.aborted then s.runCallback c else { s with callbacks := s.callbacks ++ [c] }

/-- Raises the signal; false if it was up before. All who wait are woken before a callback runs. -/
def abort (s : AbortSignal) (reason : String) : Bool × AbortSignal :=
  if s.aborted then (false, s)
  else
    (true, s.callbacks.foldl runCallback
      { s with
        aborted := true, reason := some reason, callbacks := [], wakeups := s.wakeups + 1 })

/-- One who waits for the signal, and who has yet to look or sleeps since so many wake-ups. -/
inductive Watcher
  | fresh
  | asleep (wakeups : Nat)
  deriving DecidableEq, Repr

/-- Looks whether the signal is up: nobody waits any more, or sleeps on. -/
def look (s : AbortSignal) : Option Watcher :=
  if s.aborted then none else some (.asleep s.wakeups)

/-- Waits, or goes on waiting: looks again only when woken. -/
def poll (s : AbortSignal) : Watcher → Option Watcher
  | .fresh => s.look
  | .asleep wakeups => if wakeups = s.wakeups then some (.asleep wakeups) else s.look

def inspect (s : AbortSignal) : String :=
  Inspect.record "AbortSignal"
    [("aborted", Inspect.flag s.aborted), ("reason", Inspect.option (s.reason.map Inspect.text))]

end AbortSignal

end Courier
