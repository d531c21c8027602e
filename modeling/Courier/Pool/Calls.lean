import Courier.Pool.Basic

/-! # Whom the pool calls

A change of the pool may answer those who wait for a permit, in the order they came, and may leave
a connection to a task of its own that closes it.
-/

namespace Courier

/-- Who gets to move: whoever did the last move, whoever waits for a permit with this ticket, or a
task that closes a connection. -/
inductive Call
  | own
  | holder (ticket : Nat)
  | closing
  deriving DecidableEq, Repr

/-- Those who wait for a permit in `p` and need not wait any longer in `q`. -/
def Permits.answered (p q : Permits) : List Nat :=
  if p.closed then [] else p.waiting.filter fun ticket => q.closed || q.isGranted ticket

namespace Pool

variable {κ : Type}

def answered (p q : Pool κ) : List Nat :=
  p.sites.flatMap fun (e, s) => s.permits.answered (q.site e).permits

/-- One task for each connection that is left to be closed. -/
def closings (p q : Pool κ) : List Call :=
  p.sites.flatMap fun (e, s) => List.replicate ((q.site e).closed - s.closed) .closing

/-- The calls that come with a change from `p` to `q`, unless the pool itself is closed in it. -/
def calls (p q : Pool κ) : List Call :=
  p.closings q ++ (p.answered q).map .holder

end Pool

end Courier
