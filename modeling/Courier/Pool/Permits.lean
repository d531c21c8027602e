/-! # Permits

So many permits, and those who wait for one in the order they came. A permit that becomes free goes
to the first of them and is theirs until they take it up or go away.
-/

namespace Courier

structure Permits where
  free : Nat
  waiting : List Nat
  granted : List Nat
  closed : Bool
  deriving DecidableEq, Repr, Inhabited

namespace Permits

/-- The most permits that there can be. To ask for more ends the task that asks. -/
def capacity : Nat := 0x1FFFFFFFFFFFFFFF

/-- So many permits, within the capacity. -/
def ofCount (n : Nat) : Permits := ⟨n, [], [], false⟩

def request (p : Permits) (ticket : Nat) : Permits :=
  if 0 < p.free then { p with free := p.free - 1, granted := p.granted ++ [ticket] }
  else { p with waiting := p.waiting ++ [ticket] }

/-- A permit becomes free. -/
def release (p : Permits) : Permits :=
  match p.waiting with
  | ticket :: rest => { p with waiting := rest, granted := p.granted ++ [ticket] }
  | [] => { p with free := p.free + 1 }

def isGranted (p : Permits) (ticket : Nat) : Bool :=
  p.granted.contains ticket

/-- The holder of the ticket takes up the permit. -/
def claim (p : Permits) (ticket : Nat) : Permits :=
  { p with granted := p.granted.erase ticket }

/-- The holder of the ticket goes away. -/
def withdraw (p : Permits) (ticket : Nat) : Permits :=
  if p.isGranted ticket then (p.claim ticket).release
  else { p with waiting := p.waiting.erase ticket }

def close (p : Permits) : Permits :=
  { p with closed := true }

end Permits

end Courier
