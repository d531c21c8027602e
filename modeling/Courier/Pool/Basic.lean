import Courier.Config.Basic
import Courier.EventLoop
import Courier.Network.Basic
import Courier.Pool.Permits

/-! # Connection pools

For each endpoint the pool keeps idle connections, the leases that are out, and counts of what has
become of every connection. Permits keep the leases and the dials under way within the limit.
-/

namespace Courier

/-- What the pool keeps for one endpoint. The idle connection used last comes first. -/
structure Site (κ : Type) where
  permits : Permits
  idle : List κ
  leased : List Nat
  pending : Nat
  created : Nat
  reused : Nat
  released : Nat
  closed : Nat
  discarded : Nat

def Site.ofLimit {κ : Type} (limit : Nat) : Site κ :=
  ⟨.ofCount limit, [], [], 0, 0, 0, 0, 0, 0⟩

instance {κ : Type} : Inhabited (Site κ) := ⟨.ofLimit 0⟩

structure PoolStats where
  leased : Nat
  idle : Nat
  pending : Nat
  created : Nat
  reused : Nat
  released : Nat
  closed : Nat
  discarded : Nat
  deriving DecidableEq, Repr

def PoolStats.none : PoolStats := ⟨0, 0, 0, 0, 0, 0, 0, 0⟩

def Site.stats {κ : Type} (s : Site κ) : PoolStats where
  leased := s.leased.length
  idle := s.idle.length
  pending := s.pending
  created := s.created
  reused := s.reused
  released := s.released
  closed := s.closed
  discarded := s.discarded

/-- A connection on loan; it is to be given back or discarded. -/
structure Lease (κ : Type) where
  id : Nat
  endpoint : Endpoint
  reused : Bool
  connection : κ

def Lease.inspect {κ : Type} (l : Lease κ) : String :=
  Inspect.record "Lease"
    [("id", toString l.id), ("endpoint", l.endpoint.inspect), ("reused", Inspect.flag l.reused)]

structure Pool (κ : Type) where
  config : PoolConfig
  sites : List (Endpoint × Site κ)
  closed : Bool
  nextLease : Nat
  nextTicket : Nat
  eventLoop : EventLoop

namespace Pool

variable {ω κ : Type}

def start (config : PoolConfig) (eventLoop : EventLoop) : Except Error (Pool κ) :=
  match config.validate with
  | .error e => .error e
  | .ok () => .ok ⟨config, [], false, 1, 0, eventLoop⟩

def site? (p : Pool κ) (e : Endpoint) : Option (Site κ) :=
  p.sites.lookup e

def site (p : Pool κ) (e : Endpoint) : Site κ :=
  (p.site? e).getD (.ofLimit p.config.maxConnections)

/-- Makes sure that the pool keeps something for the endpoint. -/
def enter (p : Pool κ) (e : Endpoint) : Pool κ :=
  if (p.site? e).isSome then p
  else { p with sites := p.sites ++ [(e, .ofLimit p.config.maxConnections)] }

def update (p : Pool κ) (e : Endpoint) (f : Site κ → Site κ) : Pool κ :=
  { p with sites := p.sites.map fun (d, s) => if d = e then (d, f s) else (d, s) }

def onPermits (p : Pool κ) (e : Endpoint) (f : Permits → Permits) : Pool κ :=
  p.update e fun s => { s with permits := f s.permits }

def freePermit (p : Pool κ) (e : Endpoint) : Pool κ :=
  p.onPermits e .release

def stats (p : Pool κ) (e : Endpoint) : PoolStats :=
  ((p.site? e).map (·.stats)).getD .none

def inspect (p : Pool κ) : String :=
  Inspect.record "ConnectionPool"
    [("endpoints", toString p.sites.length), ("closed", Inspect.flag p.closed)]

/-! ## Giving connections back

A connection that is given back is checked in, then looked at, and then put where it belongs; its
permit goes last. `release` does all this at once, but other users of the pool may come in between.
-/

/-- The lease is over. -/
def checkIn (l : Lease κ) (p : Pool κ) : Pool κ :=
  p.update l.endpoint fun s => { s with leased := s.leased.erase l.id }

/-- Is the connection to be kept, as things stand? -/
def keeps (net : Network ω κ) (l : Lease κ) (p : Pool κ) : Bool :=
  net.isReusable l.connection && !p.closed

def shelve (l : Lease κ) (p : Pool κ) : Pool κ :=
  p.update l.endpoint fun s => { s with released := s.released + 1, idle := l.connection :: s.idle }

def retire (l : Lease κ) (p : Pool κ) : Pool κ :=
  p.update l.endpoint fun s => { s with closed := s.closed + 1 }

/-- Leaves it to a task of the event loop to close the connection. -/
def spawnClose (net : Network ω κ) (l : Lease κ) (p : Pool κ) (w : ω) : ω :=
  if p.eventLoop.isRunning then net.close l.connection w else w

/-- Gives a connection back. It is kept if it can be used again and the pool is open, and closed by
a task of the event loop otherwise. -/
def release (net : Network ω κ) (l : Lease κ) (p : Pool κ) (w : ω) :
    Except Error Unit × Pool κ × ω :=
  if (p.site l.endpoint).leased.contains l.id then
    let p := p.checkIn l
    if p.keeps net l then (.ok (), (p.shelve l).freePermit l.endpoint, w)
    else (.ok (), (p.retire l).freePermit l.endpoint, p.spawnClose net l w)
  else (.error (.doubleRelease l.id), p.freePermit l.endpoint, w)

/-- Aborts the connection and keeps nothing of it. -/
def discard (net : Network ω κ) (l : Lease κ) (p : Pool κ) (w : ω) : Pool κ × ω :=
  ((p.update l.endpoint fun s =>
      { s with leased := s.leased.erase l.id, discarded := s.discarded + 1 }).freePermit l.endpoint,
    (net.abort l.connection w).2)

end Pool

end Courier
