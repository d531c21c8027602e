import Courier.Pool.Basic

/-! # Closing a pool

A closed pool begins no acquisition. Closing goes from endpoint to endpoint: it closes the permits,
takes the idle connections, closes them one by one and counts them.
-/

namespace Courier

inductive Closing (κ : Type)
  | sites (remaining : List Endpoint)
  | connections (e : Endpoint) (remaining : List κ) (count : Nat) (sites : List Endpoint)
  | done

namespace Closing

variable {ω κ : Type}

/-- Begins to close; a pool that is closed already is left alone. -/
def start (p : Pool κ) : Closing κ × Pool κ :=
  if p.closed then (.done, p) else (.sites (p.sites.map (·.1)), { p with closed := true })

def step (net : Network ω κ) (c : Closing κ) (p : Pool κ) (w : ω) : Closing κ × Pool κ × ω :=
  match c with
  | done => (done, p, w)
  | sites [] => (done, { p with eventLoop := p.eventLoop.shutdown }, w)
  | sites (e :: es) =>
    let idle := (p.site e).idle
    (connections e idle idle.length es,
      p.update e fun s => { s with permits := s.permits.close, idle := [] }, w)
  | connections e [] count es =>
    (sites es, p.update e fun s => { s with closed := s.closed + count }, w)
  | connections e (connection :: rest) count es =>
    (connections e rest count es, p, net.close connection w)

def stepsFor (p : Pool κ) : List Endpoint → Nat
  | [] => 1
  | e :: es => (p.site e).idle.length + 2 + stepsFor p es

/-- How many steps are left, given what is idle. -/
def stepsLeft (p : Pool κ) : Closing κ → Nat
  | done => 0
  | sites es => stepsFor p es
  | connections _ remaining _ es => remaining.length + 1 + stepsFor p es

def run (net : Network ω κ) : Nat → Closing κ → Pool κ → ω → Pool κ × ω
  | 0, _, p, w => (p, w)
  | steps + 1, c, p, w =>
    let (c, p, w) := c.step net p w
    run net steps c p w

end Closing

/-- Closes the pool with nothing in between. -/
def Pool.close {ω κ : Type} (net : Network ω κ) (p : Pool κ) (w : ω) : Pool κ × ω :=
  let (c, p) := Closing.start p
  Closing.run net (c.stepsLeft p) c p w

end Courier
