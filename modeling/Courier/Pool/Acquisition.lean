import Courier.Pool.Basic

/-! # Acquiring a connection

An acquisition waits for a permit, then takes the idle connection used last or dials a new one. Both
waits have their timeouts. An acquisition that fails or goes away leaves the pool as it was.
-/

namespace Courier

inductive Acquisition
  | waiting (ticket deadline : Nat)
  | dialing (lease : Nat) (wait : Wait)
  deriving DecidableEq, Repr

inductive Acquired (κ : Type)
  | pending (a : Acquisition)
  | leased (l : Lease κ)
  | failed (e : Error)

namespace Acquisition

variable {ω κ : Type}

def permitTimeout (e : Endpoint) (millis : Nat) : Error :=
  .connectionAcquisition e.text
    ("timed out after " ++ toString millis ++ "ms waiting for a connection")

def connectTimeout (e : Endpoint) (millis : Nat) : Error :=
  .connectionAcquisition e.text ("connect timed out after " ++ toString millis ++ "ms")

/-- Whatever kept the connection from being made, it is a failure to acquire one. -/
def dialError (e : Endpoint) (error : Error) : Error :=
  match error with
  | .connectionAcquisition _ _ => error
  | other => .connectionAcquisition e.text other.message

/-- Queues up for a permit. -/
def enqueue (now : Nat) (e : Endpoint) (p : Pool κ) : Acquisition × Pool κ :=
  let ticket := p.nextTicket
  let p := { p.enter e with nextTicket := ticket + 1 }
  (.waiting ticket (now + p.config.acquisitionMillis),
    p.update e fun s =>
      { s with permits := s.permits.request ticket, pending := s.pending + 1 })

/-- Queues up if it finds the pool open. -/
def start (now : Nat) (e : Endpoint) (p : Pool κ) : Except Error (Acquisition × Pool κ) :=
  if p.closed then .error .poolClosed else .ok (enqueue now e p)

/-- Leaves the queue, and gives on a permit that was granted meanwhile. -/
def withdraw (ticket : Nat) (e : Endpoint) (p : Pool κ) : Pool κ :=
  p.update e fun s =>
    { s with permits := s.permits.withdraw ticket, pending := s.pending - 1 }

/-- Goes away before an answer. -/
def drop (a : Acquisition) (e : Endpoint) (p : Pool κ) : Pool κ :=
  match a with
  | waiting ticket _ => withdraw ticket e p
  | dialing _ _ => p.freePermit e

/-- Goes on with a permit in hand: takes an idle connection, or begins to dial. -/
def proceed (net : Network ω κ) (now : Nat) (e : Endpoint) (p : Pool κ) (w : ω) :
    Acquired κ × Pool κ :=
  let lease := p.nextLease
  let p := { p with nextLease := lease + 1 }
  match (p.site e).idle with
  | connection :: rest =>
    (.leased ⟨lease, e, true, connection⟩,
      p.update e fun s =>
        { s with idle := rest, reused := s.reused + 1, leased := s.leased ++ [lease] })
  | [] => (.pending (dialing lease (.start now (net.dialDelay e w) p.config.connectMillis)), p)

def pollPermit (net : Network ω κ) (now : Nat) (e : Endpoint) (ticket deadline : Nat) (p : Pool κ)
    (w : ω) : Acquired κ × Pool κ :=
  let permits := (p.site e).permits
  if permits.closed then (.failed .poolClosed, withdraw ticket e p)
  else if permits.isGranted ticket then
    proceed net now e
      (p.update e fun s =>
        { s with permits := s.permits.claim ticket, pending := s.pending - 1 }) w
  else if deadline ≤ now then
    (.failed (permitTimeout e p.config.acquisitionMillis), withdraw ticket e p)
  else (.pending (waiting ticket deadline), p)

def pollDial (net : Network ω κ) (now : Nat) (e : Endpoint) (lease : Nat) (wait : Wait)
    (p : Pool κ) (w : ω) : Acquired κ × Pool κ × ω :=
  match wait.status now with
  | .pending => (.pending (dialing lease wait), p, w)
  | .expired => (.failed (connectTimeout e p.config.connectMillis), p.freePermit e, w)
  | .ready =>
    match net.dial e w with
    | (.ok connection, w) =>
      (.leased ⟨lease, e, false, connection⟩,
        p.update e fun s =>
          { s with created := s.created + 1, leased := s.leased ++ [lease] }, w)
    | (.error error, w) => (.failed (dialError e error), p.freePermit e, w)

/-- Looks whether it can go on, and if so goes on to the next wait or to an answer. -/
def poll (net : Network ω κ) (now : Nat) (e : Endpoint) (a : Acquisition) (p : Pool κ) (w : ω) :
    Acquired κ × Pool κ × ω :=
  match a with
  | waiting ticket deadline =>
    let (acquired, p) := pollPermit net now e ticket deadline p w
    (acquired, p, w)
  | dialing lease wait => pollDial net now e lease wait p w

def wakeAt : Acquisition → Nat
  | waiting _ deadline => deadline
  | dialing _ wait => wait.wakeAt

/-- Can a poll get anywhere now? -/
def isReady (a : Acquisition) (now : Nat) (e : Endpoint) (p : Pool κ) : Bool :=
  match a with
  | dialing _ wait => wait.status now != .pending
  | waiting ticket deadline =>
    let permits := (p.site e).permits
    permits.closed || permits.isGranted ticket || deadline ≤ now

/-- Goes on until there is an answer or it has to wait: a permit may be followed by a dial. -/
def pursue (net : Network ω κ) (now : Nat) (e : Endpoint) (a : Acquisition) (p : Pool κ) (w : ω) :
    Acquired κ × Pool κ × ω :=
  match a.poll net now e p w with
  | (.pending a, p, w) => if a.isReady now e p then a.poll net now e p w else (.pending a, p, w)
  | answered => answered

end Acquisition

end Courier
