import Courier.Pool.Acquisition
import Courier.Pool.Closing
import Courier.Rehearsal.Stage

/-! # A desk for leases

Acquisitions and leases kept under names, over a pool on the scripted network, in virtual time. An
acquisition moves only when it is polled. A lease is dropped when another one takes its name.
-/

namespace Courier.Rehearsal

structure Desk where
  now : Nat
  pool : Pool Line
  stage : Stage
  cells : Cells
  acquisitions : List (String × Endpoint × Acquisition)
  leases : List (String × Lease Line)

namespace Desk

def start (pool : Pool Line) (stage : Stage) (cells : Cells) : Desk :=
  ⟨0, pool, stage, cells, [], []⟩

def without {α : Type} (name : String) (l : List (String × α)) : List (String × α) :=
  l.filter (·.1 ≠ name)

def lease? (d : Desk) (name : String) : Option (Lease Line) :=
  d.leases.lookup name

def withLease (d : Desk) (name : String) (l : Lease Line) : Desk :=
  { d with leases := (name, l) :: without name d.leases }

/-! ## Acquiring -/

/-- Drops the acquisition of this name; was there one? -/
def forget (d : Desk) (name : String) : Bool × Desk :=
  match d.acquisitions.lookup name with
  | none => (false, d)
  | some (e, a) =>
    (true, { d with pool := a.drop e d.pool, acquisitions := without name d.acquisitions })

/-- Drops the lease of this name, which discards its connection; was there one? -/
def drop (d : Desk) (name : String) : Bool × Desk :=
  match d.lease? name with
  | none => (false, d)
  | some l =>
    let (pool, stage) := d.pool.discard network l d.stage
    (true, { d with pool, stage, leases := without name d.leases })

/-- Polls an acquisition that is kept under no name: no lease yet means that it is kept again. -/
def pursue (d : Desk) (name : String) (e : Endpoint) (a : Acquisition) :
    Except Error (Option (Lease Line)) × Desk :=
  let (acquired, pool, stage) := a.pursue network d.now e d.pool d.stage
  let d := { d with pool, stage }
  match acquired with
  | .pending a =>
    let (_, d) := d.forget name
    (.ok none, { d with acquisitions := (name, e, a) :: d.acquisitions })
  | .failed e => (.error e, d)
  | .leased l =>
    let (_, d) := d.drop name
    (.ok (some l), d.withLease name l)

def acquire (d : Desk) (name : String) (e : Endpoint) :
    Except Error (Option (Lease Line)) × Desk :=
  match Acquisition.start d.now e d.pool with
  | .error e => (.error e, d)
  | .ok (a, pool) => { d with pool }.pursue name e a

def poll (d : Desk) (name : String) : Option (Except Error (Option (Lease Line))) × Desk :=
  match d.acquisitions.lookup name with
  | none => (none, d)
  | some (e, a) =>
    let (result, d) :=
      { d with acquisitions := without name d.acquisitions }.pursue name e a
    (some result, d)

/-! ## Using a connection -/

inductive Seen
  | sent
  | head (head : ResponseHead)
  | chunk (bytes : Bytes)
  | finished
  | failed (e : Error)

/-- What was seen of a connection, and how long it took. -/
structure Glimpse where
  seen : List Seen
  line : Line
  took : Nat

def Glimpse.after (g : Glimpse) (seen : Seen) (millis : Nat) : Glimpse :=
  { g with seen := seen :: g.seen, took := millis + g.took }

/-- Reads the body at most so often, up to its end or a fault. -/
def readBody : Nat → Line → Glimpse
  | 0, l => ⟨[], l, 0⟩
  | reads + 1, l =>
    let delay := l.chunkDelay.getD 0
    match l.readChunk with
    | (.ok (some bytes), l) => (readBody reads l).after (.chunk bytes) delay
    | (.ok none, l) => ⟨[.finished], l, delay⟩
    | (.error e, l) => ⟨[.failed e], l, delay⟩

def readResponse (reads : Nat) (l : Line) : Glimpse :=
  let head :=
    match l.readHead with
    | .ok head => .head head
    | .error e => .failed e
  (readBody reads l).after head l.headDelay

/-- Keeps the line as it was left, at the time it was left. -/
def keep (d : Desk) (name : String) (l : Lease Line) (g : Glimpse) : List Seen × Bool × Desk :=
  (g.seen, g.line.isReusable,
    { d with now := d.now + g.took }.withLease name { l with connection := g.line })

/-- Sends a request, if there is one to send, and reads the response, which takes its time. -/
def use (d : Desk) (name : String) (request : Option (RequestHead × Option ByteStream))
    (reads : Nat) : Option (List Seen × Bool) × Desk :=
  match d.lease? name with
  | none => (none, d)
  | some l =>
    let (seen, isReusable, d) :=
      match request with
      | none => d.keep name l (readResponse reads l.connection)
      | some (head, body) =>
        let sent := Stage.send head body l.connection d.stage d.cells
        let d := { d with stage := sent.world, cells := sent.cells }
        match sent.result with
        | .error e => d.keep name l ⟨[.failed e], sent.connection, 0⟩
        | .ok () => d.keep name l ((readResponse reads sent.connection).after .sent 0)
    (some (seen, isReusable), d)

/-- Aborts the connection, which stays on loan; can it be used again? -/
def abort (d : Desk) (name : String) : Option Bool × Desk :=
  match d.lease? name with
  | none => (none, d)
  | some l =>
    let (connection, stage) := Stage.abort l.connection d.stage
    (some connection.isReusable, { d with stage }.withLease name { l with connection })

/-! ## Settling -/

def release (d : Desk) (name : String) : Option (Except Error Unit) × Desk :=
  match d.lease? name with
  | none => (none, d)
  | some l =>
    let (result, pool, stage) := d.pool.release network l d.stage
    (some result, { d with pool, stage, leases := without name d.leases })

def close (d : Desk) : Desk :=
  let (pool, stage) := d.pool.close network d.stage
  { d with pool, stage }

end Desk

end Courier.Rehearsal
