import Courier.Client.Handler
import Courier.Pool.Basic

/-! # Streaming a body

A pump reads chunks off the leased connection and sends them down a channel; the handler reads the
other end. The two take turns: each goes on until it has to wait. The pump stops when the body ends,
when reading fails, or when the handler has cancelled or left.
-/

namespace Courier

/-- How far a body without a fault was read. Only a drained connection can be used again. -/
inductive BodyEnd
  | drained
  | abandoned
  deriving DecidableEq, Repr

inductive Pump
  | reading (wait : Wait)
  | sending (chunk : Bytes)
  | ended (result : Except Error BodyEnd)

def Pump.isEnded : Pump → Bool
  | ended _ => true
  | _ => false

inductive Party
  | pump
  | handler
  deriving DecidableEq, Repr

def Party.other : Party → Party
  | pump => handler
  | handler => pump

structure Streaming (κ : Type) where
  lease : Lease κ
  pump : Pump
  channel : Channel
  /-- The channel of a body that a hook has put in the place of the one on the wire. -/
  replacement : Option Channel
  tap : Tap
  verdict : Option (Except Error Unit)
  turn : Party

namespace Streaming

variable {ω κ η α : Type}

def duringBody : String := "reading the response body"

/-- The pump is about to read; the handler holds the body. -/
def start (net : Network ω κ) (now limit : Nat) (lease : Lease κ) (body : ResponseBody) (w : ω) :
    Streaming κ :=
  let pump := .reading (.start now (net.chunkDelay lease.connection w) limit)
  match body with
  | .wire outlet => ⟨lease, pump, .start, none, .ofOutlet outlet, none, .pump⟩
  | .held s =>
    ⟨lease, pump, Outlet.start.drop .start, some s.channel, .ofOutlet s.outlet, none, .pump⟩

/-! ## The pump -/

def stop (s : Streaming κ) (channel : Channel) (result : Except Error BodyEnd) : Streaming κ :=
  { s with channel, pump := .ended result }

/-- Takes a chunk, the end or a fault off the connection. -/
def readChunk (net : Network ω κ) (s : Streaming κ) (w : ω) :
    Except Error (Option Bytes) × Streaming κ × ω :=
  let (result, connection, w) := net.readChunk s.lease.connection w
  let s := { s with lease := { s.lease with connection } }
  match result with
  | .ok (some chunk) => (result, { s with pump := .sending chunk }, w)
  | .ok none => (result, s.stop s.channel.complete (.ok .drained), w)
  | .error e => (result, s.stop (s.channel.fail e) (.error e), w)

/-- A step of the pump, and what it read if it read. -/
def stepPump (net : Network ω κ) (now limit : Nat) (s : Streaming κ) (w : ω) :
    Option (Except Error (Option Bytes)) × Streaming κ × ω :=
  match s.pump with
  | .ended _ => (none, s, w)
  | .sending chunk =>
    match s.channel.send chunk with
    | (none, channel) => (none, { s with channel }, w)
    | (some (.ok ()), channel) =>
      (none, { s with
        channel, pump := .reading (.start now (net.chunkDelay s.lease.connection w) limit) }, w)
    | (some (.error _), channel) => (none, s.stop channel.dropProducer (.ok .abandoned), w)
  | .reading wait =>
    match s.channel.watchCancelled with
    | (true, channel) => (none, s.stop channel.dropProducer (.ok .abandoned), w)
    | (false, channel) =>
      match wait.status now with
      | .pending => (none, { s with channel }, w)
      | .expired =>
        let e := .socketTimeout limit duringBody
        (none, s.stop (channel.leaveProducer.fail e) (.error e), w)
      | .ready =>
        let (result, s, w) := readChunk net { s with channel := channel.leaveProducer } w
        (some result, s, w)

/-! ## The handler -/

def body (s : Streaming κ) : Channel :=
  s.replacement.getD s.channel

def withBody (s : Streaming κ) (channel : Channel) : Streaming κ :=
  match s.replacement with
  | some _ => { s with replacement := some channel }
  | none => { s with channel }

/-- A step of the handler. When it is finished it lets go of the body. -/
def stepHandler (h : Handler η α) (s : Streaming κ) (state : η) (cells : Cells) :
    Streaming κ × η × Cells :=
  match s.verdict with
  | some _ => (s, state, cells)
  | none =>
    match h.move state with
    | .finish result =>
      ({ s.withBody (s.tap.drop s.body) with tap := .gone, verdict := some result }, state, cells)
    | move =>
      let out := s.tap.apply move s.body cells
      ({ s.withBody out.channel with tap := out.tap },
        (out.report.map (h.observe · state)).getD state, out.cells)

/-! ## Taking turns -/

def isPumpBlocked (s : Streaming κ) (now : Nat) : Bool :=
  match s.pump with
  | .reading wait => s.channel.producer.isAsleep && wait.status now = .pending
  | .sending _ => s.channel.producer.isAsleep
  | .ended _ => true

def isHandlerBlocked (h : Handler η α) (s : Streaming κ) (state : η) : Bool :=
  s.verdict.isSome || (h.move state).waits && s.body.consumer.isAsleep

def isBlocked (h : Handler η α) (s : Streaming κ) (state : η) (now : Nat) : Party → Bool
  | .pump => s.isPumpBlocked now
  | .handler => s.isHandlerBlocked h state

/-- The one whose turn it is goes on if it can, else the other does. -/
def next? (h : Handler η α) (s : Streaming κ) (state : η) (now : Nat) : Option Party :=
  if !s.isBlocked h state now s.turn then some s.turn
  else if !s.isBlocked h state now s.turn.other then some s.turn.other
  else none

def isAsleep (s : Streaming κ) : Party → Bool
  | .pump => s.channel.producer.isAsleep
  | .handler => s.body.consumer.isAsleep

/-- Did a step of `p`, from `before`, wake the other? -/
def hasWoken (p : Party) (before s : Streaming κ) : Bool :=
  before.isAsleep p.other && !s.isAsleep p.other

/-- How it ended, once both have; a fault of the pump goes before one of the handler. -/
def outcome? (s : Streaming κ) : Option (Except Error BodyEnd) :=
  match s.pump, s.verdict with
  | .ended (.error e), some _ => some (.error e)
  | .ended (.ok _), some (.error e) => some (.error e)
  | .ended (.ok bodyEnd), some (.ok ()) => some (.ok bodyEnd)
  | _, _ => none

def wakeAt? (s : Streaming κ) : Option Nat :=
  match s.pump with
  | .reading wait => some wait.wakeAt
  | _ => none

end Streaming

end Courier
