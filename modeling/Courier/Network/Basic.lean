import Courier.Http.Endpoint
import Courier.Http.Message
import Courier.Stream.ByteStream

/-! # Networks

What connections can be made and how they behave. Each operation takes effect at once when its
delay has passed; an operation without a delay never gets there.
-/

namespace Courier

/-- What became of a request that was sent. -/
structure Network.Sent (ω κ : Type) where
  result : Except Error Unit
  connection : κ
  world : ω
  cells : Cells

/-- Connections `κ` in a world `ω` outside the client. -/
structure Network (ω κ : Type) where
  dialDelay : Endpoint → ω → Option Nat
  dial : Endpoint → ω → Except Error κ × ω
  sendDelay : κ → ω → Option Nat
  send : RequestHead → Option ByteStream → κ → ω → Cells → Network.Sent ω κ
  headDelay : κ → ω → Option Nat
  readHead : κ → ω → Except Error ResponseHead × κ × ω
  chunkDelay : κ → ω → Option Nat
  readChunk : κ → ω → Except Error (Option Bytes) × κ × ω
  isReusable : κ → Bool
  abort : κ → ω → κ × ω
  close : κ → ω → ω

/-- An operation under way: when it completes, if ever, and when it is given up. -/
structure Wait where
  completes : Option Nat
  deadline : Nat
  deriving DecidableEq, Repr

namespace Wait

inductive Status
  | ready
  | expired
  | pending
  deriving DecidableEq, Repr

def start (now : Nat) (delay : Option Nat) (limit : Nat) : Wait :=
  ⟨delay.map (now + ·), now + limit⟩

def isComplete (w : Wait) (now : Nat) : Bool :=
  w.completes.any (· ≤ now)

/-- Completion is noticed before the deadline is. -/
def status (w : Wait) (now : Nat) : Status :=
  if w.isComplete now then .ready
  else if w.deadline ≤ now then .expired
  else .pending

def wakeAt (w : Wait) : Nat :=
  match w.completes with
  | some t => min t w.deadline
  | none => w.deadline

end Wait

end Courier
