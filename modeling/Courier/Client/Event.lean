import Courier.Client.State
import Courier.Http.Response
import Courier.Retry.Policy

/-! # What happens in an execution

The history of an execution: its states, what the handler is told, what becomes of leases, what goes
over the wire, and what is decided after a failure.
-/

namespace Courier

/-- What a handler is told. -/
inductive Callback
  | prepare
  | headersReceived (head : ResponseHead)
  | onStream (declared : Option Nat)
  | exceptionOccurred (e : Error)
  | complete
  deriving DecidableEq, Repr

inductive Event
  | moved (source target : ExecutionState)
  | told (callback : Callback)
  | leased (lease : Nat)
  | released (lease : Nat)
  | discarded (lease : Nat)
  | sent (head : RequestHead) (body : Option ByteStream)
  | answered (head : ResponseHead)
  | read (result : Except Error (Option Bytes))
  | decided (context : RetryContext) (decision : RetryDecision)

namespace Event

def transition? : Event → Option (ExecutionState × ExecutionState)
  | moved source target => some (source, target)
  | _ => none

def callback? : Event → Option Callback
  | told callback => some callback
  | _ => none

end Event

end Courier
