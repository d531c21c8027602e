/-! # Execution states

An attempt acquires a connection, transmits, awaits the response and streams the body. An execution
ends complete or failed and stays so.
-/

namespace Courier

inductive ExecutionState
  | acquiringConnection
  | transmitting
  | awaitingResponse
  | streamingBody
  | retrying
  | complete
  | failed
  deriving DecidableEq, Repr

namespace ExecutionState

def all : List ExecutionState :=
  [acquiringConnection, transmitting, awaitingResponse, streamingBody, retrying, complete, failed]

def name : ExecutionState → String
  | acquiringConnection => "acquiring_connection"
  | transmitting => "transmitting"
  | awaitingResponse => "awaiting_response"
  | streamingBody => "streaming_body"
  | retrying => "retrying"
  | complete => "complete"
  | failed => "failed"

def initial : ExecutionState := acquiringConnection

instance : Inhabited ExecutionState := ⟨initial⟩

def isTerminal : ExecutionState → Bool
  | complete => true
  | failed => true
  | _ => false

/-- The state after a move to `next`: a terminal state is kept. -/
def moveTo (s next : ExecutionState) : ExecutionState :=
  if s.isTerminal then s else next

end ExecutionState

end Courier
