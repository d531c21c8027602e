import Courier.Interceptor

/-! # Scripted interceptors

Interceptors that log each pass, refuse so many messages, append a header, and put a filter on the
body of a response.
-/

namespace Courier.Rehearsal

inductive HookKind
  | request
  | response
  deriving DecidableEq, Repr

def HookKind.name : HookKind → String
  | request => "request"
  | response => "response"

/-- What scripted interceptors remember: their passes, and how often each of them has refused. -/
structure Memory where
  log : List (HookKind × String)
  refusals : List Nat
  deriving DecidableEq, Repr

def Memory.ofCount (interceptors : Nat) : Memory :=
  ⟨[], List.replicate interceptors 0⟩

/-- One scripted interceptor; `index` is its place in the memory. -/
structure Hooks where
  index : Nat
  name : String
  priority : Int
  requestHeader : Option (String × String)
  responseHeader : Option (String × String)
  refuseRequest : Option Error
  refuseResponse : Option Error
  /-- How many messages are refused, if that is limited. -/
  times : Option Nat
  /-- The filter for response bodies; building one may fail. -/
  filter : Option (Except Error Filter)

namespace Hooks

def log (h : Hooks) (kind : HookKind) (m : Memory) : Memory :=
  { m with log := m.log ++ [(kind, h.name)] }

/-- The refusal that is due, if one is, and the memory of it. -/
def refuse (h : Hooks) (refusal : Option Error) (m : Memory) : Option Error × Memory :=
  match refusal with
  | none => (none, m)
  | some e =>
    if h.times.all (m.refusals.getD h.index 0 < ·) then
      (some e, { m with refusals := m.refusals.modify h.index (· + 1) })
    else (none, m)

def hook {α : Type} (h : Hooks) (kind : HookKind) (refusal : Option Error)
    (change : α → Except Error α) : Hook Memory α := fun a state =>
  let (refused, memory) := h.refuse refusal (h.log kind state.memory)
  (match refused with
    | some e => .error e
    | none => change a,
   { state with memory })

def changeRequest (h : Hooks) (r : Request) : Except Error Request :=
  match h.requestHeader with
  | some (name, value) => .ok (r.withHeader name value)
  | none => .ok r

def changeResponse (h : Hooks) (r : Response) : Except Error Response :=
  let head :=
    match h.responseHeader with
    | some (name, value) => { r.head with headers := r.head.headers.append name value }
    | none => r.head
  match h.filter with
  | none => .ok { r with head }
  | some (.ok filter) => .ok ⟨head, r.body.withFilter filter⟩
  | some (.error e) => .error e

def interceptor (h : Hooks) : Interceptor Memory where
  name := h.name
  priority := h.priority
  onRequest := h.hook .request h.refuseRequest h.changeRequest
  onResponse := h.hook .response h.refuseResponse h.changeResponse

end Hooks

end Courier.Rehearsal
