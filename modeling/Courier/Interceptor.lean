import Courier.Attributes
import Courier.Http.Request
import Courier.Http.Response

/-! # Interceptors

Hooks that may change or refuse a request before it is sent and a response before it is handled.
Requests pass the hooks in order of priority, responses in the reverse order.
-/

namespace Courier

/-- What a hook reads and leaves behind: the attributes of its execution, the shared cells, and a
memory of the hooks' own. -/
structure HookState (ξ : Type) where
  attributes : Attributes
  cells : Cells
  memory : ξ

abbrev Hook (ξ α : Type) : Type :=
  α → HookState ξ → Except Error α × HookState ξ

structure Interceptor (ξ : Type) where
  name : String
  priority : Int
  onRequest : Hook ξ Request
  onResponse : Hook ξ Response

namespace Interceptor

variable {ξ α : Type}

/-- An interceptor that lets everything pass. -/
def passive (name : String) : Interceptor ξ where
  name
  priority := 0
  onRequest request state := (.ok request, state)
  onResponse response state := (.ok response, state)

/-- Hands each hook what the one before it made of the message; the first refusal ends the pass. -/
def runHooks : List (Hook ξ α) → Hook ξ α
  | [], message, state => (.ok message, state)
  | hook :: hooks, message, state =>
    match hook message state with
    | (.ok message, state) => runHooks hooks message state
    | (.error e, state) => (.error e, state)

end Interceptor

/-- Interceptors in order of priority; equals stand in the order they were added. -/
structure InterceptorChain (ξ : Type) where
  interceptors : List (Interceptor ξ)

namespace InterceptorChain

variable {ξ : Type}

def empty : InterceptorChain ξ := ⟨[]⟩

instance : Inhabited (InterceptorChain ξ) := ⟨empty⟩

def add (c : InterceptorChain ξ) (i : Interceptor ξ) : InterceptorChain ξ :=
  ⟨(c.interceptors ++ [i]).mergeSort fun a b => a.priority ≤ b.priority⟩

def ofList (is : List (Interceptor ξ)) : InterceptorChain ξ :=
  is.foldl add empty

def size (c : InterceptorChain ξ) : Nat :=
  c.interceptors.length

def isEmpty (c : InterceptorChain ξ) : Bool :=
  c.interceptors.isEmpty

def onRequest (c : InterceptorChain ξ) : Hook ξ Request :=
  Interceptor.runHooks (c.interceptors.map (·.onRequest))

def onResponse (c : InterceptorChain ξ) : Hook ξ Response :=
  Interceptor.runHooks (c.interceptors.reverse.map (·.onResponse))

def inspect (c : InterceptorChain ξ) : String :=
  Inspect.list (c.interceptors.map fun i => Inspect.text i.name)

end InterceptorChain

end Courier
