import Courier.Client.Execution
import Courier.Integrity.Interceptor

/-! # Building a client

A client starts from a configuration that can be used. The integrity checks stand in its chain
before the interceptors given; its event loop is its own unless it is lent one.
-/

namespace Courier

variable {ω κ ξ : Type}

def Client.build (config : ClientConfig) (network : Network ω κ) (policy : Option RetryPolicy)
    (eventLoop : Option EventLoop) (interceptors : List (Interceptor ξ)) :
    Except Error (Client ω κ ξ × Pool κ) := do
  config.validate
  let policy ←
    match policy with
    | some policy => .ok policy
    | none => config.retry.build
  let eventLoop ←
    match eventLoop with
    | some eventLoop => .ok eventLoop
    | none => EventLoop.start config.pool.eventLoopThreads
  let pool ← Pool.start config.pool eventLoop
  let chain := .ofList (Integrity.interceptor config.integrity :: interceptors)
  return (⟨network, chain, policy⟩, pool)

end Courier
