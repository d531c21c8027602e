import Courier.Retry.Backoff
import Courier.Retry.Condition

/-! # Retry policies

A policy retries while its condition holds, at most so many times, and waits as its backoff says.
-/

namespace Courier

inductive RetryDecision
  | retry (delay : Nat)
  | giveUp
  | notRetryable
  deriving DecidableEq, Repr

structure RetryPolicy where
  condition : RetryCondition
  backoff : Backoff
  maxRetries : Nat
  deriving Repr

namespace RetryPolicy

def standard : RetryPolicy := ⟨.standard, .standard, 3⟩

instance : Inhabited RetryPolicy := ⟨standard⟩

def never : RetryPolicy := ⟨.never, .none, 0⟩

def isRetryable (p : RetryPolicy) (ctx : RetryContext) : Bool :=
  p.condition.holds ctx

def shouldRetry (p : RetryPolicy) (ctx : RetryContext) : Bool :=
  ctx.retries < p.maxRetries && p.condition.holds ctx

def nextDelay (p : RetryPolicy) (ctx : RetryContext) (g : Generator) : Generator.Choice :=
  p.backoff.delay ctx.retries g

def decide (p : RetryPolicy) (ctx : RetryContext) (g : Generator) : RetryDecision × Generator :=
  if !p.isRetryable ctx then (.notRetryable, g)
  else if p.maxRetries ≤ ctx.retries then (.giveUp, g)
  else
    let c := p.nextDelay ctx g
    (.retry c.value, c.rest)

end RetryPolicy

end Courier
