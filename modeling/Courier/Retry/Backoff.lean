import Courier.Duration
import Courier.Error
import Courier.Retry.Random

/-! # Backoff

How long to wait before an attempt: not at all, a fixed time, or a time drawn from a range that
doubles with each attempt up to a limit.
-/

namespace Courier

inductive BackoffKind
  | none
  | fixed
  | equalJitter
  | fullJitter
  deriving DecidableEq, Repr

namespace BackoffKind

def all : List BackoffKind := [none, fixed, equalJitter, fullJitter]

def name : BackoffKind → String
  | none => "none"
  | fixed => "fixed"
  | equalJitter => "equal_jitter"
  | fullJitter => "full_jitter"

def standard : BackoffKind := fullJitter

def isJittered : BackoffKind → Bool
  | fullJitter => true
  | equalJitter => true
  | _ => false

end BackoffKind

structure Backoff where
  kind : BackoffKind
  base : Duration
  limit : Duration
  maxRetries : Nat
  deriving DecidableEq, Repr

namespace Backoff

def none : Backoff := ⟨.none, .zero, .zero, 0⟩

def fixed (delay : Duration) : Backoff := ⟨.fixed, delay, delay, 0⟩

def fullJitter (base limit : Duration) (maxRetries : Nat) : Backoff :=
  ⟨.fullJitter, base, limit, maxRetries⟩

def equalJitter (base limit : Duration) (maxRetries : Nat) : Backoff :=
  ⟨.equalJitter, base, limit, maxRetries⟩

def standard : Backoff :=
  fullJitter (.ofMillis 100) (.ofSeconds 20) 30

instance : Inhabited Backoff := ⟨standard⟩

def nonNegative (field : String) (value : Int) : Except Error Nat :=
  if value < 0 then .error (.negative field) else .ok value.toNat

def maxRetriesBound : Nat := wordSize 32

def ofMillis (kind : BackoffKind) (base limit maxRetries : Int) : Except Error Backoff := do
  let base ← nonNegative "base_delay_ms" base
  let limit ← nonNegative "max_delay_ms" limit
  let retries ← nonNegative "max_retries" maxRetries
  if retries < maxRetriesBound then
    return ⟨kind, .ofMillis base, .ofMillis limit, retries⟩
  else
    throw (.configuration "max_retries" "too large")

/-- The doubled base in milliseconds, kept within 64 bits and within the limit. No more than 62
doublings are made. -/
def ceiling (b : Backoff) (attempt : Nat) : Nat :=
  let doublings := min (min attempt b.maxRetries) 62
  min (min (b.base.millis * Nat.pow 2 doublings) Duration.maxMillis) b.limit.millis

/-- The delay in milliseconds before the attempt after this many retries. -/
def delay (b : Backoff) (attempt : Nat) (g : Generator) : Generator.Choice :=
  match b.kind with
  | .none => g.fixed 0
  | .fixed => g.fixed b.base.millis
  | .fullJitter =>
    let top := b.ceiling attempt
    if top = 0 then g.fixed 0 else g.below top
  | .equalJitter =>
    let half := b.ceiling attempt / 2
    if half = 0 then g.fixed 0
    else
      let c := g.below half
      { c with value := half + c.value }

end Backoff

end Courier
