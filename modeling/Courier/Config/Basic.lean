import Courier.Integrity.Strategy
import Courier.Retry.Policy

/-! # Client configuration

Limits and timeouts of the pool, the retry policy in figures, and the integrity checks. Figures are
kept as they were given; validation tells which of them cannot be used.
-/

namespace Courier

structure PoolConfig where
  maxConnections : Nat
  acquisitionTimeout : Int
  connectTimeout : Int
  socketTimeout : Int
  eventLoopThreads : Nat
  deriving DecidableEq, Repr

namespace PoolConfig

def standard : PoolConfig := ⟨50, 10000, 2000, 30000, 2⟩

instance : Inhabited PoolConfig := ⟨standard⟩

def validate (c : PoolConfig) : Except Error Unit :=
  if c.maxConnections = 0 then
    .error (.configuration "max_connections_per_endpoint" "must be at least 1")
  else if c.acquisitionTimeout < 0 then .error (.negative "connection_acquisition_timeout_ms")
  else if c.connectTimeout < 0 then .error (.negative "connect_timeout_ms")
  else if c.socketTimeout < 0 then .error (.negative "socket_timeout_ms")
  else .ok ()

/-! The timeouts in milliseconds; what is below zero counts as none. -/

def acquisitionMillis (c : PoolConfig) : Nat := c.acquisitionTimeout.toNat
def connectMillis (c : PoolConfig) : Nat := c.connectTimeout.toNat
def socketMillis (c : PoolConfig) : Nat := c.socketTimeout.toNat

end PoolConfig

structure RetryConfig where
  maxRetries : Int
  baseDelay : Int
  maxDelay : Int
  backoff : BackoffKind
  onStatus : List Nat
  onErrors : List ErrorKind
  condition : Option RetryCondition
  deriving Repr

namespace RetryConfig

def standard : RetryConfig where
  maxRetries := 3
  baseDelay := 100
  maxDelay := 20000
  backoff := .standard
  onStatus := RetryCondition.retryableStatuses
  onErrors := ErrorKind.transient
  condition := none

instance : Inhabited RetryConfig := ⟨standard⟩

def disabled : RetryConfig :=
  { standard with maxRetries := 0, backoff := .none, condition := some .never }

/-- The condition given, else the listed errors and statuses. -/
def effectiveCondition (c : RetryConfig) : RetryCondition :=
  c.condition.getD ((RetryCondition.errorKinds c.onErrors).disj (.statusCodes c.onStatus))

def build (c : RetryConfig) : Except Error RetryPolicy :=
  match Backoff.ofMillis c.backoff c.baseDelay c.maxDelay c.maxRetries with
  | .error e => .error e
  | .ok backoff => .ok ⟨c.effectiveCondition, backoff, c.maxRetries.toNat⟩

end RetryConfig

structure ClientConfig where
  pool : PoolConfig
  retry : RetryConfig
  integrity : Integrity.Settings
  deriving Repr

namespace ClientConfig

def standard : ClientConfig := ⟨.standard, .standard, .enabled⟩

instance : Inhabited ClientConfig := ⟨standard⟩

def validate (c : ClientConfig) : Except Error Unit :=
  match c.pool.validate with
  | .error e => .error e
  | .ok () => c.retry.build.map fun _ => ()

end ClientConfig

end Courier
