import Courier.Duration
import Courier.Error

/-! # Retry conditions

A tree of tests on the number of retries, the kind of the last error and the last status.
-/

namespace Courier

/-- What is known when a retry is decided on. -/
structure RetryContext where
  retries : Nat
  lastError : Option Error
  lastStatus : Option Nat
  elapsed : Duration
  deriving DecidableEq, Repr

namespace RetryContext

def ofError (retries : Nat) (error : Option Error) (elapsed : Duration) : RetryContext :=
  ⟨retries, error, error.bind (·.statusCode?), elapsed⟩

def withStatus (c : RetryContext) (status : Nat) : RetryContext :=
  { c with lastStatus := some status }

end RetryContext

inductive RetryCondition
  | never
  | always
  | maxAttempts (maxRetries : Nat)
  | errorKinds (kinds : List ErrorKind)
  | statusCodes (codes : List Nat)
  | and (conditions : List RetryCondition)
  | or (conditions : List RetryCondition)
  | not (condition : RetryCondition)
  deriving Repr, Inhabited

namespace RetryCondition

def retryableStatuses : List Nat := [429, 500, 502, 503, 504]

mutual

def holds (ctx : RetryContext) : RetryCondition → Bool
  | never => false
  | always => true
  | maxAttempts n => ctx.retries < n
  | errorKinds kinds => ctx.lastError.any fun e => kinds.contains e.kind
  | statusCodes codes => ctx.lastStatus.any codes.contains
  | and conditions => allHold ctx conditions
  | or conditions => someHolds ctx conditions
  | not condition => !holds ctx condition

def allHold (ctx : RetryContext) : List RetryCondition → Bool
  | [] => true
  | c :: cs => holds ctx c && allHold ctx cs

def someHolds (ctx : RetryContext) : List RetryCondition → Bool
  | [] => false
  | c :: cs => holds ctx c || someHolds ctx cs

end

/-- Both; joins a conjunction on the left rather than nest it. -/
def conj (c d : RetryCondition) : RetryCondition :=
  match c with
  | and conditions => and (conditions ++ [d])
  | c => and [c, d]

/-- Either; joins a disjunction on the left rather than nest it. -/
def disj (c d : RetryCondition) : RetryCondition :=
  match c with
  | or conditions => or (conditions ++ [d])
  | c => or [c, d]

def standard : RetryCondition :=
  disj (errorKinds ErrorKind.transient) (statusCodes retryableStatuses)

theorem allHold_eq_all (ctx : RetryContext) (cs : List RetryCondition) :
    allHold ctx cs = cs.all (holds ctx) := by
  induction cs with
  | nil => rfl
  | cons c cs ih => simp [allHold, ih]

theorem someHolds_eq_any (ctx : RetryContext) (cs : List RetryCondition) :
    someHolds ctx cs = cs.any (holds ctx) := by
  induction cs with
  | nil => rfl
  | cons c cs ih => simp [someHolds, ih]

end RetryCondition

end Courier
