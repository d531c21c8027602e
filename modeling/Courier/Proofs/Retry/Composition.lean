import Courier.Retry.Policy

/-! # Conditions put together

The builders join what is added to a conjunction or a disjunction on their left, and nest everything
else. That shows in the tree and not in what it means: it holds where the formula does that it was
built from. A policy asks its condition in three ways, with and without its budget, and the answers
fit together.
-/

namespace Courier

namespace RetryCondition

/-! ## Trees -/

@[simp]
theorem holds_and (ctx : RetryContext) (cs : List RetryCondition) :
    (and cs).holds ctx = cs.all (holds ctx) := by
  rw [holds, allHold_eq_all]

@[simp]
theorem holds_or (ctx : RetryContext) (cs : List RetryCondition) :
    (or cs).holds ctx = cs.any (holds ctx) := by
  rw [holds, someHolds_eq_any]

@[simp]
theorem holds_not (ctx : RetryContext) (c : RetryCondition) :
    (not c).holds ctx = !c.holds ctx := by
  rw [holds]

@[simp]
theorem holds_conj (ctx : RetryContext) (c d : RetryCondition) :
    (c.conj d).holds ctx = (c.holds ctx && d.holds ctx) := by
  cases c with
  | and cs => simp [conj]
  | _ => simp [conj]

@[simp]
theorem holds_disj (ctx : RetryContext) (c d : RetryCondition) :
    (c.disj d).holds ctx = (c.holds ctx || d.holds ctx) := by
  cases c with
  | or cs => simp [disj]
  | _ => simp [disj]

/-! ## Formulas -/

/-- Conditions as they are given, and what is made of them, before any of it is built. -/
inductive Formula
  | given (c : RetryCondition)
  | conj (f g : Formula)
  | disj (f g : Formula)
  | not (f : Formula)

namespace Formula

/-- The tree that the builders make of the formula. -/
def built : Formula → RetryCondition
  | given c => c
  | conj f g => f.built.conj g.built
  | disj f g => f.built.disj g.built
  | not f => .not f.built

/-- What the formula comes to where the conditions that it is given hold or not as told. -/
def value (hold : RetryCondition → Bool) : Formula → Bool
  | given c => hold c
  | conj f g => f.value hold && g.value hold
  | disj f g => f.value hold || g.value hold
  | not f => !f.value hold

theorem holds_built (f : Formula) (ctx : RetryContext) :
    f.built.holds ctx = f.value (·.holds ctx) := by
  induction f with
  | given c => rfl
  | conj f g ihf ihg => rw [built, holds_conj, ihf, ihg, value]
  | disj f g ihf ihg => rw [built, holds_disj, ihf, ihg, value]
  | not f ih => rw [built, holds_not, ih, value]

/-- A conjunction takes in what is added on its right, and is nested where it is added itself. -/
example :
    let f : Formula := .conj (.given .always) (.given (.maxAttempts 3))
    (Formula.conj f f).built =
      .and [.always, .maxAttempts 3, .and [.always, .maxAttempts 3]] := by
  rfl

end Formula

end RetryCondition

/-! ## Policies -/

namespace RetryPolicy

variable {p : RetryPolicy} {ctx : RetryContext}

theorem shouldRetry_iff :
    p.shouldRetry ctx = true ↔ p.isRetryable ctx = true ∧ ctx.retries < p.maxRetries := by
  simp [shouldRetry, isRetryable, and_comm]

theorem isRetryable_of_shouldRetry (h : p.shouldRetry ctx = true) : p.isRetryable ctx = true :=
  (shouldRetry_iff.mp h).1

/-- A decision looks at the condition first and at the budget second, and draws a delay only where
both allow a retry. -/
theorem decide_eq (p : RetryPolicy) (ctx : RetryContext) (g : Generator) :
    p.decide ctx g =
      if p.shouldRetry ctx then (.retry (p.nextDelay ctx g).value, (p.nextDelay ctx g).rest)
      else (if p.isRetryable ctx then .giveUp else .notRetryable, g) := by
  unfold RetryPolicy.decide
  cases hs : p.shouldRetry ctx with
  | true =>
    obtain ⟨hc, hb⟩ := shouldRetry_iff.mp hs
    simp [hc, Nat.not_le.mpr hb]
  | false =>
    cases hc : p.isRetryable ctx with
    | false => rfl
    | true =>
      have hb : p.maxRetries ≤ ctx.retries :=
        Nat.not_lt.mp fun hb => by simp [shouldRetry_iff.mpr ⟨hc, hb⟩] at hs
      simp [hb]

/-- What the builders make of a formula holds where the formula does. A policy decides for a retry
where there should be one, gives up where only its budget is against it, and takes all else for not
retryable. -/
theorem builders_keep_meaning (f : RetryCondition.Formula) (p : RetryPolicy) (ctx : RetryContext)
    (g : Generator) :
    f.built.holds ctx = f.value (·.holds ctx) ∧
      ((∃ delay, (p.decide ctx g).1 = .retry delay) ↔ p.shouldRetry ctx = true) ∧
      ((p.decide ctx g).1 = .giveUp ↔ p.isRetryable ctx = true ∧ p.shouldRetry ctx = false) ∧
      ((p.decide ctx g).1 = .notRetryable ↔
        p.shouldRetry ctx = false ∧ p.isRetryable ctx = false) := by
  refine ⟨f.holds_built ctx, ?_⟩
  rw [decide_eq]
  cases hs : p.shouldRetry ctx with
  | true => simp [isRetryable_of_shouldRetry hs]
  | false =>
    cases hc : p.isRetryable ctx with
    | true => simp
    | false => simp

end RetryPolicy

end Courier
