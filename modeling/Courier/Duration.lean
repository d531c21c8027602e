import Courier.Word

/-! # Durations

Lengths of time in nanoseconds, told in whole milliseconds up to 2⁶⁴ - 1.
-/

namespace Courier

structure Duration where
  nanos : Nat
  deriving DecidableEq, Repr, Inhabited

namespace Duration

def zero : Duration := ⟨0⟩

def ofMicros (n : Nat) : Duration := ⟨n * 1000⟩

def ofMillis (n : Nat) : Duration := ⟨n * 1000000⟩

def ofSeconds (n : Nat) : Duration := ⟨n * 1000000000⟩

def maxMillis : Nat := wordSize 64 - 1

def millis (d : Duration) : Nat :=
  min (d.nanos / 1000000) maxMillis

theorem millis_ofMillis {n : Nat} (h : n ≤ maxMillis) : (ofMillis n).millis = n := by
  simp [millis, ofMillis, Nat.min_eq_left h]

end Duration

end Courier
