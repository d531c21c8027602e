import Courier.Digest.Md5

/-! # Shared cells

Digest slots, which a stream filter fills and a later response hook reads, and counts of how often
each body provider has been opened. Both are shared by everything that holds their index.
-/

namespace Courier

structure Slot where
  index : Nat
  deriving DecidableEq, Repr

structure Counter where
  index : Nat
  deriving DecidableEq, Repr

structure Cells where
  digests : List (Option Digest)
  counts : List Nat
  deriving DecidableEq, Repr

namespace Cells

def empty : Cells := ⟨[], []⟩

instance : Inhabited Cells := ⟨empty⟩

def newSlot (c : Cells) (value : Option Digest) : Slot × Cells :=
  (⟨c.digests.length⟩, { c with digests := c.digests ++ [value] })

def digest? (c : Cells) (s : Slot) : Option Digest :=
  c.digests.getD s.index none

def setDigest (c : Cells) (s : Slot) (value : Option Digest) : Cells :=
  { c with digests := c.digests.set s.index value }

def newCounter (c : Cells) : Counter × Cells :=
  (⟨c.counts.length⟩, { c with counts := c.counts ++ [0] })

def count (c : Cells) (k : Counter) : Nat :=
  c.counts.getD k.index 0

def increment (c : Cells) (k : Counter) : Cells :=
  { c with counts := c.counts.modify k.index (· + 1) }

end Cells

end Courier
