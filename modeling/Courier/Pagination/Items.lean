import Courier.Pagination.Pages

/-! # Items of pages

Items are handed out one at a time and a page is fetched when those before it are used up. Pages
without items are passed over; the bound says how many pages in a row may be looked at for one item.
-/

namespace Courier

structure ItemIterator (π τ ι : Type) where
  pages : PageIterator π τ
  buffer : List ι
  deriving DecidableEq, Repr

namespace ItemIterator

variable {σ π τ ι : Type}

def start (pages : PageIterator π τ) : ItemIterator π τ ι :=
  ⟨pages, []⟩

/-- Looks for items: `some true` once there are some, `some false` when no page is left. -/
def fill (f : PageFetcher σ π τ) (extract : π → List ι) : Nat → ItemIterator π τ ι → σ →
    Option (Except Error Bool) × ItemIterator π τ ι × σ
  | 0, it, s => (none, it, s)
  | pages + 1, it, s =>
    if !it.buffer.isEmpty then (some (.ok true), it, s)
    else if !it.pages.hasNext then (some (.ok false), it, s)
    else
      match it.pages.nextPage f s with
      | (.error e, p, s) => (some (.error e), { it with pages := p }, s)
      | (.ok page, p, s) => fill f extract pages ⟨p, extract page⟩ s

def hasNext (f : PageFetcher σ π τ) (extract : π → List ι) (bound : Nat) (it : ItemIterator π τ ι)
    (s : σ) : Option (Except Error Bool) × ItemIterator π τ ι × σ :=
  fill f extract bound it s

def nextItem (f : PageFetcher σ π τ) (extract : π → List ι) (bound : Nat)
    (it : ItemIterator π τ ι) (s : σ) : Option (Except Error ι) × ItemIterator π τ ι × σ :=
  match fill f extract bound it s with
  | (none, it, s) => (none, it, s)
  | (some (.error e), it, s) => (some (.error e), it, s)
  | (some (.ok _), it, s) =>
    match it.buffer with
    | item :: rest => (some (.ok item), { it with buffer := rest }, s)
    | [] => (some (.error .endOfItems), it, s)

/-- The next element of the iteration; the end of the items ends it. -/
def next (f : PageFetcher σ π τ) (extract : π → List ι) (bound : Nat)
    (it : ItemIterator π τ ι) (s : σ) : Option (Except Error ι) × ItemIterator π τ ι × σ :=
  match it.nextItem f extract bound s with
  | (some (.error .endOfItems), it, s) => (none, it, s)
  | found => found

/-- At most `n` elements. -/
def take (f : PageFetcher σ π τ) (extract : π → List ι) (bound : Nat) : Nat →
    ItemIterator π τ ι → σ → List (Except Error ι) × ItemIterator π τ ι × σ
  | 0, it, s => ([], it, s)
  | n + 1, it, s =>
    match it.next f extract bound s with
    | (none, it, s) => ([], it, s)
    | (some result, it, s) =>
      let (results, it, s) := take f extract bound n it s
      (result :: results, it, s)

def inspect (it : ItemIterator π τ ι) : String :=
  Inspect.record "ItemIterator"
    [("pages", it.pages.inspect "PageIterator"), ("buffered", toString it.buffer.length)]

end ItemIterator

/-- Pages flattened as they arrive: the items of the page at hand, if one is, and the pages yet to
come. An error stands in the place of a page. -/
structure ItemStream (π τ ι : Type) where
  pages : PageIterator π τ
  current : Option (List ι)
  deriving DecidableEq, Repr

namespace ItemStream

variable {σ π τ ι : Type}

def start (pages : PageIterator π τ) : ItemStream π τ ι :=
  ⟨pages, none⟩

/-- The next element within so many turns, each of which ends a page or begins one. -/
def next (f : PageFetcher σ π τ) (extract : π → List ι) : Nat → ItemStream π τ ι → σ →
    Option (Except Error ι) × ItemStream π τ ι × σ
  | 0, st, s => (none, st, s)
  | turns + 1, st, s =>
    match st.current with
    | some (item :: rest) => (some (.ok item), { st with current := some rest }, s)
    | some [] => next f extract turns { st with current := none } s
    | none =>
      match st.pages.next f s with
      | (none, p, s) => (none, { st with pages := p }, s)
      | (some (.error e), p, s) => (some (.error e), { st with pages := p }, s)
      | (some (.ok page), p, s) => next f extract turns ⟨p, some (extract page)⟩ s

def take (f : PageFetcher σ π τ) (extract : π → List ι) (turns : Nat) : Nat →
    ItemStream π τ ι → σ → List (Except Error ι) × ItemStream π τ ι × σ
  | 0, st, s => ([], st, s)
  | n + 1, st, s =>
    match st.next f extract turns s with
    | (none, st, s) => ([], st, s)
    | (some result, st, s) =>
      let (results, st, s) := take f extract turns n st s
      (result :: results, st, s)

end ItemStream

end Courier
