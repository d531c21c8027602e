import Courier.Error
import Courier.Text.Inspect

/-! # Pages

A first page and, from each page on, perhaps a token by which the next one is fetched.
-/

namespace Courier

/-- How a service hands out pages; `σ` is what fetching changes. -/
structure PageFetcher (σ π τ : Type) where
  next? : π → Option τ
  fetch : τ → σ → Except Error π × σ

structure PageIterator (π τ : Type) where
  first : Option π
  token : Option τ
  fetched : Nat
  deriving DecidableEq, Repr

namespace PageIterator

variable {σ π τ : Type}

def start (page : π) : PageIterator π τ :=
  ⟨some page, none, 0⟩

def hasNext (p : PageIterator π τ) : Bool :=
  p.first.isSome || p.token.isSome

/-- The next page. A fetch that fails leaves nothing to go on with. -/
def nextPage (f : PageFetcher σ π τ) (p : PageIterator π τ) (s : σ) :
    Except Error π × PageIterator π τ × σ :=
  match p.first, p.token with
  | some page, _ => (.ok page, { p with first := none, token := f.next? page }, s)
  | none, none => (.error .endOfPages, p, s)
  | none, some token =>
    let p := { p with token := none, fetched := p.fetched + 1 }
    match f.fetch token s with
    | (.ok page, s) => (.ok page, { p with token := f.next? page }, s)
    | (.error e, s) => (.error e, p, s)

/-- The next element of the iteration; the end of the pages ends it. -/
def next (f : PageFetcher σ π τ) (p : PageIterator π τ) (s : σ) :
    Option (Except Error π) × PageIterator π τ × σ :=
  match p.nextPage f s with
  | (.error .endOfPages, p, s) => (none, p, s)
  | (result, p, s) => (some result, p, s)

/-- At most `n` elements. -/
def take (f : PageFetcher σ π τ) : Nat → PageIterator π τ → σ →
    List (Except Error π) × PageIterator π τ × σ
  | 0, p, s => ([], p, s)
  | n + 1, p, s =>
    match p.next f s with
    | (none, p, s) => ([], p, s)
    | (some result, p, s) =>
      let (results, p, s) := take f n p s
      (result :: results, p, s)

/-- The pages that at most `n` elements give, or the first error among them. -/
def collect (f : PageFetcher σ π τ) : Nat → PageIterator π τ → σ → Except Error (List π) × σ
  | 0, _, s => (.ok [], s)
  | n + 1, p, s =>
    match p.next f s with
    | (none, _, s) => (.ok [], s)
    | (some (.error e), _, s) => (.error e, s)
    | (some (.ok page), p, s) =>
      match collect f n p s with
      | (.ok pages, s) => (.ok (page :: pages), s)
      | (.error e, s) => (.error e, s)

def inspect (name : String) (p : PageIterator π τ) : String :=
  Inspect.record name [("has_next", Inspect.flag p.hasNext), ("fetched", toString p.fetched)]

end PageIterator

end Courier
