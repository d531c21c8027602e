import Courier.Pagination.Items

/-! # Catalogues

Pages numbered from zero, of which some fail so many times before they can be fetched. Every fetch
is recorded.
-/

namespace Courier.Rehearsal

structure Page where
  items : List String
  next : Option Nat
  deriving DecidableEq, Repr, Inhabited

def Page.inspect (p : Page) : String :=
  Inspect.record "Page"
    [("items", Inspect.list (p.items.map Inspect.text)),
     ("next", Inspect.option (p.next.map toString))]

/-- What fetching changes: the tokens fetched so far, and the failures still due. -/
structure Fetches where
  tokens : List Nat
  failures : List (Nat × Nat)
  deriving DecidableEq, Repr

def unavailable (token : Nat) : Error :=
  .transmission ("page " ++ toString token ++ " unavailable")

def missing : Error :=
  .transmission "no such page"

def fetch (pages : List Page) (token : Nat) (s : Fetches) : Except Error Page × Fetches :=
  let s := { s with tokens := s.tokens ++ [token] }
  match s.failures.findIdx? fun (failing, times) => failing = token && 0 < times with
  | some i =>
    (.error (unavailable token),
      { s with failures := s.failures.modify i fun (failing, times) => (failing, times - 1) })
  | none =>
    match pages[token]? with
    | some page => (.ok page, s)
    | none => (.error missing, s)

def fetcher (pages : List Page) : PageFetcher Fetches Page Nat :=
  ⟨Page.next, fetch pages⟩

end Courier.Rehearsal
