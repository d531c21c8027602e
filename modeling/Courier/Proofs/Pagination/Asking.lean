import Courier.Pagination.Pages

/-! # Asking for pages

An iterator is asked, in any order and however often, whether another page is left and for the next
page. What it answers is the chain of pages place by place, and what it fetches are the tokens of
the chain up to the place that has been asked for. All of it hangs on how many pages have been asked
for, and on nothing else that was asked.
-/

namespace Courier

variable {σ π τ : Type}

/-! ## The chain -/

namespace PageFetcher

/-- What stands at this place of the chain from a first page on, and the state that fetching it has
left. Nothing stands behind a page without a token, nor behind a fetch that failed. -/
def link (f : PageFetcher σ π τ) (first : π) (s : σ) : Nat → Option (Except Error π × σ)
  | 0 => some (.ok first, s)
  | i + 1 =>
    match link f first s i with
    | some (.ok page, s) => (f.next? page).map (f.fetch · s)
    | _ => none

def token? (f : PageFetcher σ π τ) (first : π) (s : σ) : Nat → Option τ
  | 0 => none
  | i + 1 =>
    match f.link first s i with
    | some (.ok page, _) => f.next? page
    | _ => none

/-- The same service, with a record of the tokens that it has been asked for. -/
def recorded (f : PageFetcher σ π τ) : PageFetcher (σ × List τ) π τ where
  next? := f.next?
  fetch token s := ((f.fetch token s.1).1, (f.fetch token s.1).2, s.2 ++ [token])

variable {f : PageFetcher σ π τ} {first page : π} {s s' : σ} {token : τ} {i j : Nat}

theorem link_of_token (hl : f.link first s i = some (.ok page, s'))
    (ht : f.token? first s (i + 1) = some token) :
    f.link first s (i + 1) = some (f.fetch token s') := by
  rw [token?, hl] at ht
  rw [link, hl]
  exact congrArg (Option.map (f.fetch · s')) ht

theorem link_of_no_token (ht : f.token? first s (i + 1) = none) :
    f.link first s (i + 1) = none := by
  rw [link]
  rw [token?] at ht
  split
  · rename_i hl
    rw [hl] at ht
    exact congrArg (Option.map _) ht
  · rfl

theorem page_of_token (ht : f.token? first s (i + 1) = some token) :
    ∃ page s', f.link first s i = some (.ok page, s') := by
  rw [token?] at ht
  split at ht
  · exact ⟨_, _, ‹_›⟩
  · cases ht

theorem isSome_link (f : PageFetcher σ π τ) (first : π) (s : σ) (i : Nat) :
    (f.link first s (i + 1)).isSome = (f.token? first s (i + 1)).isSome := by
  cases ht : f.token? first s (i + 1) with
  | none => rw [link_of_no_token ht]; rfl
  | some token =>
    obtain ⟨page, s', hl⟩ := page_of_token ht
    rw [link_of_token hl ht]
    rfl

theorem link_of_le (hi : f.link first s i = none) (hij : i ≤ j) : f.link first s j = none := by
  induction hij with
  | refl => exact hi
  | step _ ih => rw [link, ih]

inductive EndsAt (f : PageFetcher σ π τ) (first : π) (s : σ) (i : Nat) : Prop

  | failed {e : Error} {s' : σ} (hl : f.link first s i = some (.error e, s')) : EndsAt f first s i

  | last {page : π} {s' : σ} (hl : f.link first s i = some (.ok page, s'))
      (ht : f.next? page = none) : EndsAt f first s i

theorem EndsAt.link_none (h : f.EndsAt first s i) : f.link first s (i + 1) = none := by
  cases h with
  | failed hl => rw [link, hl]
  | last hl ht => rw [link, hl]; exact congrArg (Option.map _) ht

end PageFetcher

/-! ## Calls -/

inductive PageIterator.Call
  | hasNext
  | nextPage
  deriving DecidableEq, Repr

inductive PageIterator.Reply (π : Type)
  | has (more : Bool)
  | page (result : Except Error π)

namespace PageIterator

def reply (f : PageFetcher σ π τ) (p : PageIterator π τ) (s : σ) :
    Call → Reply π × PageIterator π τ × σ
  | .hasNext => (.has p.hasNext, p, s)
  | .nextPage =>
    let (result, p, s) := p.nextPage f s
    (.page result, p, s)

def handed (answers : List (Reply π)) : List π :=
  answers.filterMap fun
    | .page (.ok page) => some page
    | _ => none

def run (f : PageFetcher σ π τ) : List Call → PageIterator π τ → σ →
    List (Reply π) × PageIterator π τ × σ
  | [], p, s => ([], p, s)
  | call :: calls, p, s =>
    let (answer, p, s) := p.reply f s call
    let (answers, p, s) := run f calls p s
    (answer :: answers, p, s)

end PageIterator

namespace PageFetcher

open PageIterator

/-- What the next page is when so many have been asked for. -/
def pageAt (f : PageFetcher σ π τ) (first : π) (s : σ) (i : Nat) : Except Error π :=
  ((f.link first s i).map Prod.fst).getD (.error .endOfPages)

/-- What the chain has to say to these calls when so many pages have been asked for. -/
def replies (f : PageFetcher σ π τ) (first : π) (s : σ) : Nat → List Call → List (Reply π)
  | _, [] => []
  | i, .hasNext :: calls => .has (f.link first s i).isSome :: replies f first s i calls
  | i, .nextPage :: calls => .page (f.pageAt first s i) :: replies f first s (i + 1) calls

def tokens (f : PageFetcher σ π τ) (first : π) (s : σ) (k : Nat) : List τ :=
  (List.range k).filterMap (f.token? first s)

theorem tokens_succ (f : PageFetcher σ π τ) (first : π) (s : σ) (k : Nat) :
    f.tokens first s (k + 1) = f.tokens first s k ++ (f.token? first s k).toList := by
  unfold tokens
  rw [List.range_succ, List.filterMap_append]
  cases h : f.token? first s k <;> simp [h]

variable {f : PageFetcher σ π τ} {first : π} {s : σ} {i j : Nat} {calls : List Call}

theorem tokens_of_le (hi : f.link first s (i + 1) = none) (hij : i + 1 ≤ j) :
    f.tokens first s j = f.tokens first s (i + 1) := by
  induction hij with
  | refl => rfl
  | @step j hj ih =>
    have ht : f.token? first s j = none := by
      obtain ⟨j, rfl⟩ := Nat.exists_eq_add_of_le' (Nat.le_of_add_left_le hj)
      have hl := isSome_link f first s j
      rw [link_of_le hi hj] at hl
      exact Option.isNone_iff_eq_none.mp (by simpa using hl.symm)
    rw [tokens_succ, ih, ht]
    exact List.append_nil _

theorem mem_replies (hi : f.link first s i = none) {answer : Reply π}
    (h : answer ∈ f.replies first s i calls) :
    answer = .has false ∨ answer = .page (.error .endOfPages) := by
  induction calls generalizing i with
  | nil => cases h
  | cons call calls ih =>
    cases call with
    | hasNext =>
      rw [replies, hi] at h
      rcases List.mem_cons.mp h with rfl | h
      · exact .inl rfl
      · exact ih hi h
    | nextPage =>
      rw [replies, pageAt, hi] at h
      rcases List.mem_cons.mp h with rfl | h
      · exact .inr rfl
      · exact ih (link_of_le hi (Nat.le_succ i)) h

theorem handed_replies {k : Nat} {page : π}
    (h : (handed (f.replies first s i calls))[k]? = some page) :
    ∃ s', f.link first s (i + k) = some (.ok page, s') := by
  induction calls generalizing i k with
  | nil => cases h
  | cons call calls ih =>
    cases call with
    | hasNext => exact ih h
    | nextPage =>
      rw [replies, pageAt] at h
      -- without a page here none is handed out any more
      have hnone (hl : f.link first s (i + 1) = none)
          (h : (handed (f.replies first s (i + 1) calls))[k]? = some page) : False := by
        obtain ⟨answer, ha, hp⟩ := List.mem_filterMap.mp (List.mem_of_getElem? h)
        rcases mem_replies hl ha with rfl | rfl <;> cases hp
      rcases hl : f.link first s i with _ | ⟨e | front, s'⟩
      · rw [hl] at h
        exact (hnone (link_of_le hl (Nat.le_succ i)) h).elim
      · rw [hl] at h
        exact (hnone (EndsAt.failed hl).link_none h).elim
      · rw [hl] at h
        cases k with
        | zero =>
          cases h
          exact ⟨s', hl⟩
        | succ k =>
          rw [← Nat.succ_add_eq_add_succ]
          exact ih h

end PageFetcher

/-! ## The iterator keeps its place -/

namespace PageIterator

/-- So many pages have been asked for, and the tokens up to there have been fetched. -/
structure StandsAt (f : PageFetcher σ π τ) (first : π) (s : σ) (k : Nat) (p : PageIterator π τ)
    (d : σ × List τ) : Prop where
  front : p.first = if k = 0 then some first else none
  token : p.token = f.token? first s k
  state : ∀ page s', f.link first s (k - 1) = some (.ok page, s') → d.1 = s'
  record : d.2 = f.tokens first s k
  fetched : p.fetched = d.2.length

variable {f : PageFetcher σ π τ} {first : π} {s : σ} {k : Nat} {p : PageIterator π τ}
  {d : σ × List τ}

theorem standsAt_start (f : PageFetcher σ π τ) (first : π) (s : σ) :
    StandsAt f first s 0 (.start first) (s, []) where
  front := rfl
  token := rfl
  state _ _ hl := by
    cases hl
    rfl
  record := rfl
  fetched := rfl

theorem StandsAt.hasNext (h : StandsAt f first s k p d) :
    p.hasNext = (f.link first s k).isSome := by
  unfold PageIterator.hasNext
  rw [h.front, h.token]
  cases k with
  | zero => rfl
  | succ i => rw [PageFetcher.isSome_link]; rfl

/-- To ask for a page is to go on by one place. -/
theorem StandsAt.nextPage (h : StandsAt f first s k p d) :
    (p.nextPage f.recorded d).1 = f.pageAt first s k ∧
      StandsAt f first s (k + 1) (p.nextPage f.recorded d).2.1
        (p.nextPage f.recorded d).2.2 := by
  obtain ⟨hfront, htoken, hstate, hrecord, hfetched⟩ := h
  obtain ⟨p₁, p₂, p₃⟩ := p
  dsimp only at hfront htoken hfetched
  cases k with
  | zero =>
    rw [if_pos rfl] at hfront
    subst hfront
    exact ⟨rfl, rfl, rfl, hstate, hrecord, hfetched⟩
  | succ i =>
    rw [if_neg (Nat.succ_ne_zero i)] at hfront
    subst hfront
    have hmore := PageFetcher.tokens_succ f first s (i + 1)
    cases ht : f.token? first s (i + 1) with
    | none =>
      -- nothing stands here, and so nothing behind it
      have hl := PageFetcher.link_of_no_token ht
      rw [ht] at htoken hmore
      subst htoken
      refine ⟨?_, rfl, ?_, ?_, ?_, hfetched⟩
      · rw [PageFetcher.pageAt, hl]
        rfl
      · change none = f.token? first s (i + 2)
        rw [PageFetcher.token?, hl]
      · intro page s' hl'
        cases hl.symm.trans hl'
      · rw [hmore]
        exact hrecord.trans (List.append_nil _).symm
    | some token =>
      obtain ⟨page, s', hpage⟩ := PageFetcher.page_of_token ht
      have hl := PageFetcher.link_of_token hpage ht
      have hd : d.1 = s' := hstate page s' hpage
      rw [ht] at htoken hmore
      subst htoken
      have hrecord' : d.2 ++ [token] = f.tokens first s (i + 2) := by
        rw [hmore, hrecord]
        rfl
      have hfetched' : p₃ + 1 = (d.2 ++ [token]).length := by
        rw [hfetched, List.length_append, List.length_singleton]
      unfold PageIterator.nextPage PageFetcher.recorded
      dsimp only
      rw [hd]
      rcases hf : f.fetch token s' with ⟨e | next, s''⟩
      · rw [hf] at hl
        refine ⟨?_, rfl, ?_, ?_, hrecord', hfetched'⟩
        · rw [PageFetcher.pageAt, hl]
          rfl
        · change none = f.token? first s (i + 2)
          rw [PageFetcher.token?, hl]
        · intro page s₃ hl'
          cases hl.symm.trans hl'
      · rw [hf] at hl
        refine ⟨?_, rfl, ?_, ?_, hrecord', hfetched'⟩
        · rw [PageFetcher.pageAt, hl]
          rfl
        · change f.next? next = f.token? first s (i + 2)
          rw [PageFetcher.token?, hl]
        · intro page s₃ hl'
          cases hl.symm.trans hl'
          rfl

theorem StandsAt.run (h : StandsAt f first s k p d) (calls : List Call) :
    (p.run f.recorded calls d).1 = f.replies first s k calls ∧
      StandsAt f first s (k + calls.count .nextPage) (p.run f.recorded calls d).2.1
        (p.run f.recorded calls d).2.2 := by
  induction calls generalizing k p d with
  | nil => exact ⟨rfl, h⟩
  | cons call calls ih =>
    cases call with
    | hasNext =>
      obtain ⟨hreplies, hplace⟩ := ih h
      rw [List.count_cons_of_ne (by decide)]
      refine ⟨?_, hplace⟩
      rw [PageFetcher.replies, ← h.hasNext, ← hreplies]
      rfl
    | nextPage =>
      obtain ⟨hpage, hnext⟩ := h.nextPage
      obtain ⟨hreplies, hplace⟩ := ih hnext
      rw [List.count_cons_self, Nat.add_comm (calls.count _), ← Nat.add_assoc]
      refine ⟨?_, hplace⟩
      rw [PageFetcher.replies, ← hpage, ← hreplies]
      rfl

end PageIterator

namespace PageFetcher

open PageIterator

/-- Ask an iterator anything, in any order, about the chain of a first page, however long the chain
is and however fetching goes. The answers are those of the chain: what is asked for in the `i`-th
place is the page that stands there, or the error that its fetch failed with, or else the end of the
pages, and the `i`-th page that is handed out is the `i`-th of the chain. Another page is there just
if something stands in the next place. What has been fetched are the tokens of the places that have
been asked for, each once and in order, and nothing ahead of them; and that is the count of fetches.
Once the end of the chain has been handed out, nothing is fetched any more, and whatever is asked is
answered with the end. -/
theorem chain_fetched (f : PageFetcher σ π τ) (first : π) (s : σ) (calls : List Call) :
    let k := calls.count .nextPage
    let (answers, p, d) := (PageIterator.start first).run f.recorded calls (s, [])
    answers = f.replies first s 0 calls ∧
    (∀ (i : Nat) page, (handed answers)[i]? = some page →
      ∃ s', f.link first s i = some (.ok page, s')) ∧
    d.2 = f.tokens first s k ∧ p.fetched = d.2.length ∧
    p.hasNext = (f.link first s k).isSome ∧ (p.nextPage f.recorded d).1 = f.pageAt first s k ∧
    ∀ i < k, f.EndsAt first s i → ∀ more,
      let (answers', _, d') := p.run f.recorded more d
      d'.2 = d.2 ∧
        ∀ answer ∈ answers', answer = .has false ∨ answer = .page (.error .endOfPages) := by
  obtain ⟨hreplies, hplace⟩ := (standsAt_start f first s).run calls
  rw [Nat.zero_add] at hplace
  refine ⟨hreplies, ?_, hplace.record, hplace.fetched, hplace.hasNext, hplace.nextPage.1, ?_⟩
  · intro i page h
    rw [hreplies] at h
    simpa using handed_replies h
  · intro i hi hend more
    obtain ⟨hmore, hplace'⟩ := hplace.run more
    constructor
    · rw [hplace'.record, hplace.record, tokens_of_le hend.link_none (Nat.le_add_right_of_le hi),
        tokens_of_le hend.link_none hi]
    · intro answer h
      rw [hmore] at h
      exact mem_replies (link_of_le hend.link_none hi) h

/-- Three pages are asked for and a fourth; the second fetch fails. -/
theorem chain_fetched_failing_fetch :
    let f : PageFetcher Nat (String × Option Nat) Nat := {
      next? := Prod.snd
      fetch := fun token fetches =>
        (if token = 1 then .ok ("b", some 2) else .error .poolClosed, fetches + 1) }
    let (answers, p, d) := (PageIterator.start ("a", some 1)).run f.recorded
      [.nextPage, .hasNext, .nextPage, .nextPage, .hasNext, .nextPage] (0, [])
    answers = [.page (.ok ("a", some 1)), .has true, .page (.ok ("b", some 2)),
      .page (.error .poolClosed), .has false, .page (.error .endOfPages)] ∧
    d.2 = [1, 2] ∧ p.fetched = 2 := by
  intro f
  obtain ⟨hreplies, -, hrecord, hfetched, -⟩ := chain_fetched f ("a", some 1) 0
    [.nextPage, .hasNext, .nextPage, .nextPage, .hasNext, .nextPage]
  exact ⟨hreplies, hrecord, hfetched⟩

end PageFetcher

end Courier
