import Courier.Pagination.Items

/-! # What a listing shows of its chain of pages

A chain of pages ends because a page has no token behind it or because a fetch fails. The pages are
gone through by an iterator or by a stream, and so are their items. Each of these has an error of
its own that says it is over. A fetch that fails otherwise is shown once and last; one that fails
with just that error is taken for the end, so the ways do not agree on it.
-/

namespace Courier

variable {σ π τ ι α δ : Type}

/-! ## Drawing from a seed -/

/-- At most `n` elements, each of which a step gives together with the next seed. -/
def draw (step : δ → Option α × δ) : Nat → δ → List α × δ
  | 0, d => ([], d)
  | n + 1, d =>
    match step d with
    | (none, d) => ([], d)
    | (some x, d) =>
      let (xs, d) := draw step n d
      (x :: xs, d)

/-- A step gives the first of what is to come and leaves the rest, or says that nothing is. -/
def Emits (Ahead : List α → δ → Prop) (Over : δ → Prop) : List α → Option α × δ → Prop
  | [], (x?, d) => x? = none ∧ Over d
  | x :: xs, (x?, d) => x? = some x ∧ Ahead xs d

theorem draw_eq {step : δ → Option α × δ} {Ahead : List α → δ → Prop} {Over : δ → Prop}
    (hstep : ∀ xs d, Ahead xs d → Emits Ahead Over xs (step d)) {xs : List α} {d : δ} {n : Nat}
    (h : Ahead xs d) (hn : xs.length < n) : ∃ d', draw step n d = (xs, d') ∧ Over d' := by
  induction xs generalizing d n with
  | nil =>
    obtain ⟨n, rfl⟩ := Nat.exists_eq_succ_of_ne_zero (by omega : n ≠ 0)
    have hend := hstep [] d h
    rcases hs : step d with ⟨x?, d'⟩
    rw [hs] at hend
    obtain ⟨rfl, hover⟩ := hend
    exact ⟨d', by rw [draw, hs], hover⟩
  | cons x xs ih =>
    obtain ⟨n, rfl⟩ := Nat.exists_eq_succ_of_ne_zero (by omega : n ≠ 0)
    have hmore := hstep (x :: xs) d h
    rcases hs : step d with ⟨x?, d'⟩
    rw [hs] at hmore
    obtain ⟨rfl, hrest⟩ := hmore
    obtain ⟨d'', hd, hover⟩ := ih hrest (Nat.lt_of_succ_lt_succ hn)
    exact ⟨d'', by rw [draw, hs]; dsimp only; rw [hd], hover⟩

/-! ## Chains -/

/-- The pages behind a page, and the error that ends them if a fetch fails. -/
inductive PageFetcher.Chain (f : PageFetcher σ π τ) :
    π → σ → List π → Option Error → σ → Prop

  | last {page : π} {s : σ} (ht : f.next? page = none) : Chain f page s [] none s

  | failed {page : π} {token : τ} {e : Error} {s s' : σ} (ht : f.next? page = some token)
      (hf : f.fetch token s = (.error e, s')) : Chain f page s [] (some e) s'

  | more {page next : π} {token : τ} {pages : List π} {e? : Option Error} {s s' s'' : σ}
      (ht : f.next? page = some token) (hf : f.fetch token s = (.ok next, s'))
      (hc : Chain f next s' pages e? s'') : Chain f page s (next :: pages) e? s''

/-- How an iteration closes: the error is shown unless it is the one that marks the end. -/
def closing (marker : Error) : Option Error → List (Except Error α)
  | none => []
  | some e => if e = marker then [] else [.error e]

/-- An error may come as one element more, and the step after it says that nothing is left. -/
theorem length_closed (xs : List α) (marker : Error) (e? : Option Error) {n : Nat}
    (hn : xs.length + 1 < n) :
    (xs.map .ok ++ closing marker e? : List (Except Error α)).length < n := by
  have hclosing : (closing marker e? : List (Except Error α)).length ≤ 1 := by
    cases e? with
    | none => exact Nat.zero_le 1
    | some e =>
      simp only [closing]
      split <;> simp
  rw [List.length_append, List.length_map]
  omega

namespace PageIterator

variable {f : PageFetcher σ π τ} {p p' : PageIterator π τ} {s s' : σ} {e : Error} {page : π}
  {pages : List π} {e? : Option Error} {token : τ} {fetched : Nat}

theorem nextPage_over (hp : p.hasNext = false) : p.nextPage f s = (.error .endOfPages, p, s) := by
  obtain ⟨_ | first, _ | token, fetched⟩ := p
  · rfl
  · cases hp
  · cases hp
  · cases hp

theorem nextPage_fetched (hf : f.fetch token s = (.ok page, s')) :
    nextPage f ⟨none, some token, fetched⟩ s =
      (.ok page, ⟨none, f.next? page, fetched + 1⟩, s') := by
  simp only [nextPage, hf]

theorem nextPage_failed (hf : f.fetch token s = (.error e, s')) :
    nextPage f ⟨none, some token, fetched⟩ s = (.error e, ⟨none, none, fetched + 1⟩, s') := by
  simp only [nextPage, hf]

/-- What an iterator has before it. A failed fetch leaves nothing behind. -/
inductive Runs (f : PageFetcher σ π τ) :
    PageIterator π τ → σ → List π → Option Error → σ → Prop

  | ended {p : PageIterator π τ} {s : σ} (hp : p.hasNext = false) : Runs f p s [] none s

  | failed {p p' : PageIterator π τ} {e : Error} {s s' : σ} (hp : p.hasNext = true)
      (hn : p.nextPage f s = (.error e, p', s')) (hp' : p'.hasNext = false) :
      Runs f p s [] (some e) s'

  | page {p p' : PageIterator π τ} {page : π} {pages : List π} {e? : Option Error} {s s' s'' : σ}
      (hp : p.hasNext = true) (hn : p.nextPage f s = (.ok page, p', s'))
      (hr : Runs f p' s' pages e? s'') : Runs f p s (page :: pages) e? s''

theorem runs_behind (h : f.Chain page s pages e? s') (fetched : Nat) :
    Runs f ⟨none, f.next? page, fetched⟩ s pages e? s' := by
  induction h generalizing fetched with
  | last ht =>
    rw [ht]
    exact .ended rfl
  | failed ht hf =>
    rw [ht]
    exact .failed rfl (nextPage_failed hf) rfl
  | more ht hf _ ih =>
    rw [ht]
    exact .page rfl (nextPage_fetched hf) (ih (fetched + 1))

theorem runs_start (h : f.Chain page s pages e? s') :
    Runs f (.start page) s (page :: pages) e? s' :=
  .page rfl rfl (runs_behind h 0)

/-! ## Pages -/

theorem next_of_page (hn : p.nextPage f s = (.ok page, p', s')) :
    p.next f s = (some (.ok page), p', s') := by
  rw [next, hn]

theorem next_of_error (hn : p.nextPage f s = (.error e, p', s')) :
    p.next f s = ((closing .endOfPages (some e)).head?, p', s') := by
  rw [next, hn]
  cases e <;> rfl

/-- The stream that an iterator is turned into grows by the next page of it, and ends with the error
that marks the end. -/
def grow (f : PageFetcher σ π τ) (d : PageIterator π τ × σ) :
    Option (Except Error π) × PageIterator π τ × σ :=
  match d.1.nextPage f d.2 with
  | (.error .endOfPages, d) => (none, d)
  | (item, d) => (some item, d)

theorem grow_eq_next (f : PageFetcher σ π τ) (d : PageIterator π τ × σ) :
    grow f d = d.1.next f d.2 := by
  unfold grow next
  rcases d.1.nextPage f d.2 with ⟨e | page, p, s⟩
  · cases e <;> rfl
  · rfl

theorem take_eq_draw (n : Nat) (p : PageIterator π τ) (s : σ) :
    p.take f n s = draw (fun d => d.1.next f d.2) n (p, s) := by
  induction n generalizing p s with
  | zero => rfl
  | succ n ih =>
    unfold take draw
    dsimp only
    rcases p.next f s with ⟨_ | r, p', s'⟩
    · rfl
    · dsimp only
      rw [ih]

/-- The elements that are yet to come of an iterator, and the state that fetching them ends in. -/
def Ahead (f : PageFetcher σ π τ) (s' : σ) (xs : List (Except Error π))
    (d : PageIterator π τ × σ) : Prop :=
  ∃ pages e?, Runs f d.1 d.2 pages e? s' ∧ xs = pages.map .ok ++ closing .endOfPages e?

theorem emits (xs : List (Except Error π)) (d : PageIterator π τ × σ) (h : Ahead f s' xs d) :
    Emits (Ahead f s') (·.2 = s') xs (d.1.next f d.2) := by
  obtain ⟨p, s⟩ := d
  obtain ⟨pages, e?, hr, rfl⟩ := h
  dsimp only at hr ⊢
  cases hr with
  | ended hp =>
    rw [next_of_error (nextPage_over hp)]
    exact ⟨rfl, rfl⟩
  | @failed _ p' e _ _ _ hn hp' =>
    rw [next_of_error hn]
    by_cases he : e = .endOfPages
    · rw [he]
      exact ⟨rfl, rfl⟩
    · simp only [closing, if_neg he]
      exact ⟨rfl, [], none, .ended hp', rfl⟩
  | page _ hn hr =>
    rw [next_of_page hn]
    exact ⟨rfl, _, _, hr, rfl⟩

theorem take_of_runs {n : Nat} (h : Runs f p s pages e? s') (hn : pages.length + 1 < n) :
    ∃ p', p.take f n s = (pages.map .ok ++ closing .endOfPages e?, p', s') := by
  have hahead : Ahead f s' (pages.map .ok ++ closing .endOfPages e?) (p, s) := ⟨_, _, h, rfl⟩
  obtain ⟨⟨p', _⟩, hd, rfl⟩ := draw_eq emits hahead (length_closed _ _ _ hn)
  exact ⟨p', (take_eq_draw n p s).trans hd⟩

end PageIterator

/-! ## Items -/

namespace ItemIterator

variable {f : PageFetcher σ π τ} {extract : π → List ι} {p p' : PageIterator π τ} {s s' : σ}
  {e : Error} {page : π} {pages : List π} {e? : Option Error} {bound b : Nat}

theorem next_over (hp : p.hasNext = false) :
    next f extract (b + 1) ⟨p, []⟩ s = (none, ⟨p, []⟩, s) := by
  simp [next, nextItem, fill, hp]

theorem next_of_page (hp : p.hasNext = true) (hn : p.nextPage f s = (.ok page, p', s')) :
    next f extract (b + 1) ⟨p, []⟩ s = next f extract b ⟨p', extract page⟩ s' := by
  simp [next, nextItem, fill, hp, hn]

theorem next_of_error (hp : p.hasNext = true) (hn : p.nextPage f s = (.error e, p', s')) :
    next f extract (b + 1) ⟨p, []⟩ s =
      ((closing .endOfItems (some e)).head?, ⟨p', []⟩, s') := by
  simp only [next, nextItem, fill, hp, hn]
  cases e <;> rfl

theorem take_eq_draw (n : Nat) (it : ItemIterator π τ ι) (s : σ) :
    it.take f extract bound n s = draw (fun d => d.1.next f extract bound d.2) n (it, s) := by
  induction n generalizing it s with
  | zero => rfl
  | succ n ih =>
    unfold take draw
    dsimp only
    rcases it.next f extract bound s with ⟨_ | r, it', s'⟩
    · rfl
    · dsimp only
      rw [ih]

/-- The items at hand come first, and then those of the pages yet to come. -/
def Ahead (f : PageFetcher σ π τ) (extract : π → List ι) (bound : Nat) (s' : σ)
    (xs : List (Except Error ι)) (d : ItemIterator π τ ι × σ) : Prop :=
  ∃ pages e?, PageIterator.Runs f d.1.pages d.2 pages e? s' ∧ pages.length < bound ∧
    xs = (d.1.buffer ++ pages.flatMap extract).map .ok ++ closing .endOfItems e?

/-- The bound goes down with each page that has no items, and the buffer is empty until one has. -/
theorem emits_of_runs (h : PageIterator.Runs f p s pages e? s') (hb : pages.length < b)
    (hbound : pages.length < bound) (buffer : List ι) :
    Emits (Ahead f extract bound s') (·.2 = s')
      ((buffer ++ pages.flatMap extract).map .ok ++ closing .endOfItems e?)
      (next f extract b ⟨p, buffer⟩ s) := by
  induction h generalizing b buffer with
  | @ended p s hp =>
    obtain ⟨b, rfl⟩ := Nat.exists_eq_succ_of_ne_zero (by omega : b ≠ 0)
    cases buffer with
    | nil =>
      rw [next_over hp]
      exact ⟨rfl, rfl⟩
    | cons item rest => exact ⟨rfl, [], none, .ended hp, hbound, rfl⟩
  | @failed p p' e s s' hp hn hp' =>
    obtain ⟨b, rfl⟩ := Nat.exists_eq_succ_of_ne_zero (by omega : b ≠ 0)
    cases buffer with
    | nil =>
      rw [next_of_error hp hn]
      by_cases he : e = .endOfItems
      · rw [he]
        exact ⟨rfl, rfl⟩
      · simp only [closing, if_neg he]
        exact ⟨rfl, [], none, .ended hp', hbound, rfl⟩
    | cons item rest => exact ⟨rfl, [], some e, .failed hp hn hp', hbound, rfl⟩
  | @page p p' page pages e? s s₁ s' hp hn hr ih =>
    obtain ⟨b, rfl⟩ := Nat.exists_eq_succ_of_ne_zero (by omega : b ≠ 0)
    cases buffer with
    | nil =>
      rw [next_of_page hp hn]
      exact ih (Nat.lt_of_succ_lt_succ hb) (Nat.lt_of_succ_lt hbound) (extract page)
    | cons item rest => exact ⟨rfl, page :: pages, e?, .page hp hn hr, hbound, rfl⟩

theorem emits (xs : List (Except Error ι)) (d : ItemIterator π τ ι × σ)
    (h : Ahead f extract bound s' xs d) :
    Emits (Ahead f extract bound s') (·.2 = s') xs (d.1.next f extract bound d.2) := by
  obtain ⟨pages, e?, hr, hbound, rfl⟩ := h
  exact emits_of_runs hr hbound hbound d.1.buffer

theorem take_of_runs {n : Nat} (h : PageIterator.Runs f p s pages e? s')
    (hn : (pages.flatMap extract).length + 1 < n) (hbound : pages.length < bound) :
    ∃ it, (start p).take f extract bound n s =
      ((pages.flatMap extract).map .ok ++ closing .endOfItems e?, it, s') := by
  have hahead : Ahead f extract bound s'
      ((pages.flatMap extract).map .ok ++ closing .endOfItems e?) (start p, s) :=
    ⟨_, _, h, hbound, rfl⟩
  obtain ⟨⟨it, _⟩, hd, rfl⟩ := draw_eq emits hahead (length_closed _ _ _ hn)
  exact ⟨it, (take_eq_draw n _ s).trans hd⟩

end ItemIterator

namespace ItemStream

variable {f : PageFetcher σ π τ} {extract : π → List ι} {p p' : PageIterator π τ} {s s' : σ}
  {e : Error} {page : π} {pages : List π} {e? : Option Error} {bound turns : Nat}

theorem next_of_page (hn : p.nextPage f s = (.ok page, p', s')) :
    next f extract (turns + 1) ⟨p, none⟩ s = next f extract turns ⟨p', some (extract page)⟩ s' := by
  simp only [next, PageIterator.next_of_page hn]

theorem next_of_error (hn : p.nextPage f s = (.error e, p', s')) :
    next f extract (turns + 1) ⟨p, none⟩ s =
      ((closing .endOfPages (some e)).head?, ⟨p', none⟩, s') := by
  simp only [next, PageIterator.next_of_error hn]
  cases e <;> rfl

theorem take_eq_draw (n : Nat) (st : ItemStream π τ ι) (s : σ) :
    st.take f extract turns n s = draw (fun d => d.1.next f extract turns d.2) n (st, s) := by
  induction n generalizing st s with
  | zero => rfl
  | succ n ih =>
    unfold take draw
    dsimp only
    rcases st.next f extract turns s with ⟨_ | r, st', s'⟩
    · rfl
    · dsimp only
      rw [ih]

/-- The rest of the page at hand comes first, and then the items of the pages yet to come. -/
def Ahead (f : PageFetcher σ π τ) (extract : π → List ι) (bound : Nat) (s' : σ)
    (xs : List (Except Error ι)) (d : ItemStream π τ ι × σ) : Prop :=
  ∃ pages e?, PageIterator.Runs f d.1.pages d.2 pages e? s' ∧ 2 * pages.length + 1 < bound ∧
    xs = (d.1.current.getD [] ++ pages.flatMap extract).map .ok ++ closing .endOfPages e?

/-- Between pages a page takes a turn to begin, and one more to end if it has no items. -/
theorem emits_between (h : PageIterator.Runs f p s pages e? s') (ht : 2 * pages.length < turns)
    (hbound : 2 * pages.length + 1 < bound) :
    Emits (Ahead f extract bound s') (·.2 = s')
      ((pages.flatMap extract).map .ok ++ closing .endOfPages e?)
      (next f extract turns ⟨p, none⟩ s) := by
  induction h generalizing turns with
  | @ended p s hp =>
    obtain ⟨turns, rfl⟩ := Nat.exists_eq_succ_of_ne_zero (by omega : turns ≠ 0)
    rw [next_of_error (PageIterator.nextPage_over hp)]
    exact ⟨rfl, rfl⟩
  | @failed p p' e s s' hp hn hp' =>
    obtain ⟨turns, rfl⟩ := Nat.exists_eq_succ_of_ne_zero (by omega : turns ≠ 0)
    rw [next_of_error hn]
    by_cases he : e = .endOfPages
    · rw [he]
      exact ⟨rfl, rfl⟩
    · simp only [closing, if_neg he]
      exact ⟨rfl, [], none, .ended hp', hbound, rfl⟩
  | @page p p' page pages e? s s₁ s' hp hn hr ih =>
    rw [List.length_cons] at ht hbound
    obtain ⟨turns, rfl⟩ := Nat.exists_eq_add_of_le (by omega : 2 ≤ turns)
    rw [Nat.add_comm 2, next_of_page hn, List.flatMap_cons]
    cases extract page with
    | nil => exact ih (by omega) (by omega)
    | cons item rest => exact ⟨rfl, pages, e?, hr, by omega, rfl⟩

theorem emits (xs : List (Except Error ι)) (d : ItemStream π τ ι × σ)
    (h : Ahead f extract bound s' xs d) :
    Emits (Ahead f extract bound s') (·.2 = s') xs (d.1.next f extract bound d.2) := by
  obtain ⟨⟨p, current⟩, s⟩ := d
  obtain ⟨pages, e?, hr, hbound, rfl⟩ := h
  dsimp only at hr ⊢
  obtain ⟨turns, rfl⟩ := Nat.exists_eq_succ_of_ne_zero (by omega : bound ≠ 0)
  match current with
  | none => exact emits_between hr (by omega) hbound
  | some [] => exact emits_between hr (by omega) hbound
  | some (item :: rest) => exact ⟨rfl, pages, e?, hr, hbound, rfl⟩

theorem take_of_runs {n : Nat} (h : PageIterator.Runs f p s pages e? s')
    (hn : (pages.flatMap extract).length + 1 < n) (hbound : 2 * pages.length + 1 < bound) :
    ∃ st, (start p).take f extract bound n s =
      ((pages.flatMap extract).map .ok ++ closing .endOfPages e?, st, s') := by
  have hahead : Ahead f extract bound s'
      ((pages.flatMap extract).map .ok ++ closing .endOfPages e?) (start p, s) :=
    ⟨_, _, h, hbound, rfl⟩
  obtain ⟨⟨st, _⟩, hd, rfl⟩ := draw_eq emits hahead (length_closed _ _ _ hn)
  exact ⟨st, (take_eq_draw n _ s).trans hd⟩

end ItemStream

/-! ## The four ways -/

namespace PageFetcher

variable {f : PageFetcher σ π τ} {page : π} {pages : List π} {e? : Option Error} {s s' : σ}

/-- Take the chain of pages from a first page on, which ends well or because a fetch fails, and go
through it with room enough. The iterator and the stream of pages show the first page and those
behind it, the iterator and the stream of items show the items of these, and all make the same
fetches. The error that a fetch failed with comes once and last, unless it is the end of the items
for the iterator of items, or the end of the pages for the other three: then it is not shown. -/
theorem chain_shown (extract : π → List ι) {n bound turns : Nat}
    (h : f.Chain page s pages e? s') (hpages : (page :: pages).length + 1 < n)
    (hitems : ((page :: pages).flatMap extract).length + 1 < n)
    (hbound : (page :: pages).length < bound) (hturns : 2 * (page :: pages).length + 1 < turns) :
    (∃ p, (PageIterator.start page).take f n s =
      ((page :: pages).map .ok ++ closing .endOfPages e?, p, s')) ∧
    (∃ p, draw (PageIterator.grow f) n (.start page, s) =
      ((page :: pages).map .ok ++ closing .endOfPages e?, p, s')) ∧
    (∃ it, (ItemIterator.start (.start page)).take f extract bound n s =
      (((page :: pages).flatMap extract).map .ok ++ closing .endOfItems e?, it, s')) ∧
    (∃ st, (ItemStream.start (.start page)).take f extract turns n s =
      (((page :: pages).flatMap extract).map .ok ++ closing .endOfPages e?, st, s')) := by
  have hr := PageIterator.runs_start h
  have htake := PageIterator.take_of_runs hr hpages
  refine ⟨htake, ?_, ItemIterator.take_of_runs hr hitems hbound,
    ItemStream.take_of_runs hr hitems hturns⟩
  obtain ⟨p, ht⟩ := htake
  rw [funext (PageIterator.grow_eq_next f), ← PageIterator.take_eq_draw]
  exact ⟨p, ht⟩

/-- A first page, one that has no items, one that has, and a fetch that fails with this error. What
has been fetched is counted. -/
def failing (e : Error) : PageFetcher Nat (List String × Option Nat) Nat where
  next? := Prod.snd
  fetch token fetches :=
    (match token with
      | 1 => .ok ([], some 2)
      | 2 => .ok (["b", "c"], some 3)
      | _ => .error e, fetches + 1)

theorem chain_shown_failing :
    (∃ p, (PageIterator.start (["a"], some 1)).take (failing .poolClosed) 9 0 =
      ([.ok (["a"], some 1), .ok ([], some 2), .ok (["b", "c"], some 3), .error .poolClosed],
        p, 3)) ∧
    (∃ st, (ItemStream.start (.start (["a"], some 1))).take (failing .poolClosed) Prod.fst 9 9 0 =
      ([.ok "a", .ok "b", .ok "c", .error .poolClosed], st, 3)) := by
  have h : (failing .poolClosed).Chain (["a"], some 1) 0 [([], some 2), (["b", "c"], some 3)]
      (some .poolClosed) 3 :=
    .more rfl rfl (.more rfl rfl (.failed rfl rfl))
  obtain ⟨hpages, -, -, hitems⟩ :=
    chain_shown Prod.fst h (show 4 < 9 by decide) (by decide) (show 3 < 9 by decide)
      (show 7 < 9 by decide)
  exact ⟨hpages, hitems⟩

/-- A fetch that fails with the end of the pages is shown by the iterator of items alone, and one
that fails with the end of the items by all but it. -/
theorem chain_shown_unequally :
    ((PageIterator.start (["a"], some 3)).take (failing .endOfPages) 9 0).1 =
        [.ok (["a"], some 3)] ∧
    ((ItemIterator.start (.start (["a"], some 3))).take (failing .endOfPages) Prod.fst 9 9 0).1 =
        [.ok "a", .error .endOfPages] ∧
    ((ItemStream.start (.start (["a"], some 3))).take (failing .endOfPages) Prod.fst 9 9 0).1 =
        [.ok "a"] ∧
    ((PageIterator.start (["a"], some 3)).take (failing .endOfItems) 9 0).1 =
        [.ok (["a"], some 3), .error .endOfItems] ∧
    ((ItemIterator.start (.start (["a"], some 3))).take (failing .endOfItems) Prod.fst 9 9 0).1 =
        [.ok "a"] ∧
    ((ItemStream.start (.start (["a"], some 3))).take (failing .endOfItems) Prod.fst 9 9 0).1 =
        [.ok "a", .error .endOfItems] :=
  ⟨rfl, rfl, rfl, rfl, rfl, rfl⟩

end PageFetcher

end Courier
