import Courier.Proofs.Pagination.Asking
import Courier.Proofs.Pagination.Listing

/-! # Items one after the other

An iterator of items is asked, in any order and however often, whether another item is left and for
the next item. What it answers hangs on the items that are yet to come and on the error that may
stand behind them, and not on how the items lie in pages. A page is looked at only when all items of
those before it have been handed out.
-/

namespace Courier

variable {σ π τ ι : Type}

/-! ## A finite chain place by place -/

namespace PageFetcher

variable {f : PageFetcher σ π τ} {page next : π} {s s' : σ} {token : τ} {pages : List π}
  {e? : Option Error}

theorem link_behind (ht : f.next? page = some token) (hf : f.fetch token s = (.ok next, s'))
    (i : Nat) : f.link page s (i + 1) = f.link next s' i := by
  induction i with
  | zero => simp [link, ht, hf]
  | succ i ih =>
    rw [link, ih, link]

/-- The pages, and the error that a fetch failed with if one did. -/
def places (page : π) (pages : List π) (e? : Option Error) : List (Except Error π) :=
  (page :: pages).map .ok ++ (e?.map .error).toList

theorem Chain.link_eq (h : f.Chain page s pages e? s') (i : Nat) :
    (f.link page s i).map Prod.fst = (places page pages e?)[i]? := by
  induction h generalizing i with
  | @last page s ht =>
    cases i with
    | zero => rfl
    | succ i =>
      have hend : f.EndsAt page s 0 := .last rfl ht
      rw [link_of_le hend.link_none (Nat.le_add_left 1 i)]
      rfl
  | @failed page token e s s' ht hf =>
    match i with
    | 0 => rfl
    | 1 => simp [link, ht, hf, places]
    | i + 2 =>
      have hl : f.link page s 1 = some (.error e, s') := by simp [link, ht, hf]
      rw [link_of_le (EndsAt.failed hl).link_none (Nat.le_add_left 2 i)]
      rfl
  | more ht hf _ ih =>
    cases i with
    | zero => rfl
    | succ i =>
      rw [link_behind ht hf, ih]
      rfl

def itemsOf (extract : π → List ι) (places : List (Except Error π)) : List ι :=
  places.flatMap fun
    | .ok page => extract page
    | .error _ => []

def errorOf (places : List (Except Error π)) : Option Error :=
  places.findSome? fun
    | .ok _ => none
    | .error e => some e

variable (extract : π → List ι)

@[simp] theorem itemsOf_append (front behind : List (Except Error π)) :
    itemsOf extract (front ++ behind) = itemsOf extract front ++ itemsOf extract behind :=
  List.flatMap_append

@[simp] theorem itemsOf_ok (pages : List π) :
    itemsOf extract (pages.map .ok) = pages.flatMap extract :=
  List.flatMap_map ..

theorem itemsOf_places (page : π) (pages : List π) (e? : Option Error) :
    itemsOf extract (places page pages e?) = (page :: pages).flatMap extract := by
  unfold places
  rw [itemsOf_append, itemsOf_ok]
  cases e? with
  | none => exact List.append_nil _
  | some e => exact List.append_nil _

/-- The error has no items, so the first so many places have those of the first so many pages. -/
theorem itemsOf_take_places (page : π) (pages : List π) (e? : Option Error) (n : Nat) :
    itemsOf extract ((places page pages e?).take n) =
      ((page :: pages).take n).flatMap extract := by
  have hnone (m : Nat) : itemsOf extract ((e?.map Except.error).toList.take m) = [] := by
    cases e? <;> cases m <;> simp [itemsOf]
  unfold places
  rw [List.take_append, itemsOf_append, hnone, List.append_nil, ← List.map_take, itemsOf_ok]

theorem countP_places (page : π) (pages : List π) (e? : Option Error) :
    (places page pages e?).countP Except.isOk = (page :: pages).length := by
  unfold places
  rw [List.countP_append, List.countP_map, List.countP_eq_length.mpr]
  · cases e? <;> rfl
  · intro page _
    rfl

theorem errorOf_places (page : π) (pages : List π) (e? : Option Error) :
    errorOf (places page pages e?) = e? := by
  unfold places errorOf
  rw [List.findSome?_append, List.findSome?_map, List.findSome?_eq_none_iff.mpr]
  · cases e? <;> rfl
  · intro page _
    rfl

theorem length_tokens {k : Nat} (h : (f.link page s k).isSome = true) :
    (f.tokens page s (k + 1)).length = k := by
  induction k with
  | zero => rfl
  | succ k ih =>
    have hfront : (f.link page s k).isSome = true := by
      cases hl : f.link page s k with
      | some _ => rfl
      | none =>
        rw [link_of_le hl (Nat.le_succ k)] at h
        cases h
    rw [isSome_link] at h
    obtain ⟨token, ht⟩ := Option.isSome_iff_exists.mp h
    rw [tokens_succ, List.length_append, ih hfront, ht]
    rfl

end PageFetcher

/-! ## Calls -/

namespace ItemIterator

inductive Call
  | hasNext
  | nextItem
  deriving DecidableEq, Repr

inductive Reply (ι : Type)
  | has (result : Except Error Bool)
  | item (result : Except Error ι)

def reply (f : PageFetcher σ π τ) (extract : π → List ι) (bound : Nat) (it : ItemIterator π τ ι)
    (s : σ) : Call → Option (Reply ι) × ItemIterator π τ ι × σ
  | .hasNext =>
    let (found, it, s) := it.hasNext f extract bound s
    (found.map .has, it, s)
  | .nextItem =>
    let (found, it, s) := it.nextItem f extract bound s
    (found.map .item, it, s)

def run (f : PageFetcher σ π τ) (extract : π → List ι) (bound : Nat) :
    List Call → ItemIterator π τ ι → σ → List (Option (Reply ι)) × ItemIterator π τ ι × σ
  | [], it, s => ([], it, s)
  | call :: calls, it, s =>
    let (answer, it, s) := it.reply f extract bound s call
    let (answers, it, s) := run f extract bound calls it s
    (answer :: answers, it, s)

namespace Reply

def items : Reply ι → List ι
  | .item (.ok x) => [x]
  | _ => []

def ends : Reply ι → Bool
  | .has (.ok more) => !more
  | .item (.ok _) => false
  | _ => true

end Reply

def handed (answers : List (Reply ι)) : List ι :=
  answers.flatMap Reply.items

/-- What there is to say to a call when nothing is left. -/
def Call.atEnd : Call → Reply ι
  | .hasNext => .has (.ok false)
  | .nextItem => .item (.error .endOfItems)

/-! ## What is yet to come -/

/-- The items that are yet to come, and the error that stands behind them if a fetch fails. -/
structure Rest (ι : Type) where
  items : List ι
  error? : Option Error

namespace Rest

/-- An error is shown once, and then nothing is left. -/
def look : Rest ι → Except Error Bool × Rest ι
  | ⟨item :: items, e?⟩ => (.ok true, ⟨item :: items, e?⟩)
  | ⟨[], some e⟩ => (.error e, ⟨[], none⟩)
  | ⟨[], none⟩ => (.ok false, ⟨[], none⟩)

def reply : Rest ι → Call → Reply ι × Rest ι
  | ⟨item :: items, e?⟩, .nextItem => (.item (.ok item), ⟨items, e?⟩)
  | ⟨[], some e⟩, .nextItem => (.item (.error e), ⟨[], none⟩)
  | ⟨[], none⟩, .nextItem => (.item (.error .endOfItems), ⟨[], none⟩)
  | r, .hasNext => (.has r.look.1, r.look.2)

/-- What these calls are told, one after the other, and what is left then. -/
def run : List Call → Rest ι → List (Reply ι) × Rest ι
  | [], r => ([], r)
  | call :: calls, r =>
    let (answer, r) := r.reply call
    let (answers, r) := run calls r
    (answer :: answers, r)

theorem reply_items (r : Rest ι) (call : Call) :
    (r.reply call).1.items = r.items.take ([call].count .nextItem) ∧
      (r.reply call).2.items = r.items.drop ([call].count .nextItem) := by
  obtain ⟨_ | ⟨item, items⟩, _ | e⟩ := r <;> cases call <;> exact ⟨rfl, rfl⟩

theorem run_items (calls : List Call) (r : Rest ι) :
    handed (r.run calls).1 = r.items.take (calls.count .nextItem) ∧
      (r.run calls).2.items = r.items.drop (calls.count .nextItem) := by
  induction calls generalizing r with
  | nil => exact ⟨rfl, rfl⟩
  | cons call calls ih =>
    obtain ⟨hanswer, hrest⟩ := r.reply_items call
    obtain ⟨hhanded, hleft⟩ := ih (r.reply call).2
    have hcount : (call :: calls).count .nextItem =
        [call].count .nextItem + calls.count .nextItem := by
      rw [← List.count_append, List.singleton_append]
    rw [hcount]
    constructor
    · rw [List.take_add, ← hanswer, ← hrest, ← hhanded]
      rfl
    · rw [← List.drop_drop, ← hrest]
      exact hleft

/-- Only where no item is left is there an answer that says so, and then no error is left either. -/
theorem reply_ends {r : Rest ι} {call : Call} (h : (r.reply call).1.ends = true) :
    r.items = [] ∧ (r.reply call).2 = ⟨[], none⟩ := by
  obtain ⟨_ | ⟨item, items⟩, _ | e⟩ := r <;> cases call <;> first | exact ⟨rfl, rfl⟩ | cases h

end Rest

/-! ## The iterator keeps up with what it is asked -/

open PageFetcher

section

variable {f : PageFetcher σ π τ} {extract : π → List ι} {p p' : PageIterator π τ} {s s' : σ}
  {page : π} {e : Error} {b : Nat}

theorem fill_over (hp : p.hasNext = false) :
    fill f extract (b + 1) ⟨p, []⟩ s = (some (.ok false), ⟨p, []⟩, s) := by
  simp [fill, hp]

theorem fill_of_error (hp : p.hasNext = true) (hn : p.nextPage f s = (.error e, p', s')) :
    fill f extract (b + 1) ⟨p, []⟩ s = (some (.error e), ⟨p', []⟩, s') := by
  simp [fill, hp, hn]

theorem fill_of_page (hp : p.hasNext = true) (hn : p.nextPage f s = (.ok page, p', s')) :
    fill f extract (b + 1) ⟨p, []⟩ s = fill f extract b ⟨p', extract page⟩ s' := by
  simp [fill, hp, hn]

end

section

variable {f : PageFetcher σ π τ} {extract : π → List ι} {first : π} {s : σ}
  {looked ahead : List (Except Error π)} {out : List ι} {it : ItemIterator π τ ι}
  {d : σ × List τ} {bound : Nat} {pages : List π} {e? : Option Error} {s' : σ}

/-- These places have been looked at and those are ahead, and these items have been handed out. What
has not is in the buffer. For the last place to be looked at, all before it had to be handed out. -/
structure Stands (f : PageFetcher σ π τ) (extract : π → List ι) (first : π) (s : σ)
    (looked ahead : List (Except Error π)) (out : List ι) (it : ItemIterator π τ ι)
    (d : σ × List τ) : Prop where
  chain : ∀ i, (f.link first s i).map Prod.fst = (looked ++ ahead)[i]?
  pages : it.pages.StandsAt f first s looked.length d
  buffer : out ++ it.buffer = itemsOf extract looked
  needed : itemsOf extract looked.dropLast <+: out

def rest (extract : π → List ι) (ahead : List (Except Error π)) (it : ItemIterator π τ ι) :
    Rest ι :=
  ⟨it.buffer ++ itemsOf extract ahead, errorOf ahead⟩

theorem Stands.hasNext (h : Stands f extract first s looked ahead out it d) :
    it.pages.hasNext = !ahead.isEmpty := by
  have hlink := congrArg Option.isSome (h.chain looked.length)
  rw [Option.isSome_map, List.getElem?_append_right (Nat.le_refl _), Nat.sub_self] at hlink
  rw [h.pages.hasNext, hlink]
  cases ahead <;> rfl

theorem Stands.nextPage {x : Except Error π} (h : Stands f extract first s looked (x :: ahead) out
    it d) (hbuffer : it.buffer = []) :
    (it.pages.nextPage f.recorded d).1 = x ∧
      Stands f extract first s (looked ++ [x]) ahead out
        ⟨(it.pages.nextPage f.recorded d).2.1, itemsOf extract [x]⟩
        (it.pages.nextPage f.recorded d).2.2 := by
  obtain ⟨hresult, hplace⟩ := h.pages.nextPage
  have hout : out = itemsOf extract looked := by
    rw [← h.buffer, hbuffer, List.append_nil]
  refine ⟨?_, ?_, ?_, ?_, ?_⟩
  · rw [hresult, pageAt, h.chain, List.getElem?_append_right (Nat.le_refl _), Nat.sub_self]
    rfl
  · rw [List.append_assoc]
    exact h.chain
  · rw [List.length_append]
    exact hplace
  · rw [itemsOf_append, hout]
  · rw [List.dropLast_concat]
    exact hout ▸ List.prefix_rfl

theorem Stands.nil_of_error {e : Error}
    (h : Stands f extract first s looked (.error e :: ahead) out it d) : ahead = [] := by
  have herror := h.chain looked.length
  rw [List.getElem?_append_right (Nat.le_refl _), Nat.sub_self] at herror
  obtain ⟨⟨_, s'⟩, hl, rfl⟩ := Option.map_eq_some_iff.mp herror
  have hbehind := h.chain (looked.length + 1)
  rw [(EndsAt.failed hl).link_none, List.getElem?_append_right (Nat.le_add_right _ 1),
    Nat.add_sub_cancel_left] at hbehind
  exact List.eq_nil_of_length_eq_zero (by simpa using hbehind)

/-- How a look for items ends: some are at hand, or nothing is ahead any more. -/
inductive Fills (f : PageFetcher σ π τ) (extract : π → List ι) (first : π) (s : σ)
    (places : List (Except Error π)) (out : List ι) :
    Rest ι → Option (Except Error Bool) × ItemIterator π τ ι × (σ × List τ) → Prop

  | found {looked ahead : List (Except Error π)} {it : ItemIterator π τ ι} {d : σ × List τ}
      {item : ι} {items : List ι} (h : Stands f extract first s looked ahead out it d)
      (hplaces : looked ++ ahead = places) (hbuffer : it.buffer = item :: items) :
      Fills f extract first s places out (rest extract ahead it) (some (.ok true), it, d)

  | exhausted {it : ItemIterator π τ ι} {d : σ × List τ} {e? : Option Error}
      (h : Stands f extract first s places [] out it d) (hbuffer : it.buffer = []) :
      Fills f extract first s places out ⟨[], e?⟩ (some (⟨[], e?⟩ : Rest ι).look.1, it, d)

/-- To look for items is to go on to a page that has some, or to the end of the chain. -/
theorem Stands.fill (h : Stands f extract first s looked ahead out it d)
    (hb : ahead.countP Except.isOk < bound) :
    Fills f extract first s (looked ++ ahead) out (rest extract ahead it)
      (it.fill f.recorded extract bound d) := by
  induction ahead generalizing looked it d bound with
  | nil =>
    obtain ⟨b, rfl⟩ := Nat.exists_eq_succ_of_ne_zero (Nat.ne_zero_of_lt hb)
    have hnext := h.hasNext
    obtain ⟨p, _ | ⟨item, items⟩⟩ := it
    · rw [fill_over hnext, List.append_nil]
      exact .exhausted h rfl
    · exact .found h rfl rfl
  | cons x ahead ih =>
    obtain ⟨b, rfl⟩ := Nat.exists_eq_succ_of_ne_zero (Nat.ne_zero_of_lt hb)
    have hnext := h.hasNext
    obtain ⟨p, _ | ⟨item, items⟩⟩ := it
    · obtain ⟨hx, hstands⟩ := h.nextPage rfl
      dsimp only at hnext hx hstands
      cases hpage : p.nextPage f.recorded d with
      | mk result after =>
        obtain ⟨p', d'⟩ := after
        rw [hpage] at hx hstands
        dsimp only at hx hstands
        subst hx
        cases result with
        | error e =>
          have hahead := h.nil_of_error
          subst hahead
          rw [fill_of_error hnext hpage]
          exact .exhausted hstands rfl
        | ok page =>
          have hitems : itemsOf extract [.ok page] = extract page := List.append_nil _
          rw [hitems] at hstands
          rw [List.countP_cons_of_pos rfl] at hb
          rw [fill_of_page hnext hpage, List.append_cons]
          exact ih hstands (Nat.lt_of_succ_lt_succ hb)
    · exact .found h rfl rfl

/-- How things stand once a call has been answered. -/
structure Answers (f : PageFetcher σ π τ) (extract : π → List ι) (first : π) (s : σ)
    (looked ahead : List (Except Error π)) (out : List ι) (answer : Reply ι) (after : Rest ι)
    (it : ItemIterator π τ ι) (d : σ × List τ) : Prop where
  stands : Stands f extract first s looked ahead (out ++ answer.items) it d
  needed : itemsOf extract looked.dropLast <+: out
  rest : rest extract ahead it = after
  exhausted : answer.ends = true → ahead = [] ∧ it.buffer = []

theorem Stands.reply (h : Stands f extract first s looked ahead out it d)
    (hb : ahead.countP Except.isOk < bound) (call : Call) :
    ∃ looked' ahead' it' d',
      it.reply f.recorded extract bound d call =
        (some ((rest extract ahead it).reply call).1, it', d') ∧
      Answers f extract first s looked' ahead' out ((rest extract ahead it).reply call).1
        ((rest extract ahead it).reply call).2 it' d' ∧
      looked' ++ ahead' = looked ++ ahead := by
  have hfill := h.fill hb
  unfold ItemIterator.reply ItemIterator.hasNext ItemIterator.nextItem
  generalize rest extract ahead it = r at hfill ⊢
  generalize it.fill f.recorded extract bound d = filled at hfill ⊢
  cases hfill with
  | @found looked' ahead' it' d' item items h' hplaces hbuffer =>
    obtain ⟨p', buffer⟩ := it'
    subst hbuffer
    cases call with
    | hasNext =>
      refine ⟨looked', ahead', _, d', rfl, ⟨?_, h'.needed, rfl, ?_⟩, hplaces⟩
      · exact (List.append_nil out).symm ▸ h'
      · rintro ⟨⟩
    | nextItem =>
      refine ⟨looked', ahead', _, d', rfl, ⟨⟨h'.chain, h'.pages, ?_, ?_⟩, h'.needed, rfl, ?_⟩,
        hplaces⟩
      · rw [← h'.buffer]
        exact List.append_assoc out [item] items
      · exact h'.needed.trans (List.prefix_append _ _)
      · rintro ⟨⟩
  | @exhausted it' d' e? h' hbuffer =>
    obtain ⟨p', buffer⟩ := it'
    subst hbuffer
    cases call <;> cases e? <;>
      exact ⟨looked ++ ahead, [], _, d', rfl,
        ⟨(List.append_nil out).symm ▸ h', h'.needed, rfl, fun _ => ⟨rfl, rfl⟩⟩,
        List.append_nil _⟩

theorem Stands.run (h : Stands f extract first s looked ahead out it d)
    (hb : (looked ++ ahead).countP Except.isOk < bound) (calls : List Call) :
    ∃ looked' ahead' it' d',
      it.run f.recorded extract bound calls d =
        (((rest extract ahead it).run calls).1.map some, it', d') ∧
      Stands f extract first s looked' ahead' (out ++ handed ((rest extract ahead it).run calls).1)
        it' d' ∧
      looked' ++ ahead' = looked ++ ahead ∧
      rest extract ahead' it' = ((rest extract ahead it).run calls).2 := by
  induction calls generalizing looked ahead out it d with
  | nil => exact ⟨looked, ahead, it, d, rfl, (List.append_nil out).symm ▸ h, rfl, rfl⟩
  | cons call calls ih =>
    have hahead : ahead.countP Except.isOk < bound := by
      rw [List.countP_append] at hb
      exact Nat.lt_of_le_of_lt (Nat.le_add_left _ _) hb
    obtain ⟨looked₁, ahead₁, it₁, d₁, hreply, hanswer, hplaces₁⟩ := h.reply hahead call
    obtain ⟨looked₂, ahead₂, it₂, d₂, hrun, hstands, hplaces₂, hrest⟩ :=
      ih hanswer.stands (hplaces₁.symm ▸ hb)
    rw [hanswer.rest] at hrun hstands hrest
    refine ⟨looked₂, ahead₂, it₂, d₂, ?_, ?_, hplaces₂.trans hplaces₁, hrest⟩
    · simp only [ItemIterator.run, hreply, hrun]
      rfl
    · rw [List.append_assoc] at hstands
      exact hstands

theorem stands_start (h : f.Chain first s pages e? s') :
    Stands f extract first s [] (places first pages e?) [] (.start (.start first)) (s, []) where
  chain := h.link_eq
  pages := PageIterator.standsAt_start f first s
  buffer := rfl
  needed := List.prefix_rfl

theorem Stands.length_record (h : Stands f extract first s looked ahead out it d) :
    d.2.length = looked.length - 1 := by
  rw [h.pages.record]
  cases hl : looked.length with
  | zero => rfl
  | succ k =>
    refine length_tokens ?_
    have hlink := congrArg Option.isSome (h.chain k)
    rw [Option.isSome_map, List.getElem?_append_left (by omega),
      List.getElem?_eq_getElem (by omega)] at hlink
    exact hlink

theorem Stands.record (h : Stands f extract first s looked ahead out it d) :
    d.2 = f.tokens first s (d.2.length + 1) := by
  rw [h.length_record]
  cases hl : looked.length with
  | zero =>
    rw [h.pages.record, hl]
    rfl
  | succ k =>
    rw [h.pages.record, hl]
    rfl

/-- What has been fetched was needed: the items of all places before it have been handed out. -/
theorem Stands.handed_before (h : Stands f extract first s looked ahead out it d)
    {all : List ι} (hneeded : itemsOf extract looked.dropLast <+: all) {i : Nat}
    (hi : i < d.2.length) : itemsOf extract ((looked ++ ahead).take (i + 1)) <+: all := by
  rw [h.length_record] at hi
  refine List.IsPrefix.trans ?_ hneeded
  rw [List.take_append_of_le_length (by omega), List.dropLast_eq_take]
  have hle : i + 1 ≤ looked.length - 1 := by omega
  obtain ⟨behind, hb⟩ := List.take_prefix_take_left (l := looked) hle
  rw [← hb, itemsOf_append]
  exact List.prefix_append _ _

end

theorem run_over {f : PageFetcher σ π τ} {extract : π → List ι} {bound : Nat}
    {it : ItemIterator π τ ι} (hbound : bound ≠ 0) (hbuffer : it.buffer = [])
    (hp : it.pages.hasNext = false) (calls : List Call) (s : σ) :
    it.run f extract bound calls s = (calls.map fun call => some call.atEnd, it, s) := by
  obtain ⟨b, rfl⟩ := Nat.exists_eq_succ_of_ne_zero hbound
  obtain ⟨p, buffer⟩ := it
  subst hbuffer
  induction calls with
  | nil => rfl
  | cons call calls ih =>
    have hreply : (⟨p, []⟩ : ItemIterator π τ ι).reply f extract (b + 1) s call =
        (some call.atEnd, ⟨p, []⟩, s) := by
      cases call <;> simp [reply, hasNext, nextItem, fill_over hp, Call.atEnd]
    simp only [run, hreply, ih, List.map_cons]

/-- Take a chain of pages that ends, and ask an iterator of its items anything, in any order. The
answers are those of the items of all pages, in order, and of the error that a fetch failed with, if
one did: each item is handed out once and in its turn, and the error is shown once, behind them all.
What has been fetched are the tokens of the chain up to a place, each once and in order. Whatever
the next call is, a page that it fetches is one before which all items have been handed out. Once a
call is told that nothing is left or that a fetch has failed, all items have been handed out, and
whatever is asked then is answered with the end, without a fetch. -/
theorem items_flattened {f : PageFetcher σ π τ} (extract : π → List ι) {first : π} {s s' : σ}
    {pages : List π} {e? : Option Error} {bound : Nat} (h : f.Chain first s pages e? s')
    (hbound : (first :: pages).length < bound) (calls : List Call) :
    let items := (first :: pages).flatMap extract
    let answers := (Rest.run calls ⟨items, e?⟩).1
    ∃ it d, (start (.start first)).run f.recorded extract bound calls (s, []) =
        (answers.map some, it, d) ∧
      handed answers = items.take (calls.count .nextItem) ∧
      d.2 = f.tokens first s (d.2.length + 1) ∧ it.pages.fetched = d.2.length ∧
      ∀ call, ∃ answer it' d', it.reply f.recorded extract bound d call = (some answer, it', d') ∧
        (∀ i, d.2.length ≤ i → i < d'.2.length →
          ((first :: pages).take (i + 1)).flatMap extract <+: handed answers) ∧
        (answer.ends = true → handed answers = items ∧ ∀ more,
          it'.run f.recorded extract bound more d' =
            (more.map fun call => some call.atEnd, it', d')) := by
  intro items answers
  have hpages : (places first pages e?).countP Except.isOk < bound := by
    rwa [countP_places]
  have hrest : rest extract (places first pages e?) (start (.start first) : ItemIterator π τ ι) =
      ⟨items, e?⟩ := by
    unfold rest
    rw [itemsOf_places, errorOf_places]
    rfl
  have hstart : Stands f extract first s [] (places first pages e?) [] (.start (.start first))
      (s, []) := stands_start h
  obtain ⟨looked, ahead, it, d, hrun, hstands, hplaces, hleft⟩ := hstart.run hpages calls
  rw [hrest] at hrun hstands hleft
  rw [List.nil_append] at hplaces
  obtain ⟨hhanded, hitems⟩ := Rest.run_items calls ⟨items, e?⟩
  refine ⟨it, d, hrun, hhanded, ?_, hstands.pages.fetched, ?_⟩
  · exact hstands.record
  · intro call
    have hahead : ahead.countP Except.isOk < bound := by
      rw [← hplaces, List.countP_append] at hpages
      exact Nat.lt_of_le_of_lt (Nat.le_add_left _ _) hpages
    obtain ⟨looked', ahead', it', d', hreply, hanswer, hplaces'⟩ := hstands.reply hahead call
    refine ⟨_, it', d', hreply, ?_, ?_⟩
    · intro i _ hi
      rw [← itemsOf_take_places extract first pages e?, ← hplaces, ← hplaces']
      exact hanswer.stands.handed_before hanswer.needed hi
    · intro hends
      obtain ⟨hnone, hbuffer⟩ := hanswer.exhausted hends
      rw [hleft] at hends
      have hall := (Rest.reply_ends hends).1
      rw [hitems] at hall
      refine ⟨hhanded.trans (List.take_of_length_le (List.drop_eq_nil_iff.mp hall)), ?_⟩
      intro more
      refine run_over (Nat.ne_zero_of_lt hbound) hbuffer ?_ more d'
      rw [hanswer.stands.hasNext, hnone]
      rfl

/-- A page without items stands between two that have some, and a fetch that fails behind them. -/
theorem items_flattened_failing :
    ∃ it d, (start (.start (["a"], some 1))).run (failing .poolClosed).recorded Prod.fst 9
        [.hasNext, .nextItem, .hasNext, .nextItem, .nextItem, .hasNext, .nextItem, .hasNext]
        (0, []) =
      ([.has (.ok true), .item (.ok "a"), .has (.ok true), .item (.ok "b"), .item (.ok "c"),
        .has (.error .poolClosed), .item (.error .endOfItems), .has (.ok false)].map some, it, d) ∧
      d.2 = [1, 2, 3] ∧ it.pages.fetched = 3 := by
  have h : (failing .poolClosed).Chain (["a"], some 1) 0 [([], some 2), (["b", "c"], some 3)]
      (some .poolClosed) 3 :=
    .more rfl rfl (.more rfl rfl (.failed rfl rfl))
  obtain ⟨it, d, hrun, -, -, hfetched, -⟩ := items_flattened Prod.fst h (show 3 < 9 by decide)
    [.hasNext, .nextItem, .hasNext, .nextItem, .nextItem, .hasNext, .nextItem, .hasNext]
  have hd : d.2 = [1, 2, 3] := congrArg (·.2.2.2) hrun.symm
  refine ⟨it, d, hrun, hd, ?_⟩
  rw [hfetched, hd]
  rfl

/-- The last item has been handed out, and still a page is fetched to see that it has none. -/
theorem fetched_behind_last_item :
    let f : PageFetcher Nat (List String × Option Nat) Nat := {
      next? := Prod.snd
      fetch := fun _ fetches => (.ok ([], none), fetches + 1) }
    let pages := [(["a"], some 1), ([], none)]
    let (answers, it, d) := (start (.start (["a"], some 1))).run f.recorded Prod.fst 3 [.nextItem]
      (0, [])
    let (answer, _, d') := it.reply f.recorded Prod.fst 3 d .hasNext
    f.Chain (["a"], some 1) 0 [([], none)] none 1 ∧ pages.flatMap Prod.fst = ["a"] ∧
      answers = [some (.item (.ok "a"))] ∧ d.2 = [] ∧
      answer = some (.has (.ok false)) ∧ d'.2 = [1] :=
  ⟨.more rfl rfl (.last rfl), rfl, rfl, rfl, rfl, rfl⟩

end ItemIterator

end Courier
