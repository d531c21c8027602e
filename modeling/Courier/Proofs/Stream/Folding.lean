import Courier.Proofs.Stream.Looks
import Courier.Stream.ByteStream
import Courier.Stream.Rules

/-! # Collecting from memory

To collect a stream whose chunks are in memory is to fold its filters over the chunks, one filter
and one chunk after the other: each pull grants what it needs, each chunk withheld is replaced by
the next, and nothing is ever waited for.
What carries the argument is that the chunks still to come are those in the queue and in memory,
that the memory is drained as far as demand goes, and that the end stands as soon as it is empty.
-/

namespace Courier

/-! ## The fold -/

/-- A chunk on its way through a stack: what it has become, and the filters it is past. -/
structure Passage where
  result : Except Error (Option Bytes)
  passed : List Filter

/-- The next filter is given what came through those before it, if anything did. -/
def Passage.meet (p : Passage) (f : Filter) : Passage :=
  match p.result with
  | .ok (some chunk) => ⟨(f.push chunk).1, p.passed ++ [(f.push chunk).2]⟩
  | .ok none => ⟨.ok none, p.passed ++ [f]⟩
  | .error e => ⟨.error e, p.passed ++ [f]⟩

/-- The end of a stream on its way through a stack. -/
structure Completion where
  result : Except Error Unit
  passed : List Filter
  cells : Cells

/-- The next filter is completed if those before it could be. -/
def Completion.meet (c : Completion) (f : Filter) : Completion :=
  match c.result with
  | .ok () =>
    ⟨(f.complete c.cells).1, c.passed ++ [(f.complete c.cells).2.1], (f.complete c.cells).2.2⟩
  | .error e => ⟨.error e, c.passed ++ [f], c.cells⟩

/-- What a stack of filters has made of the chunks of a stream so far, with the filters and the
cells as they are. -/
structure Folded where
  result : Except Error Bytes
  filters : List Filter
  cells : Cells

namespace Folded

/-- What comes through of the next chunk is joined to the rest. After a failure no filter is heard
again. -/
def take (all : Folded) (chunk : Bytes) : Folded :=
  match all.result with
  | .ok out =>
    let p := all.filters.foldl Passage.meet ⟨.ok (some chunk), []⟩
    ⟨p.result.map fun more => out ++ more.getD [], p.passed, all.cells⟩
  | .error _ => all

def finish (all : Folded) : Folded :=
  match all.result with
  | .ok out =>
    let c := all.filters.foldl Completion.meet ⟨.ok (), [], all.cells⟩
    ⟨c.result.map fun () => out, c.passed, c.cells⟩
  | .error _ => all

end Folded

def Filter.fold (fs : List Filter) (cells : Cells) (chunks : List Bytes) : Folded :=
  (chunks.foldl Folded.take ⟨.ok [], fs, cells⟩).finish

/-! ### What the stack does, filter by filter -/

theorem Passage.foldl_meet_stopped {r : Except Error (Option Bytes)}
    (h : ∀ chunk, r ≠ .ok (some chunk)) (passed fs : List Filter) :
    fs.foldl meet ⟨r, passed⟩ = ⟨r, passed ++ fs⟩ := by
  induction fs generalizing passed with
  | nil => rw [List.foldl_nil, List.append_nil]
  | cons f fs ih =>
    have hm : meet ⟨r, passed⟩ f = ⟨r, passed ++ [f]⟩ := by
      rcases r with e | _ | chunk
      · rfl
      · rfl
      · exact absurd rfl (h chunk)
    rw [List.foldl_cons, hm, ih, List.append_assoc]
    rfl

theorem Passage.foldl_meet (chunk : Bytes) (passed fs : List Filter) :
    fs.foldl meet ⟨.ok (some chunk), passed⟩ =
      ⟨(Filter.pushAll fs chunk).1, passed ++ (Filter.pushAll fs chunk).2⟩ := by
  induction fs generalizing chunk passed with
  | nil =>
    rw [Filter.pushAll, List.append_nil]
    rfl
  | cons f fs ih =>
    have hm : meet ⟨.ok (some chunk), passed⟩ f =
        ⟨(f.push chunk).1, passed ++ [(f.push chunk).2]⟩ := rfl
    rw [List.foldl_cons, hm, Filter.pushAll]
    rcases f.push chunk with ⟨e | _ | next, f'⟩
    · rw [foldl_meet_stopped (r := .error e) nofun, List.append_assoc]
      rfl
    · rw [foldl_meet_stopped (r := .ok none) nofun, List.append_assoc]
      rfl
    · rw [ih, List.append_assoc]
      rfl

theorem Completion.foldl_meet_failed (e : Error) (passed fs : List Filter) (cells : Cells) :
    fs.foldl meet ⟨.error e, passed, cells⟩ = ⟨.error e, passed ++ fs, cells⟩ := by
  induction fs generalizing passed with
  | nil => rw [List.foldl_nil, List.append_nil]
  | cons f fs ih =>
    have hm : meet ⟨.error e, passed, cells⟩ f = ⟨.error e, passed ++ [f], cells⟩ := rfl
    rw [List.foldl_cons, hm, ih, List.append_assoc]
    rfl

theorem Completion.foldl_meet (passed fs : List Filter) (cells : Cells) :
    fs.foldl meet ⟨.ok (), passed, cells⟩ =
      ⟨(Filter.completeAll fs cells).1, passed ++ (Filter.completeAll fs cells).2.1,
        (Filter.completeAll fs cells).2.2⟩ := by
  induction fs generalizing passed cells with
  | nil =>
    rw [Filter.completeAll, List.append_nil]
    rfl
  | cons f fs ih =>
    have hm : meet ⟨.ok (), passed, cells⟩ f = ⟨(f.complete cells).1,
        passed ++ [(f.complete cells).2.1], (f.complete cells).2.2⟩ := rfl
    rw [List.foldl_cons, hm, Filter.completeAll]
    rcases f.complete cells with ⟨e | ⟨⟩, f', cells'⟩
    · rw [foldl_meet_failed, List.append_assoc]
      rfl
    · rw [ih, List.append_assoc]
      rfl

/-! ### What the fold does, chunk by chunk -/

namespace Folded

/-- The same with these bytes before all that comes out. -/
def after (out : Bytes) (all : Folded) : Folded :=
  { all with result := all.result.map (out ++ ·) }

theorem take_after (out : Bytes) (all : Folded) (chunk : Bytes) :
    (all.after out).take chunk = (all.take chunk).after out := by
  obtain ⟨e | front, fs, cells⟩ := all
  · rfl
  · unfold take after
    dsimp only [Except.map]
    rcases (fs.foldl Passage.meet ⟨.ok (some chunk), []⟩).result with e | more
    · rfl
    · dsimp only
      rw [List.append_assoc]

theorem finish_after (out : Bytes) (all : Folded) :
    (all.after out).finish = all.finish.after out := by
  obtain ⟨e | front, fs, cells⟩ := all
  · rfl
  · unfold finish after
    dsimp only [Except.map]
    rcases (fs.foldl Completion.meet ⟨.ok (), [], cells⟩).result with e | ⟨⟩ <;> rfl

theorem foldl_take_after (out : Bytes) (all : Folded) (chunks : List Bytes) :
    chunks.foldl take (all.after out) = (chunks.foldl take all).after out := by
  induction chunks generalizing all with
  | nil => rfl
  | cons chunk chunks ih => rw [List.foldl_cons, List.foldl_cons, take_after, ih]

theorem foldl_take_failed (e : Error) (fs : List Filter) (cells : Cells) (chunks : List Bytes) :
    chunks.foldl take ⟨.error e, fs, cells⟩ = ⟨.error e, fs, cells⟩ := by
  induction chunks with
  | nil => rfl
  | cons chunk chunks ih => exact ih

end Folded

namespace Filter

variable {fs fs' : List Filter} {cells : Cells} {chunk out : Bytes} {chunks : List Bytes}
  {result : Except Error (Option Bytes)}

theorem fold_no_chunks (fs : List Filter) (cells : Cells) :
    fold fs cells [] =
      ⟨(completeAll fs cells).1.map fun () => [], (completeAll fs cells).2.1,
        (completeAll fs cells).2.2⟩ := by
  unfold fold
  rw [List.foldl_nil, Folded.finish, Completion.foldl_meet]
  rfl

theorem take_start (h : pushAll fs chunk = (result, fs')) (cells : Cells) :
    Folded.take ⟨.ok [], fs, cells⟩ chunk =
      ⟨result.map fun more => [] ++ more.getD [], fs', cells⟩ := by
  dsimp only [Folded.take]
  rw [Passage.foldl_meet, h]
  rfl

theorem fold_cons_through (h : pushAll fs chunk = (.ok (some out), fs')) :
    fold fs cells (chunk :: chunks) = (fold fs' cells chunks).after out := by
  have hstart : Folded.take ⟨.ok [], fs, cells⟩ chunk =
      (⟨.ok [], fs', cells⟩ : Folded).after out := by
    rw [take_start h]
    simp [Folded.after, Except.map]
  rw [fold, List.foldl_cons, hstart, Folded.foldl_take_after, Folded.finish_after]
  rfl

theorem fold_cons_withheld (h : pushAll fs chunk = (.ok none, fs')) :
    fold fs cells (chunk :: chunks) = fold fs' cells chunks := by
  rw [fold, List.foldl_cons, take_start h]
  rfl

theorem fold_cons_failed {e : Error} (h : pushAll fs chunk = (.error e, fs')) :
    fold fs cells (chunk :: chunks) = ⟨.error e, fs', cells⟩ := by
  have hstart : Folded.take ⟨.ok [], fs, cells⟩ chunk = ⟨.error e, fs', cells⟩ := take_start h cells
  rw [fold, List.foldl_cons, hstart, Folded.foldl_take_failed]
  rfl

end Filter

/-! ## Channels fed from memory -/

namespace Channel

variable {ch : Channel} {chunk : Bytes} {chunks source : List Bytes}

/-- These chunks are still to come, all of them from memory. -/
structure Stores (ch : Channel) (chunks : List Bytes) : Prop where
  parts : ch.queue ++ ch.unmoved = chunks
  source : ch.source = some ch.unmoved
  terminal : ch.terminal = if ch.unmoved = [] then some .completed else none
  dry : ch.unmoved ≠ [] → ch.demand = 0
  uncancelled : ch.cancelled = false
  awake : ch.consumer.isAsleep = false

theorem stores_drainSource (hs : ch.source = some source) (hq : ch.queue ++ source = chunks)
    (ht : ch.terminal = none ∨ source = [] ∧ ch.terminal = some .completed)
    (hc : ch.cancelled = false) (ha : ch.consumer.isAsleep = false) :
    ch.drainSource.Stores chunks := by
  have he : ch.drainSource =
      { ch with
        demand := ch.demand - (source.take ch.demand).length
        queue := ch.queue ++ source.take ch.demand
        source := some (source.drop ch.demand)
        terminal := if (source.drop ch.demand).isEmpty && ch.terminal.isNone then some .completed
          else ch.terminal } := by
    simp only [drainSource, hs]
  rw [he]
  constructor
  · simp [unmoved, hq]
  · rfl
  · rcases ht with ht | ⟨rfl, ht⟩
    · by_cases hd : source.drop ch.demand = []
      · simp [unmoved, ht, hd]
      · simp [unmoved, ht, hd, List.isEmpty_eq_false_iff.mpr hd]
    · simp [unmoved, ht]
  · intro hd
    have hlt : ch.demand < source.length := by
      simpa [unmoved, List.drop_eq_nil_iff] using hd
    simp only [List.length_take]
    omega
  · exact hc
  · exact ha

theorem stores_ofChunks (chunks : List Bytes) :
    (ofChunks chunks).Stores (chunks.filter (!·.isEmpty)) :=
  stores_drainSource rfl rfl (.inl rfl) rfl rfl

namespace Stores

theorem stored (h : ch.Stores chunks) : ch.stored = chunks.length := by
  rw [← h.parts, List.length_append]
  rfl

theorem congr (h : ch.Stores chunks) (subscribed : Bool) {w : Wake} (hw : w.isAsleep = false) :
    { ch with subscribed, consumer := w }.Stores chunks :=
  ⟨h.parts, h.source, h.terminal, h.dry, h.uncancelled, hw⟩

theorem resume (h : ch.Stores chunks) : { ch with consumer := ch.consumer.resume }.Stores chunks :=
  h.congr ch.subscribed rfl

theorem grant (h : ch.Stores chunks) (n : Nat) : (ch.grant n).Stores chunks := by
  unfold Channel.grant
  split
  · exact h
  · have hd : ({ ch with demand := min (ch.demand + n) maxDemand } : Channel).drainSource.Stores
        chunks := by
      refine stores_drainSource h.source h.parts ?_ h.uncancelled h.awake
      have ht := h.terminal
      split at ht
      · exact .inr ⟨‹_›, ht⟩
      · exact .inl ht
    exact ⟨hd.parts, hd.source, hd.terminal, hd.dry, hd.uncancelled, Wake.isAsleep_notify _⟩

theorem primed_nil (h : ch.Stores []) :
    (ch.primed true).queue = [] ∧ (ch.primed true).terminal = some .completed := by
  obtain ⟨hq, hu⟩ := List.append_eq_nil_iff.mp h.parts
  have ht := h.terminal
  rw [if_pos hu] at ht
  have hp : ch.primed true = ch := topUp_of_not_isDry (by simp [isDry, ht])
  rw [hp]
  exact ⟨hq, ht⟩

theorem primed_cons (h : ch.Stores (chunk :: chunks)) :
    ∃ rest, (ch.primed true).queue = chunk :: rest ∧
      ({ ch.primed true with queue := rest } : Channel).Stores chunks := by
  cases hq : ch.queue with
  | cons head rest =>
    have hp : ch.primed true = ch := topUp_of_not_isDry (by simp [isDry, hq])
    have hparts := h.parts
    rw [hq, List.cons_append] at hparts
    obtain ⟨rfl, hrest⟩ := List.cons.inj hparts
    rw [hp]
    exact ⟨rest, hq, hrest, h.source, h.terminal, h.dry, h.uncancelled, h.awake⟩
  | nil =>
    have hu : ch.unmoved = chunk :: chunks := by
      have hparts := h.parts
      rwa [hq, List.nil_append] at hparts
    have hne : ch.unmoved ≠ [] := by simp [hu]
    have ht := h.terminal
    rw [if_neg hne] at ht
    have hdry : ch.isDry = true := by simp [isDry, hq, ht, h.dry hne, h.uncancelled]
    have hs : ch.source = some (chunk :: chunks) := hu ▸ h.source
    -- The one unit that is granted brings the next chunk over, and nothing else.
    have hp : ch.primed true =
        { ch with
          demand := 0, queue := [chunk], source := some chunks
          terminal := if chunks.isEmpty then some .completed else none
          producer := ch.producer.notify } := by
      have he : ch.primed true = _ := topUp_of_isDry hdry
      rw [he]
      simp [drainSource, hs, hq, ht]
    rw [hp]
    refine ⟨[], rfl, rfl, rfl, ?_, fun _ => rfl, h.uncancelled, h.awake⟩
    cases chunks <;> rfl

end Stores

end Channel

/-! ## Pulling -/

namespace Subscription

open Courier.Filter

variable {fs : List Filter} {ch : Channel} {cells : Cells} {chunks : List Bytes}
  {r : List Bytes × Pull} {all : Folded}

/-- What the rest of a collection makes of the pull it has come to. -/
def goOn (pulls : Nat) (p : Pull) : List Bytes × Pull :=
  match p.outcome with
  | .chunk bytes =>
    let (rest, last) := pullAll pulls p.subscription p.channel p.cells
    (bytes :: rest, last)
  | _ => ([], p)

theorem pullAll_succ (pulls : Nat) (s : Subscription) (ch : Channel) (cells : Cells) :
    pullAll (pulls + 1) s ch cells = goOn pulls (s.pull ch cells) := by
  cases ho : (s.pull ch cells).outcome <;> simp only [pullAll, goOn, ho]

/-- The collection is over, and has come to what the fold comes to. -/
structure Collects (r : List Bytes × Pull) (all : Folded) : Prop where
  result : collected r.1 r.2.outcome = some all.result
  subscription : r.2.subscription = ⟨all.filters, true⟩
  cells : r.2.cells = all.cells

theorem Collects.after (h : Collects r all) (out : Bytes) :
    Collects (out :: r.1, r.2) (all.after out) := by
  refine ⟨?_, h.subscription, h.cells⟩
  have hr := h.result
  unfold Folded.after
  dsimp only
  cases ho : r.2.outcome with
  | pending => simp [ho, collected] at hr
  | chunk bytes => simp [ho, collected] at hr
  | failed e =>
    simp only [ho, collected, Option.some.injEq] at hr ⊢
    rw [← hr]
    rfl
  | finished =>
    simp only [ho, collected, Option.some.injEq] at hr ⊢
    rw [← hr]
    rfl

theorem collects_close (fs : List Filter) (ch : Channel) (cells : Cells) :
    Collects ([], close ⟨fs, false⟩ .completed ch cells) (fold fs cells []) := by
  unfold close
  rw [fold_no_chunks]
  rcases completeAll fs cells with ⟨e | ⟨⟩, fs', cells'⟩ <;> exact ⟨rfl, rfl, rfl⟩

theorem goOn_of_close (pulls : Nat) (s : Subscription) (t : Terminal) (ch : Channel)
    (cells : Cells) : goOn pulls (s.close t ch cells) = ([], s.close t ch cells) := by
  unfold goOn
  have hc := chunk?_close s t ch cells
  cases ho : (s.close t ch cells).outcome with
  | chunk bytes => simp [ho] at hc
  | pending => rfl
  | failed e => rfl
  | finished => rfl

theorem pull_of_awake (ha : ch.consumer.isAsleep = false) (fs : List Filter) (cells : Cells) :
    pull ⟨fs, false⟩ ch cells =
      look true (ch.stored + 1) ⟨fs, false⟩ { ch with consumer := ch.consumer.resume } cells := by
  simp [pull, poll, ha]

/-- The induction is on the chunks still to come: a look that withholds one goes on with the rest
in the same pull, and a look that lets one through leaves the rest to the pulls after it. -/
theorem collects_look (h : ch.Stores chunks) {looks pulls : Nat} (hl : chunks.length < looks)
    (hp : chunks.length ≤ pulls) :
    Collects (goOn pulls (look true looks ⟨fs, false⟩ ch cells)) (fold fs cells chunks) := by
  induction chunks generalizing fs ch looks pulls with
  | nil =>
    obtain ⟨looks, rfl⟩ := Nat.exists_eq_add_one_of_ne_zero (Nat.ne_of_gt hl)
    obtain ⟨hq, ht⟩ := h.primed_nil
    rw [look_terminal hq ht, goOn_of_close]
    exact collects_close fs _ cells
  | cons chunk chunks ih =>
    obtain ⟨looks, rfl⟩ := Nat.exists_eq_add_one_of_ne_zero (Nat.ne_zero_of_lt hl)
    obtain ⟨rest, hq, hs⟩ := h.primed_cons
    rw [List.length_cons] at hl hp
    rw [look_cons hq]
    rcases hpush : pushAll fs chunk with ⟨e | _ | out, fs'⟩
    · rw [fold_cons_failed hpush]
      exact ⟨rfl, rfl, rfl⟩
    · rw [fold_cons_withheld hpush]
      exact ih (hs.grant 1) (by omega) (by omega)
    · rw [fold_cons_through hpush]
      obtain ⟨pulls, rfl⟩ := Nat.exists_eq_add_one_of_ne_zero (Nat.ne_zero_of_lt hp)
      have hpull := pullAll_succ pulls ⟨fs', false⟩ { ch.primed true with queue := rest } cells
      rw [pull_of_awake hs.awake] at hpull
      simp only [goOn]
      rw [hpull]
      refine (ih hs.resume ?_ (Nat.le_of_succ_le_succ hp)).after out
      rw [hs.stored]
      exact Nat.lt_succ_self _

theorem collects_readAll (h : ch.Stores chunks) (fs : List Filter) (cells : Cells) :
    Collects (readAll ⟨fs, false⟩ ch cells) (fold fs cells chunks) := by
  unfold readAll
  rw [pullAll_succ, pull_of_awake h.awake]
  have hs := h.stored
  exact collects_look h.resume (Nat.lt_succ_of_le (Nat.le_of_eq hs.symm)) (Nat.le_of_eq hs.symm)

end Subscription

/-! ## Streams -/

namespace ByteStream

/-- With these filters layered on, the first next to the chunks. -/
def withFilters (s : ByteStream) (fs : List Filter) : ByteStream :=
  fs.foldl withFilter s

theorem withFilters_eq (s : ByteStream) (fs : List Filter) :
    s.withFilters fs =
      { s with outlet := { s.outlet with filters := s.outlet.filters ++ fs } } := by
  unfold withFilters
  induction fs generalizing s with
  | nil => simp
  | cons f fs ih => simp [ih, withFilter, Outlet.withFilter]

theorem subscribe_withFilters (chunks : List Bytes) (fs : List Filter) :
    ∃ t, ((ofChunks chunks).withFilters fs).subscribe = .ok (⟨fs, false⟩, t) ∧
      t.channel.Stores (chunks.filter (!·.isEmpty)) := by
  have hs := Channel.stores_ofChunks chunks
  have hc : (Channel.ofChunks chunks).subscribed = false := Channel.subscribed_drainSource _
  rw [withFilters_eq]
  simp only [subscribe, ofChunks, Outlet.subscribe, Channel.subscribe, hc]
  exact ⟨_, rfl, hs.congr true hs.awake⟩

theorem collects_withFilters (chunks : List Bytes) (fs : List Filter) (cells : Cells) :
    let all := Filter.fold fs cells (chunks.filter (!·.isEmpty))
    ((ofChunks chunks).withFilters fs).collect cells = (some all.result, all.cells) ∧
      ∃ s t, ((ofChunks chunks).withFilters fs).subscribe = .ok (s, t) ∧
        Subscription.Collects (s.readAll t.channel cells) all := by
  intro all
  obtain ⟨t, ht, hs⟩ := subscribe_withFilters chunks fs
  have hc := Subscription.collects_readAll hs fs cells
  refine ⟨?_, ⟨fs, false⟩, t, ht, hc⟩
  unfold collect readAll
  rw [ht]
  exact Prod.ext hc.result hc.cells

/-- To collect chunks that are in memory through a stack of filters never has to wait, and gives
what folding the filters over the chunks that are not empty gives: the result, what is in the cells,
and the filters as they are left, none of which is heard again. The fold gives each filter in turn
what the one before it let through of a chunk, and ends with the first failure. -/
theorem collect_eq_fold (chunks : List Bytes) (fs : List Filter) (cells : Cells) :
    let stream := (ofChunks chunks).withFilters fs
    let all := Filter.fold fs cells (chunks.filter (!·.isEmpty))
    stream.collect cells = (some all.result, all.cells) ∧
      ∃ s t, stream.subscribe = .ok (s, t) ∧
        (s.readAll t.channel cells).2.subscription = ⟨all.filters, true⟩ := by
  intro stream all
  obtain ⟨hcollect, s, t, hs, hc⟩ := collects_withFilters chunks fs cells
  exact ⟨hcollect, s, t, hs, hc.subscription⟩

/-- Every other chunk is withheld, and the rest is made upper case. -/
example : (((ofChunks [[97], [98], [], [99], [100]]).withFilters
    [.ofRule (.everyOther "odd"), .ofRule .upper]).collect .empty).1 = some (.ok [65, 67]) := by
  rfl

end ByteStream

end Courier
