import Courier.Proofs.Stream.Subscription
import Courier.Stream.ByteStream

/-! # Digests of what is read

What comes out of a stream does not depend on the cells, and only the completion of its filters
changes them. A digest at the end of the stack changes nothing of what comes out; when the stream
has been read to its end, the slot holds the digest of all the bytes that did.
-/

namespace Courier

/-! ## Cells -/

/-- The slot holds after what it held before. -/
def Cells.Keeps (slot : Slot) (c c' : Cells) : Prop :=
  c'.digests[slot.index]? = c.digests[slot.index]?

theorem Cells.Keeps.lt {slot : Slot} {c c' : Cells} (hk : c.Keeps slot c')
    (hs : slot.index < c.digests.length) : slot.index < c'.digests.length := by
  unfold Keeps at hk
  rw [List.getElem?_eq_getElem hs] at hk
  exact List.getElem?_eq_some_iff.mp hk |>.1

theorem Cells.Keeps.digest? {slot : Slot} {c c' : Cells} (hk : c.Keeps slot c') :
    c'.digest? slot = c.digest? slot := by
  unfold Keeps at hk
  simp [Cells.digest?, List.getD_eq_getElem?_getD, hk]

theorem Cells.lt_of_digest? {slot : Slot} {c : Cells} {d : Digest}
    (hd : c.digest? slot = some d) : slot.index < c.digests.length := by
  by_cases hs : slot.index < c.digests.length
  · exact hs
  · simp [Cells.digest?, List.getD_eq_getElem?_getD, hs] at hd

/-- What is noted in a slot does not change it. -/
def Cells.Ignores {β : Type} (g : Cells → β) : Prop :=
  ∀ c slot d, g (Cells.setDigest c slot d) = g c

theorem Cells.ignores_length : Ignores (·.digests.length) :=
  fun _ _ _ => List.length_set

theorem Cells.ignores_counts : Ignores Cells.counts :=
  fun _ _ _ => rfl

namespace Filter

theorem complete_cells (f : Filter) (c c' : Cells) :
    ∃ v, f.complete c' = ((f.complete c).1, (f.complete c).2.1, v) := by
  cases f with
  | trailing s =>
    refine ⟨c', ?_⟩
    unfold complete
    dsimp only
    split <;> rfl
  | uploadDigest slot h => exact ⟨c'.setDigest slot (some h.finish), rfl⟩
  | custom rule seen => exact ⟨c', rfl⟩

theorem completeAll_cells (fs : List Filter) (c c' : Cells) :
    ∃ v, completeAll fs c' = ((completeAll fs c).1, (completeAll fs c).2.1, v) := by
  induction fs generalizing c c' with
  | nil => exact ⟨c', rfl⟩
  | cons f fs ih =>
    obtain ⟨v, hv⟩ := f.complete_cells c c'
    simp only [completeAll, hv]
    rcases f.complete c with ⟨e | ⟨⟩, f', d⟩
    · exact ⟨v, rfl⟩
    · obtain ⟨u, hu⟩ := ih d v
      dsimp only
      rw [hu]
      exact ⟨u, rfl⟩

theorem kept_complete {β : Type} {g : Cells → β} (hg : Cells.Ignores g) (f : Filter) (c : Cells) :
    g (f.complete c).2.2 = g c := by
  cases f with
  | trailing s =>
    unfold complete
    dsimp only
    split <;> rfl
  | uploadDigest slot h => exact hg c slot _
  | custom rule seen => rfl

theorem kept_completeAll {β : Type} {g : Cells → β} (hg : Cells.Ignores g) (fs : List Filter)
    (c : Cells) : g (completeAll fs c).2.2 = g c := by
  induction fs generalizing c with
  | nil => rfl
  | cons f fs ih =>
    have hf := kept_complete hg f c
    unfold completeAll
    generalize f.complete c = r at hf ⊢
    obtain ⟨e | ⟨⟩, f', d⟩ := r
    · exact hf
    · exact (ih d).trans hf

variable {slot : Slot} {h : Md5.Hasher}

theorem pushAll_digest (fs : List Filter) (chunk : Bytes) :
    pushAll (fs ++ [.uploadDigest slot h]) chunk =
      match pushAll fs chunk with
      | (.ok (some out), fs) => (.ok (some out), fs ++ [.uploadDigest slot (h.update out)])
      | (.ok none, fs) => (.ok none, fs ++ [.uploadDigest slot h])
      | (.error e, fs) => (.error e, fs ++ [.uploadDigest slot h]) := by
  induction fs generalizing chunk with
  | nil => rfl
  | cons f fs ih =>
    simp only [List.cons_append, pushAll]
    rcases f.push chunk with ⟨e | _ | next, f'⟩
    · rfl
    · rfl
    · dsimp only
      rw [ih]
      rcases pushAll fs next with ⟨e | _ | out, fs'⟩ <;> rfl

theorem completeAll_digest (fs : List Filter) (c : Cells) :
    completeAll (fs ++ [.uploadDigest slot h]) c =
      match completeAll fs c with
      | (.ok (), fs, c) =>
        (.ok (), fs ++ [.uploadDigest slot .start], c.setDigest slot (some h.finish))
      | (.error e, fs, c) => (.error e, fs ++ [.uploadDigest slot h], c) := by
  induction fs generalizing c with
  | nil => rfl
  | cons f fs ih =>
    simp only [List.cons_append, completeAll]
    rcases f.complete c with ⟨e | ⟨⟩, f', d⟩
    · rfl
    · dsimp only
      rw [ih]
      rcases completeAll fs d with ⟨e | ⟨⟩, fs', v⟩ <;> rfl

end Filter

namespace Subscription

theorem close_cells (s : Subscription) (t : Terminal) (ch : Channel) (c c' : Cells) :
    ∃ v, s.close t ch c' = { s.close t ch c with cells := v } := by
  cases t with
  | failed e => exact ⟨c', rfl⟩
  | completed =>
    obtain ⟨v, hv⟩ := Filter.completeAll_cells s.filters c c'
    refine ⟨v, ?_⟩
    simp only [close, hv]
    rcases Filter.completeAll s.filters c with ⟨e | _, fs, d⟩ <;> rfl

theorem look_cells (auto : Bool) (looks : Nat) (s : Subscription) (ch : Channel) (c c' : Cells) :
    ∃ v, look auto looks s ch c' = { look auto looks s ch c with cells := v } := by
  induction looks generalizing s ch with
  | zero => exact ⟨c', rfl⟩
  | succ looks ih =>
    simp only [look]
    split
    · split
      · exact ⟨c', rfl⟩
      · exact ih _ _
      · exact ⟨c', rfl⟩
    · exact close_cells _ _ _ c c'
    · exact ⟨c', rfl⟩

theorem poll_cells (auto : Bool) (s : Subscription) (ch : Channel) (c c' : Cells) :
    ∃ v, s.poll auto ch c' = { s.poll auto ch c with cells := v } := by
  unfold poll
  split
  · exact ⟨c', rfl⟩
  · split
    · exact ⟨c', rfl⟩
    · exact look_cells _ _ _ _ c c'

theorem pullAll_cells (pulls : Nat) (s : Subscription) (ch : Channel) (c c' : Cells) :
    ∃ v, s.pullAll pulls ch c' =
      ((s.pullAll pulls ch c).1, { (s.pullAll pulls ch c).2 with cells := v }) := by
  induction pulls generalizing s ch c c' with
  | zero => exact ⟨c', rfl⟩
  | succ pulls ih =>
    obtain ⟨v, hv⟩ := s.poll_cells true ch c c'
    simp only [pullAll, pull, hv]
    split
    · rename_i bytes ho
      obtain ⟨u, hu⟩ := ih (s.poll true ch c).subscription (s.poll true ch c).channel
        (s.poll true ch c).cells v
      exact ⟨u, by rw [hu]⟩
    · exact ⟨v, rfl⟩

/-! ## What is left of the cells -/

variable {auto : Bool} {c : Cells} {s : Subscription} {ch : Channel}

section

variable {β : Type} {g : Cells → β} (hg : Cells.Ignores g)

include hg

theorem kept_close (s : Subscription) (t : Terminal) (ch : Channel) (c : Cells) :
    g (s.close t ch c).cells = g c := by
  cases t with
  | failed e => rfl
  | completed =>
    have hl := Filter.kept_completeAll hg s.filters c
    unfold close
    dsimp only
    generalize Filter.completeAll s.filters c = r at hl ⊢
    obtain ⟨e | ⟨⟩, fs, d⟩ := r <;> exact hl

theorem Looks.kept {grants : Grants} {p : Pull} (hl : Looks auto c s ch grants p) :
    g p.cells = g c := by
  induction hl with
  | closed _ _ => exact kept_close hg _ _ _ c
  | withheld _ _ _ ih => exact ih
  | _ => rfl

theorem kept_poll (auto : Bool) (s : Subscription) (ch : Channel) (c : Cells) :
    g (s.poll auto ch c).cells = g c := by
  rcases poll_cases auto s ch c with ⟨_, _, he⟩ | ⟨_, _, he⟩ | ⟨_, hl⟩
  · rw [he]
  · rw [he]
  · exact hl.kept hg

theorem kept_pullAll (pulls : Nat) (s : Subscription) (ch : Channel) (c : Cells) :
    g (s.pullAll pulls ch c).2.cells = g c := by
  induction pulls generalizing s ch c with
  | zero => rfl
  | succ pulls ih =>
    unfold pullAll
    dsimp only
    split
    · exact (ih _ _ _).trans (kept_poll hg true s ch c)
    · exact kept_poll hg true s ch c

end

theorem Looks.done_of_chunk {g : Grants} {p : Pull} {out : Bytes} (hl : Looks auto c s ch g p)
    (ho : p.outcome = .chunk out) : p.subscription.done = s.done := by
  induction hl with
  | taken _ _ => rfl
  | withheld _ _ _ ih => exact ih ho
  | @closed s ch t _ _ =>
    have hc := chunk?_close s t (ch.primed auto) c
    rw [ho] at hc
    cases hc
  | _ => cases ho

theorem done_poll (auto : Bool) (ch : Channel) (c : Cells) {out : Bytes} (hd : s.done = false)
    (ho : (s.poll auto ch c).outcome = .chunk out) :
    (s.poll auto ch c).subscription.done = false := by
  rcases poll_cases auto s ch c with ⟨hd', _, _⟩ | ⟨_, _, he⟩ | ⟨_, hl⟩
  · cases hd.symm.trans hd'
  · rw [he] at ho
    cases ho
  · exact (hl.done_of_chunk ho).trans hd

/-! ## A digest at the end of the stack -/

/-- With one more filter, which digests what comes out. -/
def digesting (slot : Slot) (h : Md5.Hasher) (s : Subscription) : Subscription :=
  { s with filters := s.filters ++ [.uploadDigest slot h] }

end Subscription

def Pull.digesting (slot : Slot) (h : Md5.Hasher) (p : Pull) : Pull :=
  match p.outcome with
  | .chunk out => { p with subscription := p.subscription.digesting slot (h.update out) }
  | .finished =>
    { p with
      subscription := p.subscription.digesting slot .start
      cells := p.cells.setDigest slot (some h.finish) }
  | .failed _ => { p with subscription := p.subscription.digesting slot h }
  | .pending => { p with subscription := p.subscription.digesting slot h }

theorem Pull.outcome_digesting (slot : Slot) (h : Md5.Hasher) (p : Pull) :
    (p.digesting slot h).outcome = p.outcome := by
  unfold digesting
  split <;> rfl

namespace Subscription

variable {s : Subscription} {slot : Slot} {h : Md5.Hasher}

theorem close_digesting (s : Subscription) (t : Terminal) (ch : Channel) (c : Cells) :
    (s.digesting slot h).close t ch c = (s.close t ch c).digesting slot h := by
  cases t with
  | failed e => rfl
  | completed =>
    simp only [close, digesting, Filter.completeAll_digest]
    rcases Filter.completeAll s.filters c with ⟨e | ⟨⟩, fs, d⟩ <;> rfl

theorem look_digesting (auto : Bool) (looks : Nat) (s : Subscription) (ch : Channel) (c : Cells) :
    look auto looks (s.digesting slot h) ch c = (look auto looks s ch c).digesting slot h := by
  induction looks generalizing s ch with
  | zero => rfl
  | succ looks ih =>
    simp only [look]
    cases (if auto = true then ch.topUp else ch).queue with
    | nil =>
      cases (if auto = true then ch.topUp else ch).terminal with
      | none => rfl
      | some t => exact close_digesting s t _ c
    | cons chunk rest =>
      have hf : (s.digesting slot h).filters = s.filters ++ [.uploadDigest slot h] := rfl
      simp only [hf, Filter.pushAll_digest]
      rcases Filter.pushAll s.filters chunk with ⟨e | _ | out, fs⟩
      · rfl
      · exact ih { s with filters := fs } _
      · rfl

theorem poll_digesting (auto : Bool) (ch : Channel) (c : Cells) (hd : s.done = false) :
    (s.digesting slot h).poll auto ch c = (s.poll auto ch c).digesting slot h := by
  have hd' : (s.digesting slot h).done = false := hd
  simp only [poll, hd, hd', Bool.false_eq_true, if_false]
  split
  · rfl
  · exact look_digesting auto _ s _ c

theorem pullAll_digesting (pulls : Nat) (ch : Channel) (c : Cells) (hd : s.done = false) :
    (s.digesting slot h).pullAll pulls ch c =
      ((s.pullAll pulls ch c).1,
        (s.pullAll pulls ch c).2.digesting slot (h.update (s.pullAll pulls ch c).1.flatten)) := by
  induction pulls generalizing s ch c h with
  | zero => rfl
  | succ pulls ih =>
    simp only [pullAll, pull, poll_digesting true ch c hd]
    have hdone {out : Bytes} (ho : (s.poll true ch c).outcome = .chunk out) :=
      done_poll true ch c hd ho
    generalize s.poll true ch c = p at hdone ⊢
    obtain ⟨outcome, s', ch', d⟩ := p
    cases outcome with
    | chunk out =>
      have hs := ih (h := h.update out) ch' d (hdone rfl)
      dsimp only
      rw [List.flatten_cons, Md5.Hasher.update_append]
      exact congrArg (fun q => (out :: q.1, q.2)) hs
    | pending => rfl
    | failed e => rfl
    | finished => rfl

end Subscription

namespace ByteStream

/-- Read to its end, whatever the cells hold, the stream gives these chunks. -/
def Yields (s : ByteStream) (chunks : List Bytes) : Prop :=
  ∀ c, ∃ c', s.readAll c = (chunks, .finished, c')

variable {s : ByteStream} {chunks : List Bytes} {c c' : Cells} {slot : Slot}

theorem yields_of_readAll (hr : s.readAll c = (chunks, .finished, c')) : s.Yields chunks := by
  intro d
  unfold readAll at hr ⊢
  cases hs : s.subscribe with
  | error e =>
    rw [hs] at hr
    cases hr
  | ok taken =>
    obtain ⟨sub, t⟩ := taken
    rw [hs] at hr
    obtain ⟨v, hv⟩ := sub.pullAll_cells (t.channel.stored + 1) t.channel c d
    simp only [Subscription.readAll, Prod.mk.injEq] at hr ⊢
    rw [hv]
    exact ⟨v, hr.1, hr.2.1, rfl⟩

theorem kept_readAll {β : Type} {g : Cells → β} (hg : Cells.Ignores g) (s : ByteStream)
    (c : Cells) : g (s.readAll c).2.2 = g c := by
  unfold readAll
  cases s.subscribe with
  | error e => rfl
  | ok taken => exact Subscription.kept_pullAll hg _ taken.1 taken.2.channel c

theorem done_subscribe {sub : Subscription} {t : ByteStream} (hs : s.subscribe = .ok (sub, t)) :
    sub.done = false := by
  unfold subscribe Outlet.subscribe at hs
  cases hc : s.channel.subscribe with
  | error e =>
    rw [hc] at hs
    cases hs
  | ok ch =>
    rw [hc] at hs
    cases hs
    rfl

theorem subscribe_digesting (s : ByteStream) (slot : Slot) :
    (s.withFilter (.digestInto slot)).subscribe =
      s.subscribe.map fun (sub, t) => (sub.digesting slot .start, t) := by
  unfold subscribe withFilter Outlet.withFilter Outlet.subscribe
  dsimp only
  cases s.channel.subscribe with
  | error e => rfl
  | ok ch => rfl

/-- A stream that is digested as it is read gives the same chunks as by itself, and at its end the
digest of all of them is in the slot. -/
theorem readAll_digesting (hr : (s.withFilter (.digestInto slot)).readAll c =
    (chunks, .finished, c')) :
    ∃ d, s.readAll c = (chunks, .finished, d) ∧
      c' = d.setDigest slot (some (md5 chunks.flatten)) := by
  unfold readAll at hr ⊢
  rw [subscribe_digesting] at hr
  cases hs : s.subscribe with
  | error e =>
    rw [hs] at hr
    cases hr
  | ok taken =>
    obtain ⟨sub, t⟩ := taken
    rw [hs] at hr
    have hp : (sub.digesting slot .start).pullAll (t.channel.stored + 1) t.channel c = _ :=
      Subscription.pullAll_digesting _ t.channel c (done_subscribe hs)
    simp only [Except.map, Subscription.readAll, hp, Prod.mk.injEq] at hr ⊢
    obtain ⟨rfl, ho, rfl⟩ := hr
    generalize sub.pullAll (t.channel.stored + 1) t.channel c = r at ho ⊢
    obtain ⟨chunks, outcome, sub', ch, d⟩ := r
    cases outcome <;> cases ho
    exact ⟨d, ⟨rfl, rfl, rfl⟩, rfl⟩

theorem readAll_ofBytes (bytes : Bytes) (c : Cells) :
    ∃ chunks, (ofBytes bytes).readAll c = (chunks, .finished, c) ∧ chunks.flatten = bytes := by
  cases bytes with
  | nil => exact ⟨[], rfl, rfl⟩
  | cons b bs => exact ⟨[b :: bs], rfl, List.flatten_singleton⟩

end ByteStream

end Courier
