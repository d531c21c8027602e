import Courier.Pool.Acquisition

/-! # What pool operations do to a site

The leases that are out at an endpoint and the connections idle there change only when a lease is
taken, given back or discarded; queueing and waiting leave both alone.
-/

namespace Courier

variable {ω κ : Type}

namespace Pool

variable {p q r : Pool κ} {e d : Endpoint} {l : Lease κ}

theorem site?_update (p : Pool κ) (e d : Endpoint) (f : Site κ → Site κ) :
    (p.update e f).site? d = if d = e then (p.site? d).map f else p.site? d := by
  unfold update site?
  induction p.sites with
  | nil => simp
  | cons entry sites ih =>
    obtain ⟨a, s⟩ := entry
    rw [List.map_cons]
    by_cases hd : d = a
    · subst hd
      by_cases he : d = e
      · simp [he]
      · simp [he]
    · have hb : (d == a) = false := beq_false_of_ne hd
      by_cases ha : a = e
      · simpa [ha, List.lookup_cons, ha ▸ hb] using ih
      · simpa only [List.lookup_cons, ha, hb, if_false] using ih

theorem update_update (p : Pool κ) (e : Endpoint) (f g : Site κ → Site κ) :
    (p.update e f).update e g = p.update e fun s => g (f s) := by
  unfold update
  congr 1
  rw [List.map_map]
  refine List.map_congr_left fun x _ => ?_
  simp only [Function.comp_apply]
  split <;> simp [*]

theorem isSome_site?_update (p : Pool κ) (e d : Endpoint) (f : Site κ → Site κ) :
    ((p.update e f).site? d).isSome = (p.site? d).isSome := by
  rw [site?_update]
  split <;> simp

theorem site_update_of_same {β : Type} (g : Site κ → β) (p : Pool κ) (e d : Endpoint)
    {f : Site κ → Site κ} (hf : ∀ s, g (f s) = g s) :
    g ((p.update e f).site d) = g (p.site d) := by
  unfold site
  rw [site?_update]
  split
  · cases p.site? d <;> simp [hf, update]
  · rfl

theorem site_update (p : Pool κ) {e : Endpoint} (f : Site κ → Site κ)
    (he : (p.site? e).isSome = true) (d : Endpoint) :
    (p.update e f).site d = if d = e then f (p.site d) else p.site d := by
  unfold site
  rw [site?_update]
  split
  · rename_i hd
    subst hd
    obtain ⟨s, hs⟩ := Option.isSome_iff_exists.mp he
    simp [hs]
  · rfl

theorem site?_enter (p : Pool κ) (e d : Endpoint) :
    (p.enter e).site? d =
      (p.site? d).or (if d = e then some (.ofLimit p.config.maxConnections) else none) := by
  unfold enter
  split
  · rename_i he
    by_cases hd : d = e
    · subst hd
      obtain ⟨s, hs⟩ := Option.isSome_iff_exists.mp he
      simp [hs]
    · simp [hd]
  · unfold site?
    rw [List.lookup_append]
    by_cases hd : d = e
    · simp [hd]
    · simp [List.lookup_cons, beq_false_of_ne hd, hd]

theorem isSome_site?_enter (p : Pool κ) (e d : Endpoint) :
    ((p.enter e).site? d).isSome = ((p.site? d).isSome || decide (d = e)) := by
  rw [site?_enter, Option.isSome_or]
  split <;> simp_all

theorem site_enter (p : Pool κ) (e d : Endpoint) : (p.enter e).site d = p.site d := by
  have hc : (p.enter e).config = p.config := by
    unfold enter
    split <;> rfl
  unfold site
  rw [site?_enter, hc]
  cases p.site? d with
  | some s => rfl
  | none => split <;> rfl

theorem isSome_of_mem_leased {id : Nat} (h : id ∈ (p.site e).leased) :
    (p.site? e).isSome = true := by
  cases hs : p.site? e with
  | some s => rfl
  | none => simp [site, hs, Site.ofLimit] at h

theorem leased_stats (p : Pool κ) (e : Endpoint) :
    (p.stats e).leased = (p.site e).leased.length := by
  unfold stats site
  cases p.site? e <;> rfl

theorem idle_stats (p : Pool κ) (e : Endpoint) : (p.stats e).idle = (p.site e).idle.length := by
  unfold stats site
  cases p.site? e <;> rfl

/-! ## Leaving leases and idle connections alone -/

/-- Sites are kept, and with them what is on lease and what is idle. -/
structure Undisturbed (p q : Pool κ) : Prop where
  entered : ∀ e, (p.site? e).isSome = true → (q.site? e).isSome = true
  leased : ∀ e, (q.site e).leased = (p.site e).leased
  idle : ∀ e, (q.site e).idle = (p.site e).idle

namespace Undisturbed

theorem refl (p : Pool κ) : Undisturbed p p := ⟨fun _ h => h, fun _ => rfl, fun _ => rfl⟩

theorem trans (h : Undisturbed p q) (h' : Undisturbed q r) : Undisturbed p r where
  entered e he := h'.entered e (h.entered e he)
  leased e := (h'.leased e).trans (h.leased e)
  idle e := (h'.idle e).trans (h.idle e)

theorem update (p : Pool κ) (e : Endpoint) {f : Site κ → Site κ}
    (hl : ∀ s, (f s).leased = s.leased) (hi : ∀ s, (f s).idle = s.idle) :
    Undisturbed p (p.update e f) where
  entered d hd := (isSome_site?_update p e d f).trans hd
  leased d := site_update_of_same (·.leased) p e d hl
  idle d := site_update_of_same (·.idle) p e d hi

theorem freePermit (p : Pool κ) (e : Endpoint) : Undisturbed p (p.freePermit e) := by
  unfold Pool.freePermit onPermits
  exact update p e (fun _ => rfl) fun _ => rfl

theorem enter (p : Pool κ) (e : Endpoint) :
    Undisturbed p (p.enter e) ∧ ((p.enter e).site? e).isSome = true := by
  have he := isSome_site?_enter p e
  refine ⟨⟨fun d hd => (he d).trans (by simp [hd]), fun d => ?_, fun d => ?_⟩,
    (he e).trans (by simp)⟩
  · rw [site_enter]
  · rw [site_enter]

end Undisturbed

/-! ## Taking, giving back and discarding -/

/-- The lease is taken; a connection may have been idle before. -/
structure Taken (p q : Pool κ) (l : Lease κ) : Prop where
  entered : ∀ e, (p.site? e).isSome = true → (q.site? e).isSome = true
  leased : ∀ e, (q.site e).leased =
    if e = l.endpoint then (p.site e).leased ++ [l.id] else (p.site e).leased

structure Returned (p q : Pool κ) (l : Lease κ) : Prop where
  entered : ∀ e, (p.site? e).isSome = true → (q.site? e).isSome = true
  leased : ∀ e, (q.site e).leased =
    if e = l.endpoint then (p.site e).leased.erase l.id else (p.site e).leased

theorem Returned.trans (h : Returned p q l) (h' : Undisturbed q r) : Returned p r l where
  entered e he := h'.entered e (h.entered e he)
  leased e := (h'.leased e).trans (h.leased e)

theorem Returned.update {f : Site κ → Site κ} (hl : l.id ∈ (p.site l.endpoint).leased)
    (hf : ∀ s, (f s).leased = s.leased.erase l.id) :
    Returned p (p.update l.endpoint f) l where
  entered d hd := (isSome_site?_update p _ d f).trans hd
  leased d := by
    rw [site_update p f (isSome_of_mem_leased hl)]
    split
    · exact hf _
    · rfl

/-- A connection that is given back with nothing in between. -/
theorem release_eq (net : Network ω κ) (l : Lease κ) (p : Pool κ) (w : ω) :
    p.release net l w =
      if (p.site l.endpoint).leased.contains l.id then
        if net.isReusable l.connection && !p.closed then
          (.ok (), (p.update l.endpoint fun s =>
            { s with
              leased := s.leased.erase l.id
              released := s.released + 1
              idle := l.connection :: s.idle }).freePermit l.endpoint, w)
        else
          (.ok (), (p.update l.endpoint fun s =>
            { s with leased := s.leased.erase l.id, closed := s.closed + 1 }).freePermit l.endpoint,
            if p.eventLoop.isRunning then net.close l.connection w else w)
      else (.error (.doubleRelease l.id), p.freePermit l.endpoint, w) := by
  have hs : (p.checkIn l).shelve l = p.update l.endpoint _ := update_update p l.endpoint _ _
  have hr : (p.checkIn l).retire l = p.update l.endpoint _ := update_update p l.endpoint _ _
  unfold release
  dsimp only
  rw [hs, hr]
  rfl

theorem release_cases (net : Network ω κ) {w : ω} (hl : l.id ∈ (p.site l.endpoint).leased) :
    (p.release net l w).1 = .ok () ∧ Returned p (p.release net l w).2.1 l := by
  have hc : (p.site l.endpoint).leased.contains l.id = true := List.contains_iff_mem.mpr hl
  rw [release_eq, if_pos hc]
  split
  · exact ⟨rfl, (Returned.update hl fun _ => rfl).trans (.freePermit _ _)⟩
  · exact ⟨rfl, (Returned.update hl fun _ => rfl).trans (.freePermit _ _)⟩

theorem returned_discard (net : Network ω κ) (w : ω) (hl : l.id ∈ (p.site l.endpoint).leased) :
    Returned p (p.discard net l w).1 l :=
  (Returned.update hl fun _ => rfl).trans (.freePermit _ _)

theorem idle_discard (net : Network ω κ) (l : Lease κ) (p : Pool κ) (w : ω) (e : Endpoint) :
    ((p.discard net l w).1.site e).idle = (p.site e).idle :=
  ((Undisturbed.freePermit _ _).idle e).trans
    (site_update_of_same (·.idle) p l.endpoint e fun _ => rfl)

end Pool

/-! ## Acquiring -/

namespace Acquisition

open Pool

variable {p q : Pool κ} {e : Endpoint}

theorem undisturbed_enqueue (now : Nat) (e : Endpoint) (p : Pool κ) :
    Undisturbed p (enqueue now e p).2 ∧ ((enqueue now e p).2.site? e).isSome = true := by
  have he := Undisturbed.enter p e
  have hn : Undisturbed (p.enter e) { p.enter e with nextTicket := p.nextTicket + 1 } :=
    ⟨fun _ h => h, fun _ => rfl, fun _ => rfl⟩
  dsimp only [enqueue]
  refine ⟨(he.1.trans hn).trans (.update _ e (fun _ => rfl) fun _ => rfl), ?_⟩
  rw [isSome_site?_update]
  exact he.2

theorem start_eq_ok {now : Nat} {a : Acquisition} (h : start now e p = .ok (a, q)) :
    p.closed = false ∧ enqueue now e p = (a, q) := by
  unfold start at h
  split at h
  · cases h
  · exact ⟨Bool.not_eq_true _ ▸ ‹¬_›, Except.ok.inj h⟩

theorem undisturbed_start {now : Nat} {a : Acquisition} (h : start now e p = .ok (a, q)) :
    Undisturbed p q ∧ (q.site? e).isSome = true := by
  have hu := undisturbed_enqueue now e p
  rwa [(start_eq_ok h).2] at hu

theorem undisturbed_withdraw (ticket : Nat) (e : Endpoint) (p : Pool κ) :
    Undisturbed p (withdraw ticket e p) :=
  .update p e (fun _ => rfl) fun _ => rfl

theorem undisturbed_drop (a : Acquisition) (e : Endpoint) (p : Pool κ) :
    Undisturbed p (a.drop e p) := by
  cases a with
  | waiting ticket deadline => exact undisturbed_withdraw ticket e p
  | dialing lease wait => exact .freePermit p e

/-- What a look at an acquisition has done to the pool. -/
def Polls (e : Endpoint) (p : Pool κ) (a : Acquired κ) (q : Pool κ) : Prop :=
  match a with
  | .pending _ => Undisturbed p q
  | .failed _ => Undisturbed p q
  | .leased l => l.endpoint = e ∧ Taken p q l

theorem polls_proceed (net : Network ω κ) (now : Nat) (w : ω)
    (he : (p.site? e).isSome = true) :
    Polls e p (proceed net now e p w).1 (proceed net now e p w).2 := by
  unfold proceed
  dsimp only
  split
  · refine ⟨rfl, fun d hd => ?_, fun d => ?_⟩
    · rw [isSome_site?_update]
      exact hd
    · dsimp only
      rw [site_update { p with nextLease := p.nextLease + 1 } _ he]
      split <;> rfl
  · exact ⟨fun _ h => h, fun _ => rfl, fun _ => rfl⟩

theorem polls_pollPermit (net : Network ω κ) (now ticket deadline : Nat) (w : ω)
    (he : (p.site? e).isSome = true) :
    Polls e p (pollPermit net now e ticket deadline p w).1
      (pollPermit net now e ticket deadline p w).2 := by
  unfold pollPermit
  dsimp only
  split
  · exact undisturbed_withdraw ticket e p
  · split
    · have hu : Undisturbed p (p.update e fun s =>
          { s with permits := s.permits.claim ticket, pending := s.pending - 1 }) :=
        .update p e (fun _ => rfl) fun _ => rfl
      have hp := polls_proceed net now w (hu.entered e he)
      revert hp
      generalize proceed net now e _ w = a
      obtain ⟨_ | l | _, q⟩ := a
      · exact hu.trans
      · rintro ⟨hl, ht⟩
        refine ⟨hl, fun d hd => ht.entered d (hu.entered d hd), fun d => ?_⟩
        rw [ht.leased, hu.leased]
      · exact hu.trans
    · split
      · exact undisturbed_withdraw ticket e p
      · exact .refl p

theorem polls_pollDial (net : Network ω κ) (now lease : Nat) (wait : Wait) (w : ω)
    (he : (p.site? e).isSome = true) :
    Polls e p (pollDial net now e lease wait p w).1 (pollDial net now e lease wait p w).2.1 := by
  unfold pollDial
  split
  · exact .refl p
  · exact .freePermit p e
  · split
    · refine ⟨rfl, fun d hd => ?_, fun d => ?_⟩
      · rw [isSome_site?_update]
        exact hd
      · rw [site_update p _ he]
        split <;> rfl
    · exact .freePermit p e

theorem polls_poll (net : Network ω κ) (now : Nat) (a : Acquisition) (w : ω)
    (he : (p.site? e).isSome = true) :
    Polls e p (a.poll net now e p w).1 (a.poll net now e p w).2.1 := by
  cases a with
  | waiting ticket deadline => exact polls_pollPermit net now ticket deadline w he
  | dialing lease wait => exact polls_pollDial net now lease wait w he

end Acquisition

/-! ## What stays the same whoever uses the pool -/

/-- The configuration, the next ticket, the event loop, and whether the pool is closed. -/
structure Pool.Constant (p q : Pool κ) : Prop where
  config : q.config = p.config
  nextTicket : q.nextTicket = p.nextTicket
  eventLoop : q.eventLoop = p.eventLoop
  closed : q.closed = p.closed

section Constant

variable {net : Network ω κ} {p q : Pool κ} {w v : ω}

theorem Acquisition.constant_drop (a : Acquisition) (e : Endpoint) (p : Pool κ) :
    p.Constant (a.drop e p) := by
  cases a <;> exact ⟨rfl, rfl, rfl, rfl⟩

theorem Acquisition.constant_poll {now : Nat} {e : Endpoint} {a : Acquisition} {r : Acquired κ}
    (ha : a.poll net now e p w = (r, q, v)) : p.Constant q := by
  obtain rfl : (a.poll net now e p w).2.1 = q := by rw [ha]
  cases a with
  | waiting ticket deadline =>
    dsimp only [poll, pollPermit, proceed]
    split
    · exact ⟨rfl, rfl, rfl, rfl⟩
    · split
      · split <;> exact ⟨rfl, rfl, rfl, rfl⟩
      · split <;> exact ⟨rfl, rfl, rfl, rfl⟩
  | dialing lease wait =>
    dsimp only [poll, pollDial]
    split
    · exact ⟨rfl, rfl, rfl, rfl⟩
    · exact ⟨rfl, rfl, rfl, rfl⟩
    · split <;> exact ⟨rfl, rfl, rfl, rfl⟩

theorem Pool.constant_release {l : Lease κ} {result : Except Error Unit}
    (hl : p.release net l w = (result, q, v)) : p.Constant q := by
  rw [release_eq] at hl
  split at hl
  · split at hl <;> cases hl <;> exact ⟨rfl, rfl, rfl, rfl⟩
  · cases hl
    exact ⟨rfl, rfl, rfl, rfl⟩

theorem Pool.constant_discard {l : Lease κ} (hl : p.discard net l w = (q, v)) : p.Constant q := by
  cases hl
  exact ⟨rfl, rfl, rfl, rfl⟩

end Constant

end Courier
