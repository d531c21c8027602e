import Courier.Pool.Closing
import Courier.Proofs.Pool.Site

/-! # The limit of a site

A site stands for leases and dials: with the permits nobody has taken up they make up the limit, and
with the idle connections they do not exceed it. Each operation of the pool says what the sites
stand for after it.
-/

namespace Courier

variable {ω κ : Type}

namespace Permits

def spare (p : Permits) : Nat :=
  p.free + p.granted.length

variable (p : Permits) (ticket : Nat)

theorem spare_request : (p.request ticket).spare = p.spare := by
  unfold request spare
  split
  · simp
    omega
  · rfl

theorem spare_release : p.release.spare = p.spare + 1 := by
  unfold release spare
  split
  · simp
    omega
  · dsimp only
    omega

theorem spare_claim (h : p.isGranted ticket = true) : (p.claim ticket).spare + 1 = p.spare := by
  have hm : ticket ∈ p.granted := List.contains_iff_mem.mp h
  have hp := List.length_pos_of_mem hm
  simp only [claim, spare, List.length_erase_of_mem hm]
  omega

theorem spare_withdraw : (p.withdraw ticket).spare = p.spare := by
  unfold withdraw
  split
  · rw [spare_release, spare_claim p ticket ‹_›]
  · rfl

end Permits

/-! ## One site -/

namespace Site

/-- The site stands for these leases and so many dials: they and the permits nobody has taken up
make up the limit, and with the idle connections they do not exceed it. -/
structure Within (limit : Nat) (leases : List Nat) (dials : Nat) (s : Site κ) : Prop where
  permits : s.permits.spare + leases.length + dials = limit
  idle : s.idle.length + leases.length + dials ≤ limit
  leased : s.leased.Perm leases

variable {limit dials : Nat} {leases : List Nat} {s t : Site κ}

theorem within_ofLimit (limit : Nat) : (Site.ofLimit limit : Site κ).Within limit [] 0 where
  permits := rfl
  idle := Nat.zero_le _
  leased := .refl _

theorem Within.congr (h : s.Within limit leases dials) (hp : t.permits.spare = s.permits.spare)
    (hi : t.idle.length ≤ s.idle.length) (hl : t.leased = s.leased) :
    t.Within limit leases dials where
  permits := hp ▸ h.permits
  idle := by
    have := h.idle
    omega
  leased := hl ▸ h.leased

theorem Within.undial (h : s.Within limit leases (dials + 1)) :
    { s with permits := s.permits.release }.Within limit leases dials where
  permits := by
    have := h.permits
    rw [Permits.spare_release]
    omega
  idle := by
    have := h.idle
    dsimp only
    omega
  leased := h.leased

end Site

/-! ## Acquisitions -/

namespace Acquisition

/-- A dial takes a place from its start to its end. -/
def dials : Acquisition → Nat
  | waiting _ _ => 0
  | dialing _ _ => 1

end Acquisition

namespace Acquired

def dials : Acquired κ → Nat
  | .pending a => a.dials
  | .leased _ => 0
  | .failed _ => 0

def leases : Acquired κ → List Nat
  | .pending _ => []
  | .leased l => [l.id]
  | .failed _ => []

end Acquired

/-! ## Operations at an endpoint -/

namespace Pool

variable {p q r : Pool κ} {e d : Endpoint} {limit n : Nat} {ids : List Nat}

theorem site_congr (hs : q.sites = p.sites) (hc : q.config = p.config) (d : Endpoint) :
    q.site d = p.site d := by
  unfold site site?
  rw [hs, hc]

theorem site_update_kept {P : Site κ → Prop} {f : Site κ → Site κ} (hf : ∀ s, P s → P (f s))
    (h : P (p.site d)) : P ((p.update e f).site d) := by
  unfold site at h ⊢
  rw [site?_update]
  split
  · cases hs : p.site? d with
    | none =>
      rw [hs] at h
      exact h
    | some s =>
      rw [hs] at h
      exact hf s h
  · exact h

theorem site_update_self (f : Site κ → Site κ) (he : (p.site? e).isSome = true) :
    (p.update e f).site e = f (p.site e) := by
  rw [site_update p f he, if_pos rfl]

theorem site_update_ne (p : Pool κ) (f : Site κ → Site κ) (hd : d ≠ e) :
    (p.update e f).site d = p.site d := by
  unfold site
  rw [site?_update, if_neg hd]
  rfl

/-- An operation at one endpoint leaves the others alone, and leaves this one within its limit with
so many leases and dials. -/
structure Settles (limit : Nat) (e : Endpoint) (ids : List Nat) (dials : Nat) (p q : Pool κ) :
    Prop where
  others : ∀ d, d ≠ e → q.site d = p.site d
  entered : ∀ d, (p.site? d).isSome = true → (q.site? d).isSome = true
  within : (q.site e).Within limit ids dials

theorem Settles.trans {ids' : List Nat} {n' : Nat} (h : Settles limit e ids n p q)
    (h' : Settles limit e ids' n' q r) : Settles limit e ids' n' p r where
  others d hd := (h'.others d hd).trans (h.others d hd)
  entered d hd := h'.entered d (h.entered d hd)
  within := h'.within

theorem settles_of_sites (hs : q.sites = p.sites) (hc : q.config = p.config)
    (h : (p.site e).Within limit ids n) : Settles limit e ids n p q where
  others d _ := site_congr hs hc d
  entered d hd := by
    unfold site? at hd ⊢
    rwa [hs]
  within := by rwa [site_congr hs hc]

theorem settles_update {f : Site κ → Site κ} (he : (p.site? e).isSome = true)
    (hf : (f (p.site e)).Within limit ids n) : Settles limit e ids n p (p.update e f) where
  others d hd := site_update_ne p f hd
  entered d hd := (isSome_site?_update p e d f).trans hd
  within := by
    rw [site_update_self f he]
    exact hf

theorem settles_enter (h : (p.site e).Within limit ids n) :
    Settles limit e ids n p (p.enter e) where
  others d _ := site_enter p e d
  entered d hd := by rw [isSome_site?_enter, hd, Bool.true_or]
  within := by rwa [site_enter]

theorem settles_freePermit (he : (p.site? e).isSome = true)
    (h : (p.site e).Within limit ids (n + 1)) : Settles limit e ids n p (p.freePermit e) := by
  unfold freePermit onPermits
  exact settles_update he h.undial

end Pool

namespace Acquisition

open Pool

variable {p q : Pool κ} {e : Endpoint} {limit n : Nat} {ids : List Nat}

theorem settles_start {now : Nat} {a : Acquisition} (ha : start now e p = .ok (a, q))
    (h : (p.site e).Within limit ids n) : Settles limit e ids (n + a.dials) p q := by
  unfold start at ha
  split at ha
  · cases ha
  · cases ha
    have hn : Settles limit e ids n p { p.enter e with nextTicket := p.nextTicket + 1 } :=
      (settles_enter h).trans (settles_of_sites rfl rfl (settles_enter h).within)
    have he : ((p.enter e).site? e).isSome = true := by simp [isSome_site?_enter]
    refine hn.trans (settles_update he ?_)
    exact hn.within.congr (Permits.spare_request ..) (Nat.le_refl _) rfl

theorem settles_withdraw (ticket : Nat) (he : (p.site? e).isSome = true)
    (h : (p.site e).Within limit ids n) : Settles limit e ids n p (withdraw ticket e p) := by
  unfold withdraw
  exact settles_update he (h.congr (Permits.spare_withdraw ..) (Nat.le_refl _) rfl)

theorem settles_drop (a : Acquisition) (he : (p.site? e).isSome = true)
    (h : (p.site e).Within limit ids (n + a.dials)) : Settles limit e ids n p (a.drop e p) := by
  cases a with
  | waiting ticket deadline => exact settles_withdraw ticket he h
  | dialing lease wait => exact settles_freePermit he h

/-- What a look at an acquisition comes to: it is among the dials or not, or it is a lease. -/
def SettlesWith (limit : Nat) (e : Endpoint) (ids : List Nat) (n : Nat) (p : Pool κ)
    (r : Acquired κ) (q : Pool κ) : Prop :=
  Settles limit e (ids ++ r.leases) (n + r.dials) p q

theorem settlesWith_failed {error : Error} (h : Settles limit e ids n p q) :
    SettlesWith limit e ids n p (.failed error) q := by
  simpa [SettlesWith, Acquired.leases, Acquired.dials] using h

theorem settlesWith_pending {a : Acquisition} (h : Settles limit e ids (n + a.dials) p q) :
    SettlesWith limit e ids n p (.pending a) q := by
  simpa [SettlesWith, Acquired.leases, Acquired.dials] using h

/-- With a permit just taken up there is room for one more: for an idle connection that is put on
lease, or for a dial where nothing is idle. -/
theorem settles_proceed (net : Network ω κ) (now : Nat) (w : ω) (he : (p.site? e).isSome = true)
    (hp : (p.site e).permits.spare + ids.length + n + 1 = limit)
    (hi : (p.site e).idle.length + ids.length + n ≤ limit) (hl : (p.site e).leased.Perm ids) :
    SettlesWith limit e ids n p (proceed net now e p w).1 (proceed net now e p w).2 := by
  unfold proceed
  dsimp only
  split
  · rename_i connection rest hr
    have hr : (p.site e).idle = connection :: rest := hr
    rw [hr, List.length_cons] at hi
    have hs : Settles limit e (ids ++ [p.nextLease]) n p
        (({ p with nextLease := p.nextLease + 1 } : Pool κ).update e fun s =>
          { s with
            idle := rest, reused := s.reused + 1, leased := s.leased ++ [p.nextLease] }) := by
      refine ⟨fun d hd => site_update_ne { p with nextLease := p.nextLease + 1 } _ hd,
        fun d hd => (isSome_site?_update _ e d _).trans hd, ?_⟩
      rw [site_update_self (p := { p with nextLease := p.nextLease + 1 }) _ he]
      refine ⟨?_, ?_, hl.append_right _⟩
      · change (p.site e).permits.spare + _ + _ = _
        rw [List.length_append, List.length_singleton]
        omega
      · change rest.length + _ + _ ≤ _
        rw [List.length_append, List.length_singleton]
        omega
    exact hs
  · rename_i hr
    have hr : (p.site e).idle = [] := hr
    refine settlesWith_pending ⟨fun _ _ => rfl, fun _ h => h, ?_, ?_, hl⟩
    · change (p.site e).permits.spare + _ + _ = _
      simp only [dials]
      omega
    · change (p.site e).idle.length + _ + _ ≤ _
      rw [hr]
      simp only [dials, List.length_nil]
      omega

theorem settles_pollPermit (net : Network ω κ) (now ticket deadline : Nat) (w : ω)
    (he : (p.site? e).isSome = true) (h : (p.site e).Within limit ids n) :
    SettlesWith limit e ids n p (pollPermit net now e ticket deadline p w).1
      (pollPermit net now e ticket deadline p w).2 := by
  unfold pollPermit
  dsimp only
  split
  · exact settlesWith_failed (settles_withdraw ticket he h)
  · split
    · rename_i hg
      have hc := Permits.spare_claim _ _ hg
      let taken := fun s : Site κ =>
        { s with permits := s.permits.claim ticket, pending := s.pending - 1 }
      have he' := (isSome_site?_update p e e taken).trans he
      have hs := site_update_self taken he
      have hp : ((p.update e taken).site e).permits.spare + ids.length + n + 1 = limit := by
        have := h.permits
        rw [hs]
        dsimp only [taken]
        omega
      have hi : ((p.update e taken).site e).idle.length + ids.length + n ≤ limit := by
        rw [hs]
        exact h.idle
      have hl : ((p.update e taken).site e).leased.Perm ids := by
        rw [hs]
        exact h.leased
      have hp := settles_proceed net now w he' hp hi hl
      refine ⟨fun d hd => (hp.others d hd).trans (site_update_ne p _ hd), fun d hd => ?_,
        hp.within⟩
      exact hp.entered d ((isSome_site?_update p e d _).trans hd)
    · split
      · exact settlesWith_failed (settles_withdraw ticket he h)
      · exact settlesWith_pending (settles_of_sites rfl rfl h)

theorem settles_pollDial (net : Network ω κ) (now lease : Nat) (wait : Wait) (w : ω)
    (he : (p.site? e).isSome = true) (h : (p.site e).Within limit ids (n + 1)) :
    SettlesWith limit e ids n p (pollDial net now e lease wait p w).1
      (pollDial net now e lease wait p w).2.1 := by
  unfold pollDial
  split
  · exact settlesWith_pending (settles_of_sites rfl rfl h)
  · exact settlesWith_failed (settles_freePermit he h)
  · split
    · have hs : Settles limit e (ids ++ [lease]) n p (p.update e fun s =>
          { s with created := s.created + 1, leased := s.leased ++ [lease] }) := by
        have hp := h.permits
        have hi := h.idle
        refine settles_update he ⟨?_, ?_, h.leased.append_right _⟩
        · dsimp only
          rw [List.length_append, List.length_singleton]
          omega
        · dsimp only
          rw [List.length_append, List.length_singleton]
          omega
      exact hs
    · exact settlesWith_failed (settles_freePermit he h)

theorem settles_poll (net : Network ω κ) (now : Nat) (a : Acquisition) (w : ω)
    (he : (p.site? e).isSome = true) (h : (p.site e).Within limit ids (n + a.dials)) :
    SettlesWith limit e ids n p (a.poll net now e p w).1 (a.poll net now e p w).2.1 := by
  cases a with
  | waiting ticket deadline => exact settles_pollPermit net now ticket deadline w he h
  | dialing lease wait => exact settles_pollDial net now lease wait w he h

end Acquisition

/-! ## Settling a lease -/

namespace Pool

variable {p : Pool κ} {l : Lease κ} {limit n : Nat} {ids : List Nat}

theorem settles_returned {f : Site κ → Site κ} (he : (p.site? l.endpoint).isSome = true)
    (h : (p.site l.endpoint).Within limit (l.id :: ids) n)
    (hp : ∀ s, (f s).permits = s.permits) (hi : ∀ s, (f s).idle.length ≤ s.idle.length + 1)
    (hl : ∀ s, (f s).leased = s.leased.erase l.id) :
    Settles limit l.endpoint ids n p ((p.update l.endpoint f).freePermit l.endpoint) := by
  have he' := (isSome_site?_update p l.endpoint l.endpoint f).trans he
  have hs := site_update_self f he
  have hf : Settles limit l.endpoint ids n (p.update l.endpoint f)
      ((p.update l.endpoint f).freePermit l.endpoint) := by
    unfold freePermit onPermits
    refine settles_update he' ?_
    rw [hs]
    have hpermits := h.permits
    have hidle := h.idle
    have hkept := hi (p.site l.endpoint)
    rw [List.length_cons] at hpermits hidle
    refine ⟨?_, ?_, ?_⟩
    · dsimp only
      rw [Permits.spare_release, hp]
      omega
    · dsimp only
      omega
    · dsimp only
      rw [hl]
      simpa using h.leased.erase l.id
  exact ⟨fun d hd => (hf.others d hd).trans (site_update_ne p f hd),
    fun d hd => hf.entered d ((isSome_site?_update p _ d f).trans hd), hf.within⟩

theorem settles_release (net : Network ω κ) (w : ω) (he : (p.site? l.endpoint).isSome = true)
    (h : (p.site l.endpoint).Within limit (l.id :: ids) n) :
    Settles limit l.endpoint ids n p (p.release net l w).2.1 := by
  have hm : l.id ∈ (p.site l.endpoint).leased := h.leased.mem_iff.mpr (List.mem_cons_self ..)
  rw [release_eq, if_pos (List.contains_iff_mem.mpr hm)]
  split
  · exact settles_returned he h (fun _ => rfl) (fun _ => Nat.le_refl _) fun _ => rfl
  · exact settles_returned he h (fun _ => rfl) (fun _ => Nat.le_succ _) fun _ => rfl

theorem settles_discard (net : Network ω κ) (w : ω) (he : (p.site? l.endpoint).isSome = true)
    (h : (p.site l.endpoint).Within limit (l.id :: ids) n) :
    Settles limit l.endpoint ids n p (p.discard net l w).1 :=
  settles_returned he h (fun _ => rfl) (fun _ => Nat.le_succ _) fun _ => rfl

end Pool

theorem Closing.within_step (net : Network ω κ) (c : Closing κ) (p : Pool κ) (w : ω)
    {d : Endpoint} {limit n : Nat} {ids : List Nat} (h : (p.site d).Within limit ids n) :
    ((c.step net p w).2.1.site d).Within limit ids n := by
  unfold step
  split
  · exact h
  · exact h
  · exact Pool.site_update_kept (fun s hs => hs.congr rfl (Nat.zero_le _) rfl) h
  · exact Pool.site_update_kept (fun s hs => hs.congr rfl (Nat.le_refl _) rfl) h
  · exact h

theorem Closing.isSome_site?_step (net : Network ω κ) (c : Closing κ) (p : Pool κ) (w : ω)
    (d : Endpoint) : ((c.step net p w).2.1.site? d).isSome = (p.site? d).isSome := by
  unfold step
  split <;> first | rfl | exact Pool.isSome_site?_update ..

end Courier
