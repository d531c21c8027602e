import Mathlib.Algebra.GroupWithZero.Nat
import Courier.Proofs.Pool.Depot
import Courier.Proofs.Pool.Limit
import Courier.Rehearsal.Stage

/-! # Pools keep within their limit

Each permit is free, granted, or taken up by a lease or a dial, so these two stay within the limit.
Idle connections hold no permit: that they fit in as well is because a dial begins only where none
is idle, and a connection becomes idle in the place of the lease it was on.
-/

namespace Courier

variable {ω κ : Type}

namespace Depot

def leasedAt (d : Depot ω κ) (e : Endpoint) : List Nat :=
  (d.leases.filter (·.endpoint = e)).map (·.id)

def dialsAt (d : Depot ω κ) (e : Endpoint) : Nat :=
  ((d.acquisitions.filter (·.1 = e)).map (·.2.dials)).sum

structure Sound (limit : Nat) (d : Depot ω κ) : Prop where
  within : ∀ e, (d.pool.site e).Within limit (d.leasedAt e) (d.dialsAt e)
  acquiring : ∀ e a, (e, a) ∈ d.acquisitions → (d.pool.site? e).isSome = true
  leased : ∀ l ∈ d.leases, (d.pool.site? l.endpoint).isSome = true

variable {net : Network ω κ} {limit : Nat} {d d' : Depot ω κ} {e : Endpoint}

section Counting

variable {as bs : List (Endpoint × Acquisition)} {ls ms : List (Lease κ)}

theorem dialsAt_self (d' : Depot ω κ) {a : Acquisition} (hd : d.acquisitions = as ++ (e, a) :: bs)
    (hd' : d'.acquisitions = as ++ bs) : d.dialsAt e = d'.dialsAt e + a.dials := by
  simp [dialsAt, hd, hd']
  omega

theorem dialsAt_ne (d' : Depot ω κ) {a : Acquisition} {b : Endpoint} (hb : b ≠ e)
    (hd : d.acquisitions = as ++ (e, a) :: bs) (hd' : d'.acquisitions = as ++ bs) :
    d.dialsAt b = d'.dialsAt b := by
  simp [dialsAt, hd, hd', hb.symm]

theorem leasedAt_self {l : Lease κ} (hd : d.leases = ls ++ l :: ms)
    (hd' : d'.leases = ls ++ ms) :
    (d.leasedAt l.endpoint).Perm (l.id :: d'.leasedAt l.endpoint) := by
  simp [leasedAt, hd, hd']

theorem leasedAt_ne {l : Lease κ} {b : Endpoint} (hb : b ≠ l.endpoint)
    (hd : d.leases = ls ++ l :: ms) (hd' : d'.leases = ls ++ ms) :
    d.leasedAt b = d'.leasedAt b := by
  simp [leasedAt, hd, hd', hb.symm]

end Counting

theorem within_perm {s : Site κ} {ids ids' : List Nat} {n : Nat} (h : s.Within limit ids n)
    (hp : ids.Perm ids') : s.Within limit ids' n where
  permits := hp.length_eq ▸ h.permits
  idle := hp.length_eq ▸ h.idle
  leased := h.leased.trans hp

theorem Sound.settle (h : d.Sound limit) {ids : List Nat} {n : Nat}
    (hs : Pool.Settles limit e ids n d.pool d'.pool) (he : (d'.pool.site? e).isSome = true)
    (hl : ids.Perm (d'.leasedAt e)) (hn : n = d'.dialsAt e)
    (hlo : ∀ b, b ≠ e → d.leasedAt b = d'.leasedAt b)
    (hno : ∀ b, b ≠ e → d.dialsAt b = d'.dialsAt b)
    (ha : ∀ x ∈ d'.acquisitions, x.1 = e ∨ x ∈ d.acquisitions)
    (hm : ∀ l ∈ d'.leases, l.endpoint = e ∨ l ∈ d.leases) : d'.Sound limit where
  within b := by
    by_cases hb : b = e
    · subst hb
      rw [← hn]
      exact within_perm hs.within hl
    · rw [hs.others b hb, ← hlo b hb, ← hno b hb]
      exact h.within b
  acquiring b a hx := by
    rcases ha _ hx with hb | hx
    · rwa [show b = e from hb]
    · exact hs.entered b (h.acquiring b a hx)
  leased l hx := by
    rcases hm l hx with hb | hx
    · rwa [hb]
    · exact hs.entered _ (h.leased l hx)

theorem mem_of_mem_parts {α : Type} {as bs : List α} {a x : α} (hx : x ∈ as ++ bs) :
    x ∈ as ++ a :: bs := by
  rw [List.mem_append] at hx ⊢
  exact hx.imp_right (List.mem_cons_of_mem a)

theorem mem_parts {α : Type} {as bs : List α} {a x : α} (hx : x ∈ as ++ a :: bs) :
    x = a ∨ x ∈ as ++ bs :=
  List.mem_cons.mp (List.perm_middle.mem_iff.mp hx)

section Acquiring

variable {as bs : List (Endpoint × Acquisition)} {a : Acquisition}

theorem Sound.entered (h : d.Sound limit) (hd : d.acquisitions = as ++ (e, a) :: bs) :
    (d.pool.site? e).isSome = true :=
  h.acquiring e a (by simp [hd])

theorem Sound.acquire (h : d.Sound limit) (hd : d.acquisitions = as ++ (e, a) :: bs)
    {r : Acquired κ} {now : Nat} {pool : Pool κ} {world : ω}
    (ha : a.poll net now e d.pool d.world = (r, pool, world)) :
    Pool.Settles limit e (d.leasedAt e ++ r.leases)
      (({ d with acquisitions := as ++ bs } : Depot ω κ).dialsAt e + r.dials) d.pool pool := by
  have hw := h.within e
  rw [dialsAt_self { d with acquisitions := as ++ bs } hd rfl] at hw
  have hs := Acquisition.settles_poll net now a d.world (h.entered hd) hw
  rw [ha] at hs
  exact hs

end Acquiring

section Leasing

variable {ls ms : List (Lease κ)} {l : Lease κ}

theorem Sound.seated (h : d.Sound limit) (hd : d.leases = ls ++ l :: ms) :
    (d.pool.site? l.endpoint).isSome = true :=
  h.leased l (by simp [hd])

theorem Sound.within_lease (h : d.Sound limit) (hd : d.leases = ls ++ l :: ms) :
    (d.pool.site l.endpoint).Within limit
      (l.id :: ({ d with leases := ls ++ ms } : Depot ω κ).leasedAt l.endpoint)
      (d.dialsAt l.endpoint) :=
  within_perm (h.within l.endpoint) (leasedAt_self hd rfl)

end Leasing

theorem Sound.step (h : d.Sound limit) (hs : Step net d d') : d'.Sound limit := by
  cases hs with
  | @begin now e a pool ha =>
    have he := (Acquisition.undisturbed_start ha).2
    refine h.settle (Acquisition.settles_start ha (h.within e)) he (.refl _) ?_ (fun _ _ => rfl)
      (fun b hb => ?_) ?_ fun l hl => .inr hl
    · simp [dialsAt]
    · simp [dialsAt, hb.symm]
    · intro x hx
      rcases List.mem_append.mp hx with hx | hx
      · exact .inr hx
      · exact .inl (congrArg Prod.fst (List.mem_singleton.mp hx))
  | @wait as bs now e a a' pool world hd ha =>
    have hs := h.acquire hd ha
    refine h.settle hs (hs.entered e (h.entered hd)) (by simp [Acquired.leases, leasedAt]) ?_
      (fun _ _ => rfl) (fun b hb => ?_) ?_ fun l hl => .inr hl
    · exact (dialsAt_self _ rfl rfl).symm
    · exact (dialsAt_ne _ hb hd rfl).trans
        (dialsAt_ne { d with acquisitions := as ++ bs } hb rfl rfl).symm
    · intro x hx
      obtain rfl | hx := mem_parts hx
      · exact .inl rfl
      · exact .inr (hd ▸ mem_of_mem_parts hx)
  | @lease as bs now e a l pool world hd ha =>
    have hs := h.acquire hd ha
    have hl : l.endpoint = e := by
      have hq := Acquisition.polls_poll net now a d.world (h.entered hd)
      rw [ha] at hq
      exact hq.1
    refine h.settle hs (hs.entered e (h.entered hd)) (by simp [Acquired.leases, leasedAt, hl]) rfl
      (fun b hb => ?_) (fun b hb => dialsAt_ne _ hb hd rfl) ?_ fun l' hm => ?_
    · simp [leasedAt, hl, hb.symm]
    · exact fun x hx => .inr (hd ▸ mem_of_mem_parts hx)
    · rcases List.mem_append.mp hm with hm | hm
      · exact .inr hm
      · rw [List.mem_singleton.mp hm]
        exact .inl hl
  | @fail as bs now e a error pool world hd ha =>
    have hs := h.acquire hd ha
    refine h.settle hs (hs.entered e (h.entered hd)) (by simp [Acquired.leases, leasedAt]) rfl
      (fun _ _ => rfl) (fun b hb => dialsAt_ne _ hb hd rfl) ?_ fun l hl => .inr hl
    exact fun x hx => .inr (hd ▸ mem_of_mem_parts hx)
  | @leave as bs e a hd =>
    have hw := h.within e
    rw [dialsAt_self { d with acquisitions := as ++ bs } hd rfl] at hw
    have hs := Acquisition.settles_drop a (h.entered hd) hw
    refine h.settle hs (hs.entered e (h.entered hd)) (.refl _) rfl (fun _ _ => rfl)
      (fun b hb => dialsAt_ne _ hb hd rfl) ?_ fun l hl => .inr hl
    exact fun x hx => .inr (hd ▸ mem_of_mem_parts hx)
  | @use as bs l connection world hd =>
    have hs := Pool.settles_of_sites (q := d.pool) rfl rfl (h.within l.endpoint)
    refine h.settle hs (h.seated hd) ?_ rfl (fun b hb => ?_) (fun _ _ => rfl)
      (fun x hx => .inr hx) fun l' hm => ?_
    · simp [leasedAt, hd]
    · simp [leasedAt, hd, hb.symm]
    · obtain rfl | hm := mem_parts hm
      · exact .inl rfl
      · exact .inr (hd ▸ mem_of_mem_parts hm)
  | @release as bs l result pool world hd hl =>
    have hs := Pool.settles_release net d.world (h.seated hd) (h.within_lease hd)
    rw [hl] at hs
    refine h.settle hs (hs.entered _ (h.seated hd)) (.refl _) rfl
      (fun b hb => leasedAt_ne hb hd rfl) (fun _ _ => rfl) (fun x hx => .inr hx) ?_
    exact fun l' hm => .inr (hd ▸ mem_of_mem_parts hm)
  | @discard as bs l pool world hd hl =>
    have hs := Pool.settles_discard net d.world (h.seated hd) (h.within_lease hd)
    rw [hl] at hs
    refine h.settle hs (hs.entered _ (h.seated hd)) (.refl _) rfl
      (fun b hb => leasedAt_ne hb hd rfl) (fun _ _ => rfl) (fun x hx => .inr hx) ?_
    exact fun l' hm => .inr (hd ▸ mem_of_mem_parts hm)
  | @close c pool hc =>
    unfold Closing.start at hc
    split at hc
    · cases hc
      exact ⟨h.within, h.acquiring, h.leased⟩
    · cases hc
      exact ⟨h.within, h.acquiring, h.leased⟩
  | @closeOn as bs c c' pool world hd hc =>
    have hw := fun e => Closing.within_step net c d.pool d.world (h.within e)
    have hs := Closing.isSome_site?_step net c d.pool d.world
    rw [hc] at hw hs
    exact ⟨hw, fun e a hx => (hs e).trans (h.acquiring e a hx),
      fun l hl => (hs _).trans (h.leased l hl)⟩
  | others world => exact ⟨h.within, h.acquiring, h.leased⟩

theorem Steps.sound {d₀ : Depot ω κ} (h : d₀.Sound limit) (hs : Steps net d₀ d) :
    d.Sound limit := by
  induction hs with
  | refl => exact h
  | tail _ hs ih => exact ih.step hs

theorem sound_ofPool {config : PoolConfig} {eventLoop : EventLoop} {p : Pool κ}
    (hp : Pool.start config eventLoop = .ok p) (w : ω) :
    (ofPool p w).Sound config.maxConnections := by
  unfold Pool.start at hp
  split at hp
  · cases hp
  · cases hp
    refine ⟨fun e => Site.within_ofLimit _, ?_, ?_⟩
    · rintro e a ⟨⟩
    · rintro l ⟨⟩

/-- However acquisitions, leases and closings of a pool move, and whatever the network answers: at
each endpoint the leases that are out and the dials under way stay within the limit, and so do they
together with the idle connections. The pool's own figures for the leases are right. -/
theorem connections_within_limit {net : Network ω κ} {config : PoolConfig} {eventLoop : EventLoop}
    {p : Pool κ} (hp : Pool.start config eventLoop = .ok p) {w : ω} {d : Depot ω κ}
    (hs : Steps net (ofPool p w) d) (e : Endpoint) :
    (d.leasedAt e).length + d.dialsAt e ≤ config.maxConnections ∧
      (d.pool.stats e).idle + (d.pool.stats e).leased + d.dialsAt e ≤ config.maxConnections ∧
      (d.pool.stats e).leased = (d.leasedAt e).length := by
  have hw := (hs.sound (sound_ofPool hp w)).within e
  have hl := hw.leased.length_eq
  have hi := hw.idle
  rw [Pool.leased_stats, Pool.idle_stats, hl]
  exact ⟨by omega, hi, rfl⟩

/-- With room for two connections, one is given back while another is being made. -/
theorem connections_within_limit_release_during_dial :
    let config : PoolConfig := { PoolConfig.standard with maxConnections := 2 }
    let e : Endpoint := ⟨.http, "origin", 80⟩
    let d := [Turn.begin 0 e, .poll 0 0, .poll 0 5, .begin 5 e, .poll 0 5, .release 0].foldl
      (take Rehearsal.network)
      (ofPool ⟨config, [], false, 1, 0, .borrowed⟩ { Rehearsal.Stage.empty with dialDelay := 5 })
    (d.pool.stats e).idle = 1 ∧ d.dialsAt e = 1 ∧
      (d.pool.stats e).idle + (d.pool.stats e).leased + d.dialsAt e ≤ 2 := by
  intro config e d
  have hp : Pool.start config .borrowed =
      .ok (⟨config, [], false, 1, 0, .borrowed⟩ : Pool Rehearsal.Line) := rfl
  have hn : (d.pool.stats e).idle = 1 ∧ d.dialsAt e = 1 := by
    constructor
    · decide +kernel
    · decide +kernel
  exact ⟨hn.1, hn.2, (connections_within_limit hp (steps_foldl_take _ _) e).2.1⟩

end Depot

end Courier
