import Courier.Proofs.Pool.Accounting

/-! # Pools between two operations

Two operations look whether the pool is open and act on it later: an acquisition that has found it
open goes on to queue up, and a connection that is given back goes on to be kept. Anyone else may
use the pool, or close it, in between. A dock is a depot with all that is under way in this sense.
-/

namespace Courier

variable {ω κ : Type}

/-! ## Connections on their way back -/

namespace Return

inductive Stage
  | checkedIn
  | kept
  | rejected
  | settled
  deriving DecidableEq

end Return

structure Return (κ : Type) where
  lease : Lease κ
  stage : Return.Stage

namespace Return

variable {net : Network ω κ} {p q : Pool κ} {l : Lease κ} {w v : ω} {r : Return κ}
  {r' : Option (Return κ)}

/-- The next step; nothing is left to be done when the permit is free. -/
def advance (net : Network ω κ) (r : Return κ) (p : Pool κ) (w : ω) :
    Option (Return κ) × Pool κ × ω :=
  match r.stage with
  | .checkedIn => (some ⟨r.lease, if p.keeps net r.lease then .kept else .rejected⟩, p, w)
  | .kept => (some ⟨r.lease, .settled⟩, p.shelve r.lease, w)
  | .rejected => (some ⟨r.lease, .settled⟩, p.retire r.lease, p.spawnClose net r.lease w)
  | .settled => (none, p.freePermit r.lease.endpoint, w)

/-- With nothing in between this is what a release does. -/
theorem advance_checkIn (hl : l.id ∈ (p.site l.endpoint).leased) :
    ∃ r r' q, advance net ⟨l, .checkedIn⟩ (p.checkIn l) w = (some r, p.checkIn l, w) ∧
      r.advance net (p.checkIn l) w = (some r', q, (p.release net l w).2.2) ∧
      r'.advance net q (p.release net l w).2.2 =
        (none, (p.release net l w).2.1, (p.release net l w).2.2) := by
  unfold Pool.release
  rw [if_pos (List.contains_iff_mem.mpr hl)]
  dsimp only
  cases hk : (p.checkIn l).keeps net l with
  | true => exact ⟨⟨l, .kept⟩, ⟨l, .settled⟩, _, by simp [advance, hk], rfl, rfl⟩
  | false => exact ⟨⟨l, .rejected⟩, ⟨l, .settled⟩, _, by simp [advance, hk], rfl, rfl⟩

theorem constant_advance (hr : r.advance net p w = (r', q, v)) : p.Constant q := by
  obtain ⟨l, stage⟩ := r
  cases stage <;> cases hr <;> exact ⟨rfl, rfl, rfl, rfl⟩

theorem isSome_site?_advance (hr : r.advance net p w = (r', q, v)) (e : Endpoint) :
    (q.site? e).isSome = (p.site? e).isSome := by
  obtain ⟨l, stage⟩ := r
  cases stage with
  | checkedIn =>
    cases hr
    rfl
  | _ =>
    cases hr
    exact Pool.isSome_site?_update ..

theorem leased_advance (hr : r.advance net p w = (r', q, v)) (e : Endpoint) :
    (q.site e).leased = (p.site e).leased := by
  obtain ⟨l, stage⟩ := r
  cases stage with
  | checkedIn =>
    cases hr
    rfl
  | _ =>
    cases hr
    exact Pool.site_update_of_same (·.leased) p l.endpoint e fun _ => rfl

theorem lease_advance (hr : r.advance net p w = (r', q, v)) {r'' : Return κ}
    (hm : r'' ∈ r'.toList) : r''.lease = r.lease := by
  obtain ⟨l, stage⟩ := r
  cases stage <;> cases hr <;> simp_all

end Return

/-! ## What is on the books

That the lists of a depot are right does not depend on permits: it also holds while connections are
on their way back.
-/

namespace Closing.Moves

variable {net : Network ω κ} {p q : Pool κ} {w v : ω} {c c' : Closing κ}

theorem entered (h : Moves net p w c c' q v) (e : Endpoint) (he : (p.site? e).isSome = true) :
    (q.site? e).isSome = true := by
  cases h with
  | empties hq => exact hq.entered e he
  | counts hq => exact hq.entered e he
  | _ => exact he

theorem closed (h : Moves net p w c c' q v) : q.closed = p.closed := by
  cases h with
  | empties hq => exact hq.closed
  | counts hq => exact hq.closed
  | _ => rfl

theorem leased (h : Moves net p w c c' q v) (e : Endpoint) :
    (q.site e).leased = (p.site e).leased := by
  cases h with
  | empties hq => exact hq.same (·.leased) rfl e
  | counts hq => exact hq.same (·.leased) rfl e
  | _ => rfl

theorem endpoints_subset (h : Moves net p w c c' q v) : c'.endpoints ⊆ c.endpoints := by
  cases h with
  | ends => exact List.nil_subset _
  | counts hq => exact List.subset_cons_self ..
  | _ => exact List.Subset.refl _

end Closing.Moves

namespace Depot

/-- The pool has a site for whatever goes on, and lists the leases that are out. -/
structure Listed (d : Depot ω κ) : Prop where
  acquiring : ∀ x ∈ d.acquisitions, (d.pool.site? x.1).isSome = true
  leased : ∀ e, (d.pool.site e).leased.Perm (d.leasedAt e)
  closing : ∀ c ∈ d.closings, ∀ e ∈ c.endpoints, (d.pool.site? e).isSome = true
  unclosed : d.pool.closed = false → d.closings = []

variable {net : Network ω κ} {d d' : Depot ω κ} {e : Endpoint}

theorem listed_ofPool {config : PoolConfig} {eventLoop : EventLoop} {p : Pool κ}
    (hp : Pool.start config eventLoop = .ok p) (w : ω) : (ofPool p w).Listed := by
  have hs := sound_ofPool hp w
  refine ⟨?_, fun e => (hs.within e).leased, ?_, fun _ => rfl⟩
  · rintro x ⟨⟩
  · rintro c ⟨⟩

section Settling

variable {pool : Pool κ} {world : ω} {acquisitions : List (Endpoint × Acquisition)}
  {leases : List (Lease κ)}

theorem Listed.settle (h : d.Listed) (hc : pool.closed = d.pool.closed)
    (he : ∀ e, (d.pool.site? e).isSome = true → (pool.site? e).isSome = true)
    (ha : ∀ x ∈ acquisitions, x ∈ d.acquisitions ∨ (pool.site? x.1).isSome = true)
    (hl : ∀ e, (pool.site e).leased.Perm (({ d with leases } : Depot ω κ).leasedAt e)) :
    ({ d with pool, world, acquisitions, leases } : Depot ω κ).Listed where
  acquiring x hx := (ha x hx).elim (fun hm => he _ (h.acquiring x hm)) id
  leased := hl
  closing c hm e hn := he e (h.closing c hm e hn)
  unclosed ho := h.unclosed (hc.symm.trans ho)

theorem Listed.undisturbed (h : d.Listed) (hu : d.pool.Undisturbed pool)
    (hc : pool.closed = d.pool.closed)
    (ha : ∀ x ∈ acquisitions, x ∈ d.acquisitions ∨ (pool.site? x.1).isSome = true) :
    ({ d with pool, world, acquisitions } : Depot ω κ).Listed :=
  h.settle hc hu.entered ha fun e => (hu.leased e).symm ▸ h.leased e

end Settling

section Leasing

variable {as bs : List (Endpoint × Acquisition)} {a : Acquisition} {ls ms : List (Lease κ)}
  {l : Lease κ} {pool : Pool κ} {world : ω}

theorem Listed.entered (h : d.Listed) (hd : d.acquisitions = as ++ (e, a) :: bs) :
    (d.pool.site? e).isSome = true :=
  h.acquiring (e, a) (by simp [hd])

theorem Listed.mem_leased (h : d.Listed) (hd : d.leases = ls ++ l :: ms) :
    l.id ∈ (d.pool.site l.endpoint).leased := by
  apply (h.leased l.endpoint).symm.subset
  simp [leasedAt, hd]

theorem Listed.taken (h : d.Listed) (ht : Pool.Taken d.pool pool l)
    (hc : pool.closed = d.pool.closed) (hd : d.acquisitions = as ++ (e, a) :: bs) :
    ({ d with pool, world, acquisitions := as ++ bs, leases := d.leases ++ [l] } :
      Depot ω κ).Listed := by
  refine h.settle hc ht.entered (fun x hx => .inl (hd ▸ mem_of_mem_parts hx)) fun b => ?_
  have hb := h.leased b
  rw [ht.leased]
  split
  · rename_i he
    subst he
    simpa [leasedAt] using hb.append_right [l.id]
  · rename_i he
    simpa [leasedAt, Ne.symm he] using hb

theorem Listed.returned (h : d.Listed) (hr : Pool.Returned d.pool pool l)
    (hc : pool.closed = d.pool.closed) (hd : d.leases = ls ++ l :: ms) :
    ({ d with pool, world, leases := ls ++ ms } : Depot ω κ).Listed := by
  refine h.settle hc hr.entered (fun x hx => .inl hx) fun b => ?_
  have hb := h.leased b
  rw [hr.leased]
  split
  · rename_i he
    subst he
    have hp : (d.leasedAt l.endpoint).Perm
        (l.id :: ({ d with leases := ls ++ ms } : Depot ω κ).leasedAt l.endpoint) :=
      leasedAt_self hd rfl
    simpa using (hb.trans hp).erase l.id
  · rename_i he
    have hn : d.leasedAt b = ({ d with leases := ls ++ ms } : Depot ω κ).leasedAt b :=
      leasedAt_ne he hd rfl
    exact hn ▸ hb

end Leasing

theorem Listed.step (h : d.Listed) (hs : Step net d d') :
    d'.Listed ∧ ∀ e, (d.pool.site? e).isSome = true → (d'.pool.site? e).isSome = true := by
  cases hs with
  | @begin now e a pool hx =>
    have hu := Acquisition.undisturbed_start hx
    have hc := Acquisition.closed_start hx
    refine ⟨h.undisturbed hu.1 hc fun x hm => ?_, hu.1.entered⟩
    refine (List.mem_append.mp hm).imp_right fun hm => ?_
    obtain rfl := List.mem_singleton.mp hm
    exact hu.2
  | @wait as bs now e a a' pool world hd hx =>
    have hu := Acquisition.polls_poll net now a d.world (h.entered hd)
    rw [hx] at hu
    refine ⟨h.undisturbed hu (Acquisition.constant_poll hx).closed fun x hm => ?_, hu.entered⟩
    obtain rfl | hm := mem_parts hm
    · exact .inr (hu.entered _ (h.entered hd))
    · exact .inl (hd ▸ mem_of_mem_parts hm)
  | @lease as bs now e a l pool world hd hx =>
    have ht := Acquisition.polls_poll net now a d.world (h.entered hd)
    rw [hx] at ht
    exact ⟨h.taken ht.2 (Acquisition.constant_poll hx).closed hd, ht.2.entered⟩
  | @fail as bs now e a error pool world hd hx =>
    have hu := Acquisition.polls_poll net now a d.world (h.entered hd)
    rw [hx] at hu
    refine ⟨h.undisturbed hu (Acquisition.constant_poll hx).closed ?_, hu.entered⟩
    exact fun x hm => .inl (hd ▸ mem_of_mem_parts hm)
  | @leave as bs e a hd =>
    have hu := Acquisition.undisturbed_drop a e d.pool
    refine ⟨h.undisturbed hu (Acquisition.constant_drop a e d.pool).closed ?_, hu.entered⟩
    exact fun x hm => .inl (hd ▸ mem_of_mem_parts hm)
  | @use as bs l connection world hd =>
    refine ⟨h.settle rfl (fun _ he => he) (fun x hm => .inl hm) fun e => ?_, fun _ he => he⟩
    have he := h.leased e
    unfold leasedAt at he ⊢
    rw [hd] at he
    by_cases hl : l.endpoint = e
    · simpa [hl] using he
    · simpa [hl] using he
  | @release as bs l result pool world hd hx =>
    have hr := (Pool.release_cases net (w := d.world) (h.mem_leased hd)).2
    rw [hx] at hr
    exact ⟨h.returned hr (Pool.constant_release hx).closed hd, hr.entered⟩
  | @discard as bs l pool world hd hx =>
    have hr := Pool.returned_discard net d.world (h.mem_leased hd)
    rw [hx] at hr
    exact ⟨h.returned hr (Pool.constant_discard hx).closed hd, hr.entered⟩
  | @close c pool hx =>
    have hn := Closing.entered_start h.closing hx
    obtain ⟨hc, rfl, rfl⟩ | ⟨-, rfl, rfl⟩ := Closing.start_cases hx
    · exact ⟨⟨h.acquiring, h.leased, hn, fun ho => nomatch hc.symm.trans ho⟩, fun _ he => he⟩
    · exact ⟨⟨h.acquiring, h.leased, hn, nofun⟩, fun _ he => he⟩
  | @closeOn as bs c c' pool world hd hx =>
    have hk := Closing.moves_step net d.world (h.closing c (by simp [hd]))
    rw [hx] at hk
    have hopen : d.pool.closed ≠ false := fun ho => by simpa [hd] using h.unclosed ho
    refine ⟨⟨fun x hm => hk.entered _ (h.acquiring x hm), fun e => ?_, fun b hm e he => ?_,
      fun ho => absurd (hk.closed ▸ ho) hopen⟩, hk.entered⟩
    · exact (hk.leased e).symm ▸ h.leased e
    · apply hk.entered
      obtain rfl | hm := mem_parts hm
      · exact h.closing c (by simp [hd]) e (hk.endpoints_subset he)
      · exact h.closing b (hd ▸ mem_of_mem_parts hm) e he
  | others world => exact ⟨⟨h.acquiring, h.leased, h.closing, h.unclosed⟩, fun _ he => he⟩

end Depot

/-! ## Docks -/

/-- A depot, with the endpoints for which an acquisition is about to queue up and the connections
on their way back. -/
structure Dock (ω κ : Type) where
  depot : Depot ω κ
  entering : List Endpoint
  returns : List (Return κ)

namespace Dock

def ofPool (p : Pool κ) (w : ω) : Dock ω κ := ⟨.ofPool p w, [], []⟩

/-- Calls for the pool to be closed. -/
def close (k : Dock ω κ) : Dock ω κ :=
  let (c, pool) := Closing.start k.depot.pool
  { k with depot := { k.depot with pool, closings := k.depot.closings ++ [c] } }

/-- How many connections of an endpoint are about to become idle. -/
def keptAt (k : Dock ω κ) (e : Endpoint) : Nat :=
  k.returns.countP fun r => r.lease.endpoint = e && r.stage = .kept

inductive Step (net : Network ω κ) : Dock ω κ → Dock ω κ → Prop

  | depot {k : Dock ω κ} {d : Depot ω κ} (hs : Depot.Step net k.depot d) :
      Step net k { k with depot := d }

  | enter {k : Dock ω κ} (e : Endpoint) (ho : k.depot.pool.closed = false) :
      Step net k { k with entering := k.entering ++ [e] }

  | queue {k : Dock ω κ} {before behind : List Endpoint} {now : Nat} {e : Endpoint}
      {a : Acquisition} {pool : Pool κ} (hk : k.entering = before ++ e :: behind)
      (ha : Acquisition.enqueue now e k.depot.pool = (a, pool)) :
      Step net k
        { k with
          depot := { k.depot with pool, acquisitions := k.depot.acquisitions ++ [(e, a)] }
          entering := before ++ behind }

  | checkIn {k : Dock ω κ} {before behind : List (Lease κ)} {l : Lease κ}
      (hk : k.depot.leases = before ++ l :: behind)
      (hl : l.id ∈ (k.depot.pool.site l.endpoint).leased) :
      Step net k
        { k with
          depot := { k.depot with pool := k.depot.pool.checkIn l, leases := before ++ behind }
          returns := k.returns ++ [⟨l, .checkedIn⟩] }

  | giveBack {k : Dock ω κ} {before behind : List (Return κ)} {r : Return κ}
      {r' : Option (Return κ)} {pool : Pool κ} {world : ω}
      (hk : k.returns = before ++ r :: behind)
      (hr : r.advance net k.depot.pool k.depot.world = (r', pool, world)) :
      Step net k
        { k with
          depot := { k.depot with pool, world }, returns := before ++ (r'.toList ++ behind) }

inductive Steps (net : Network ω κ) (k₀ : Dock ω κ) : Dock ω κ → Prop

  | refl : Steps net k₀ k₀

  | tail {k k' : Dock ω κ} : Steps net k₀ k → Step net k k' → Steps net k₀ k'

variable {net : Network ω κ} {k k' k'' : Dock ω κ}

theorem Step.single (hs : Step net k k') : Steps net k k' :=
  .tail .refl hs

theorem Steps.trans (hs : Steps net k k') (hs' : Steps net k' k'') : Steps net k k'' := by
  induction hs' with
  | refl => exact hs
  | tail _ h ih => exact .tail ih h

theorem steps_close (k : Dock ω κ) : Steps net k k.close :=
  (Step.depot (.close rfl)).single

theorem steps_depot {d : Depot ω κ} (hs : Depot.Steps net k.depot d) :
    Steps net k { k with depot := d } := by
  induction hs with
  | refl => exact .refl
  | tail _ h ih => exact .tail ih (.depot h)

/-- The pool has a site for all that is under way. -/
structure Listed (k : Dock ω κ) : Prop where
  depot : k.depot.Listed
  returning : ∀ r ∈ k.returns, (k.depot.pool.site? r.lease.endpoint).isSome = true

theorem listed_ofPool {config : PoolConfig} {eventLoop : EventLoop} {p : Pool κ}
    (hp : Pool.start config eventLoop = .ok p) (w : ω) : (ofPool p w).Listed := by
  refine ⟨Depot.listed_ofPool hp w, ?_⟩
  rintro r ⟨⟩

theorem Listed.step (h : k.Listed) (hs : Step net k k') : k'.Listed := by
  cases hs with
  | depot hs =>
    obtain ⟨hd, he⟩ := h.depot.step hs
    exact ⟨hd, fun r hr => he _ (h.returning r hr)⟩
  | enter e ho => exact ⟨h.depot, h.returning⟩
  | @queue as bs now e a pool hk hx =>
    have hu := Acquisition.undisturbed_enqueue now e k.depot.pool
    have hc := (Acquisition.puts_enqueue now e k.depot.pool).closed
    rw [hx] at hu hc
    refine ⟨h.depot.undisturbed hu.1 hc fun x hm => ?_, fun r hr => hu.1.entered _ (h.returning r hr)⟩
    refine (List.mem_append.mp hm).imp_right fun hm => ?_
    obtain rfl := List.mem_singleton.mp hm
    exact hu.2
  | @checkIn as bs l hk hl =>
    have hr : k.depot.pool.Returned (k.depot.pool.checkIn l) l := .update hl fun _ => rfl
    refine ⟨h.depot.returned hr rfl hk, fun r hm => hr.entered _ ?_⟩
    obtain hm | hm := List.mem_append.mp hm
    · exact h.returning r hm
    · rw [List.mem_singleton.mp hm]
      exact Pool.isSome_of_mem_leased hl
  | @giveBack as bs r r' pool world hk hr =>
    have he (e : Endpoint) (hn : (k.depot.pool.site? e).isSome = true) :
        (pool.site? e).isSome = true := (Return.isSome_site?_advance hr e).trans hn
    refine ⟨h.depot.settle (Return.constant_advance hr).closed he (fun x hx => .inl hx) fun e => ?_,
      fun r'' hm => he _ ?_⟩
    · exact (Return.leased_advance hr e).symm ▸ h.depot.leased e
    · simp only [List.mem_append] at hm
      obtain hm | hm | hm := hm
      · exact h.returning r'' (by simp [hk, hm])
      · rw [Return.lease_advance hr hm]
        exact h.returning r (by simp [hk])
      · exact h.returning r'' (by simp [hk, hm])

theorem Steps.listed (h : k.Listed) (hs : Steps net k k') : k'.Listed := by
  induction hs with
  | refl => exact h
  | tail _ hs ih => exact ih.step hs

/-! ## Schedules -/

inductive Turn
  | depot (t : Depot.Turn)
  | enter (e : Endpoint)
  | queue (place now : Nat)
  | checkIn (place : Nat)
  | giveBack (place : Nat)

/-- Takes a turn; it passes if there is nobody to take it. -/
def take (net : Network ω κ) (k : Dock ω κ) : Turn → Dock ω κ
  | .depot t => { k with depot := k.depot.take net t }
  | .enter e =>
    if k.depot.pool.closed = false then { k with entering := k.entering ++ [e] } else k
  | .queue place now =>
    match k.entering[place]? with
    | some e =>
      let (a, pool) := Acquisition.enqueue now e k.depot.pool
      { k with
        depot := { k.depot with pool, acquisitions := k.depot.acquisitions ++ [(e, a)] }
        entering := k.entering.take place ++ k.entering.drop (place + 1) }
    | none => k
  | .checkIn place =>
    match k.depot.leases[place]? with
    | some l =>
      if l.id ∈ (k.depot.pool.site l.endpoint).leased then
        { k with
          depot :=
            { k.depot with
              pool := k.depot.pool.checkIn l
              leases := k.depot.leases.take place ++ k.depot.leases.drop (place + 1) }
          returns := k.returns ++ [⟨l, .checkedIn⟩] }
      else k
    | none => k
  | .giveBack place =>
    match k.returns[place]? with
    | some r =>
      let (r, pool, world) := r.advance net k.depot.pool k.depot.world
      { k with
        depot := { k.depot with pool, world }
        returns := k.returns.take place ++ (r.toList ++ k.returns.drop (place + 1)) }
    | none => k

theorem steps_take (t : Turn) (k : Dock ω κ) : Steps net k (k.take net t) := by
  cases t with
  | depot t => exact steps_depot (Depot.steps_take t k.depot)
  | enter e =>
    dsimp only [take]
    split
    · exact (Step.enter e ‹_›).single
    · exact .refl
  | queue place now =>
    dsimp only [take]
    split
    · exact (Step.queue (Depot.parts_of_getElem? ‹_›) rfl).single
    · exact .refl
  | checkIn place =>
    dsimp only [take]
    split
    · split
      · exact (Step.checkIn (Depot.parts_of_getElem? ‹_›) ‹_›).single
      · exact .refl
    · exact .refl
  | giveBack place =>
    dsimp only [take]
    split
    · exact (Step.giveBack (Depot.parts_of_getElem? ‹_›) rfl).single
    · exact .refl

theorem steps_foldl_take (ts : List Turn) (k : Dock ω κ) :
    Steps net k (ts.foldl (take net) k) := by
  induction ts generalizing k with
  | nil => exact .refl
  | cons t ts ih => exact (steps_take t k).trans (ih _)

end Dock

end Courier
