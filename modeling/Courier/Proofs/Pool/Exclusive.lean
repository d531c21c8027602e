import Mathlib.Data.List.Nodup
import Courier.Proofs.Pool.Accounting
import Courier.Proofs.Pool.Numbering

/-! # Connections are not shared

Each lease has a number of its own from the permit on. Each connection is idle at the endpoint it was
made for, or on one lease for it, or with a closing, or has been closed or aborted; a connection
that the pool has let go of never comes back.
-/

namespace Courier

variable {ω κ : Type}

def Acquired.granted : Acquired κ → List (Lease κ)
  | .pending _ => []
  | .leased l => [l]
  | .failed _ => []

def Acquisition.dialsFor (id : Nat) : Acquisition → Bool
  | waiting _ _ => false
  | dialing lease _ => lease = id

@[simp] theorem Acquisition.dialsFor_waiting (id ticket deadline : Nat) :
    (waiting ticket deadline).dialsFor id = false := rfl

@[simp] theorem Acquisition.dialsFor_dialing (id lease : Nat) (wait : Wait) :
    (dialing lease wait).dialsFor id = decide (lease = id) := rfl

/-! ## The numbers of leases -/

namespace Depot

open Pool

def bearers (d : Depot ω κ) (id : Nat) : Nat :=
  d.leases.countP (·.id = id) + d.acquisitions.countP (·.2.dialsFor id)

/-- No number is borne twice, nor one that is yet to be given. -/
def Distinct (d : Depot ω κ) : Prop :=
  ∀ id, d.bearers id ≤ if id < d.pool.nextLease then 1 else 0

variable {net : Network ω κ} {limit : Nat} {d d' : Depot ω κ} {e : Endpoint}

theorem Distinct.thin (h : d.Distinct) (hn : d'.pool.nextLease = d.pool.nextLease)
    (hb : ∀ id, d'.bearers id ≤ d.bearers id) : d'.Distinct := by
  intro id
  rw [hn]
  exact Nat.le_trans (hb id) (h id)

theorem Distinct.give (h : d.Distinct) (hn : d'.pool.nextLease = d.pool.nextLease + 1)
    (hb : ∀ id, d'.bearers id ≤ d.bearers id + if id = d.pool.nextLease then 1 else 0) :
    d'.Distinct := by
  intro id
  have hid := h id
  have hb := hb id
  rw [hn]
  split at hid <;> split at hb <;> split <;> omega

section Acquiring

variable {as bs : List (Endpoint × Acquisition)} {a : Acquisition} {r : Acquired κ}
  {pool : Pool κ} {world : ω}

theorem Distinct.looked (h : d.Distinct) (hd : d.acquisitions = as ++ (e, a) :: bs)
    (ha : Acquisition.Looks net e d.pool d.world a r pool world) {leases : List (Lease κ)}
    (hl : leases = d.leases ++ r.granted) :
    ({ d with pool, world, leases, acquisitions := as ++ (r.pursued e ++ bs) } :
      Depot ω κ).Distinct := by
  subst hl
  cases ha with
  | waits a =>
    refine h.thin rfl fun id => ?_
    simp [bearers, hd, Acquired.pursued, Acquired.granted]
  | leaves error hq =>
    refine h.thin hq.nextLease fun id => ?_
    simp [bearers, hd, Acquired.pursued, Acquired.granted]
  | reuses hc hg hi hq =>
    refine h.give hq.nextLease fun id => ?_
    simp [bearers, hd, Acquired.pursued, Acquired.granted, List.countP_cons, eq_comm]
    omega
  | begins wait hc hg hi hq =>
    refine h.give hq.nextLease fun id => ?_
    simp [bearers, hd, Acquired.pursued, Acquired.granted, List.countP_cons, eq_comm]
    omega
  | expires error hq =>
    refine h.thin hq.nextLease fun id => ?_
    simp [bearers, hd, Acquired.pursued, Acquired.granted, List.countP_cons]
  | fails hx hq =>
    refine h.thin hq.nextLease fun id => ?_
    simp [bearers, hd, Acquired.pursued, Acquired.granted, List.countP_cons]
  | connects hx hq =>
    refine h.thin hq.nextLease fun id => ?_
    simp [bearers, hd, Acquired.pursued, Acquired.granted, List.countP_cons]
    omega

end Acquiring

theorem Distinct.step (h : d.Distinct) (hd : d.Sound limit) (hs : Step net d d') :
    d'.Distinct := by
  cases hs with
  | @begin now e a pool ha =>
    obtain ⟨-, ticket, deadline, rfl, hq⟩ := Acquisition.start_cases ha
    exact h.thin hq.nextLease fun id => by simp [bearers]
  | @wait as bs now e a a' pool world hl ha =>
    have hk := Acquisition.looks_poll net now a d.world (hd.entered hl)
    rw [ha] at hk
    exact h.looked hl hk (List.append_nil _).symm
  | @lease as bs now e a l pool world hl ha =>
    have hk := Acquisition.looks_poll net now a d.world (hd.entered hl)
    rw [ha] at hk
    exact h.looked hl hk rfl
  | @fail as bs now e a error pool world hl ha =>
    have hk := Acquisition.looks_poll net now a d.world (hd.entered hl)
    rw [ha] at hk
    exact h.looked hl hk (List.append_nil _).symm
  | @leave as bs e a hl =>
    refine h.thin (Acquisition.puts_drop a (hd.entered hl)).nextLease fun id => ?_
    simp [bearers, hl, List.countP_cons]
  | @use as bs l connection world hl => exact h.thin rfl fun id => by simp [bearers, hl, List.countP_cons]
  | @release as bs l result pool world hl hr =>
    have hk := Pool.releases_release net d.world (hd.mem_leased hl)
    rw [hr] at hk
    have hn : pool.nextLease = d.pool.nextLease := by
      cases hk with
      | shelves hr hc hq => exact hq.nextLease
      | retires hr hq => exact hq.nextLease
    exact h.thin hn fun id => by simp [bearers, hl, List.countP_cons]
  | @discard as bs l pool world hl hr =>
    have hq := puts_discard net d.world (hd.mem_leased hl)
    rw [hr] at hq
    exact h.thin hq.nextLease fun id => by simp [bearers, hl, List.countP_cons]
  | @close c pool hc =>
    obtain ⟨-, -, rfl⟩ | ⟨-, -, rfl⟩ := Closing.start_cases hc
    · exact h.thin rfl fun _ => Nat.le_refl _
    · exact h.thin rfl fun _ => Nat.le_refl _
  | @closeOn as bs c c' pool world hl hc =>
    have hn := Closing.nextLease_step net c d.pool d.world
    rw [hc] at hn
    exact h.thin hn fun _ => Nat.le_refl _
  | others world => exact h.thin rfl fun _ => Nat.le_refl _

theorem Steps.distinct {d₀ : Depot ω κ} (hd : d₀.Sound limit) (h : d₀.Distinct)
    (hs : Steps net d₀ d) : d.Distinct := by
  induction hs with
  | refl => exact h
  | tail hs h' ih => exact ih.step (hs.sound hd) h'

theorem distinct_ofPool (p : Pool κ) (w : ω) : (ofPool p w).Distinct := by
  intro id
  simp [bearers, ofPool]

theorem Distinct.nodup (h : d.Distinct) : (d.leases.map (·.id)).Nodup := by
  refine List.nodup_iff_count_le_one.mpr fun id => ?_
  have hid := h id
  have hc : (d.leases.map (·.id)).count id = d.leases.countP (·.id = id) := by
    rw [List.count, List.countP_map]
    rfl
  unfold bearers at hid
  split at hid <;> omega

/-- What is on the books of an endpoint are the leases that are out there, each once. -/
theorem Distinct.leased (h : d.Distinct) (hd : d.Sound limit) (e : Endpoint) :
    (d.pool.site e).leased.Nodup ∧
      ∀ id, id ∈ (d.pool.site e).leased ↔ ∃ l ∈ d.leases, l.endpoint = e ∧ l.id = id := by
  have hp : (d.pool.site e).leased.Perm (d.leasedAt e) := (hd.within e).leased
  refine ⟨hp.symm.nodup (List.filter_sublist.map _ |>.nodup h.nodup), fun id => ?_⟩
  rw [hp.mem_iff]
  simp [leasedAt, and_assoc]

end Depot

/-! ## Who holds a connection -/

theorem Depot.polled_eq (net : Network ω κ) (d : Depot ω κ) (place : Nat) (e : Endpoint)
    (a : Acquisition) (now : Nat) :
    d.polled net place e a now =
      { d with
        pool := (a.poll net now e d.pool d.world).2.1
        world := (a.poll net now e d.pool d.world).2.2
        acquisitions := d.acquisitions.take place ++
          ((a.poll net now e d.pool d.world).1.pursued e ++ d.acquisitions.drop (place + 1))
        leases := d.leases ++ (a.poll net now e d.pool d.world).1.granted } := by
  unfold polled
  rcases a.poll net now e d.pool d.world with ⟨a' | l | error, pool, world⟩
  · simp [Acquired.pursued, Acquired.granted]
  · rfl
  · simp [Acquired.pursued, Acquired.granted]

def Numbered.times (k : Nat) (cs : List (Numbered κ)) : Nat :=
  cs.countP (·.number = k)

/-- How many of its connections have this number and are to be closed yet. -/
def Closing.holding (e : Endpoint) (k : Nat) : Closing (Numbered κ) → Nat
  | connections d remaining _ _ => if d = e then Numbered.times k remaining else 0
  | _ => 0

/-- How many leases of the endpoint have this connection. -/
def Lease.holding (e : Endpoint) (k : Nat) (ls : List (Lease (Numbered κ))) : Nat :=
  ls.countP fun l => l.endpoint = e && l.connection.number = k

section Counting

variable {k : Nat}

theorem Numbered.times_cons (c : Numbered κ) (cs : List (Numbered κ)) :
    times k (c :: cs) = times k cs + if c.number = k then 1 else 0 := by
  simp [times, List.countP_cons]

theorem Lease.holding_parts {ls ms : List (Lease (Numbered κ))} (l : Lease (Numbered κ))
    (e : Endpoint) :
    holding e k (ls ++ l :: ms) =
      holding e k (ls ++ ms) + if l.endpoint = e ∧ l.connection.number = k then 1 else 0 := by
  simp [holding, List.countP_cons]
  omega

theorem Lease.holding_concat {ls : List (Lease (Numbered κ))} (l : Lease (Numbered κ))
    (e : Endpoint) :
    holding e k (ls ++ [l]) =
      holding e k ls + if l.endpoint = e ∧ l.connection.number = k then 1 else 0 := by
  simp [holding, List.countP_cons]

theorem Closing.holding_connections (e b : Endpoint) (cs : List (Numbered κ)) (count : Nat)
    (es : List Endpoint) :
    (connections e cs count es).holding b k = if e = b then Numbered.times k cs else 0 := rfl

theorem Closing.holding_sites (es : List Endpoint) (b : Endpoint) :
    (sites es : Closing (Numbered κ)).holding b k = 0 := rfl

theorem Closing.holding_parts {as bs : List (Closing (Numbered κ))} (c : Closing (Numbered κ))
    (e : Endpoint) :
    ((as ++ c :: bs).map (·.holding e k)).sum =
      ((as ++ bs).map (·.holding e k)).sum + c.holding e k := by
  simp
  omega

end Counting

/-- How often the connection is held at the endpoint: idle, on lease, or by a closing. -/
def Depot.holds (n : Roster ω κ) (e : Endpoint) (k : Nat) : Nat :=
  Numbered.times k (n.pool.site e).idle + Lease.holding e k n.leases +
    (n.closings.map (·.holding e k)).sum

namespace Roster

open Pool
open Depot (Turn take)

theorem held_of_idle {n : Roster ω κ} {e : Endpoint} {c : Numbered κ}
    (hc : c ∈ (n.pool.site e).idle) : 0 < n.holds e c.number := by
  have hpos : 0 < Numbered.times c.number (n.pool.site e).idle :=
    List.countP_pos_iff.mpr ⟨c, hc, by simp⟩
  unfold Depot.holds
  omega

theorem held_of_lease {n : Roster ω κ} {l : Lease (Numbered κ)} (hl : l ∈ n.leases) :
    0 < n.holds l.endpoint l.connection.number := by
  have hpos : 0 < Lease.holding l.endpoint l.connection.number n.leases :=
    List.countP_pos_iff.mpr ⟨l, hl, by simp⟩
  unfold Depot.holds
  omega

/-- A step gives no connection away and makes none, or makes one for an endpoint, or parts with one
for good. -/
inductive Transfers (n n' : Roster ω κ) : Prop

  | keeps (ho : n'.world.origins = n.world.origins) (hc : n'.world.closed = n.world.closed)
      (ha : n'.world.aborted = n.world.aborted) (hh : ∀ e k, n'.holds e k = n.holds e k)

  | makes (e : Endpoint) (ho : n'.world.origins = n.world.origins ++ [e])
      (hc : n'.world.closed = n.world.closed) (ha : n'.world.aborted = n.world.aborted)
      (hh : ∀ b k, n'.holds b k =
        n.holds b k + if b = e ∧ k = n.world.origins.length then 1 else 0)

  | parts (e : Endpoint) (k : Nat) (ho : n'.world.origins = n.world.origins)
      (hg : ∀ j, n'.world.closed.count j + n'.world.aborted.count j ≤
        n.world.closed.count j + n.world.aborted.count j + if j = k then 1 else 0)
      (hh : ∀ b j, n.holds b j = n'.holds b j + if b = e ∧ j = k then 1 else 0)

variable {net : Network ω κ} {limit : Nat} {n n' : Roster ω κ} {e b : Endpoint} {k : Nat}
  {p pool : Pool (Numbered κ)} {t : Site (Numbered κ)} {world : Register ω}
  {acquisitions : List (Endpoint × Acquisition)} {leases : List (Lease (Numbered κ))}

theorem holds_puts (hn : p.sites = n.pool.sites) (hk : p.config = n.pool.config)
    (hp : Puts e t p pool) (b : Endpoint) (k : Nat) :
    ({ n with pool, world, acquisitions, leases } : Roster ω κ).holds b k =
      Numbered.times k (if b = e then t.idle else (n.pool.site b).idle) +
        Lease.holding b k leases + (n.closings.map (·.holding b k)).sum := by
  have hs : pool.site b = if b = e then t else n.pool.site b := by
    split
    · rename_i hb
      exact hb ▸ hp.here
    · rename_i hb
      exact (hp.others b hb).trans (site_congr hn hk b)
  simp only [Depot.holds, hs, apply_ite Site.idle]

theorem holds_of_same (hn : p.sites = n.pool.sites) (hk : p.config = n.pool.config)
    (hp : Puts e t p pool) (hi : t.idle = (n.pool.site e).idle) (b : Endpoint) (k : Nat) :
    ({ n with pool, world, acquisitions } : Roster ω κ).holds b k = n.holds b k := by
  refine (holds_puts hn hk hp b k).trans ?_
  have hs : (if b = e then t.idle else (n.pool.site b).idle) = (n.pool.site b).idle := by
    split
    · rename_i hb
      rw [hb, hi]
    · rfl
  rw [hs]
  rfl

section Acquiring

variable {as bs : List (Endpoint × Acquisition)} {a : Acquisition} {r : Acquired (Numbered κ)}

theorem dial_cases {r r' : Register ω} {result : Except Error (Numbered κ)}
    (h : net.numbered.dial e r = (result, r')) :
    r'.closed = r.closed ∧ r'.aborted = r.aborted ∧
      match result with
      | .ok c => c.number = r.origins.length ∧ r'.origins = r.origins ++ [e]
      | .error _ => r'.origins = r.origins := by
  dsimp only [Network.numbered] at h
  split at h
  · cases h
    exact ⟨rfl, rfl, rfl, rfl⟩
  · cases h
    exact ⟨rfl, rfl, rfl⟩

theorem transfers_looked (ha : Acquisition.Looks net.numbered e n.pool n.world a r pool world) :
    Transfers n { n with pool, world, acquisitions, leases := n.leases ++ r.granted } := by
  cases ha with
  | waits a => exact .keeps rfl rfl rfl fun b k => by simp [Depot.holds, Acquired.granted]
  | leaves error hq =>
    refine .keeps rfl rfl rfl fun b k => ?_
    rw [Acquired.granted, List.append_nil]
    exact holds_of_same rfl rfl hq rfl b k
  | @reuses ticket deadline connection rest pool hc hg hi hq =>
    refine .keeps rfl rfl rfl fun b k => ?_
    rw [holds_puts (p := { n.pool with nextLease := n.pool.nextLease + 1 }) rfl rfl hq,
      Acquired.granted, Lease.holding_concat, Depot.holds]
    by_cases hb : b = e
    · subst hb
      rw [if_pos rfl, hi, Numbered.times_cons]
      simp only [Site.reusing, true_and]
      omega
    · rw [if_neg hb, if_neg fun hx => hb hx.1.symm]
      rfl
  | begins wait hc hg hi hq =>
    refine .keeps rfl rfl rfl fun b k => ?_
    rw [Acquired.granted, List.append_nil]
    exact holds_of_same (p := { n.pool with nextLease := n.pool.nextLease + 1 }) rfl rfl hq rfl b k
  | expires error hq =>
    refine .keeps rfl rfl rfl fun b k => ?_
    rw [Acquired.granted, List.append_nil]
    exact holds_of_same rfl rfl hq rfl b k
  | fails hd hq =>
    obtain ⟨hc, ha, ho⟩ := dial_cases hd
    refine .keeps ho hc ha fun b k => ?_
    rw [Acquired.granted, List.append_nil]
    exact holds_of_same rfl rfl hq rfl b k
  | connects hd hq =>
    obtain ⟨hc, ha, hk, ho⟩ := dial_cases hd
    refine .makes e ho hc ha fun b k => ?_
    rw [holds_puts rfl rfl hq, Acquired.granted, Lease.holding_concat, Depot.holds]
    by_cases hb : b = e
    · subst hb
      rw [if_pos rfl, hk]
      simp only [Site.connected, true_and, eq_comm]
      omega
    · rw [if_neg hb, if_neg fun hx => hb hx.1.symm, if_neg fun hx => hb hx.1]
      rfl

end Acquiring

section Leasing

variable {as bs : List (Lease (Numbered κ))} {l : Lease (Numbered κ)}

theorem holds_ended (hd : n.leases = as ++ l :: bs) (hp : Puts l.endpoint t n.pool pool)
    (hi : t.idle = (n.pool.site l.endpoint).idle) (b : Endpoint) (k : Nat) :
    n.holds b k = ({ n with pool, world, leases := as ++ bs } : Roster ω κ).holds b k +
      if b = l.endpoint ∧ k = l.connection.number then 1 else 0 := by
  rw [holds_puts rfl rfl hp, Depot.holds, hd, Lease.holding_parts]
  by_cases hb : b = l.endpoint
  · subst hb
    rw [if_pos rfl, hi]
    simp only [true_and, eq_comm]
    omega
  · rw [if_neg hb, if_neg fun hx => hb hx.1.symm, if_neg fun hx => hb hx.1]
    rfl

theorem count_concat (ks : List Nat) (j k : Nat) :
    (ks ++ [k]).count j = ks.count j + if j = k then 1 else 0 := by
  rw [List.count_append, List.count_singleton]
  by_cases hj : j = k
  · simp [hj]
  · simp [hj, Ne.symm hj]

theorem transfers_released (hd : n.leases = as ++ l :: bs)
    (hr : Releases net.numbered l n.pool n.world pool world) :
    Transfers n { n with pool, world, leases := as ++ bs } := by
  cases hr with
  | shelves hr hc hq =>
    refine .keeps rfl rfl rfl fun b k => ?_
    rw [holds_puts rfl rfl hq, Depot.holds, hd, Lease.holding_parts]
    by_cases hb : b = l.endpoint
    · subst hb
      rw [if_pos rfl]
      simp only [Site.relieved, Site.shelved, Numbered.times_cons, true_and]
      omega
    · rw [if_neg hb, if_neg fun hx => hb hx.1.symm]
      rfl
  | retires hr hq =>
    refine .parts l.endpoint l.connection.number ?_ (fun j => ?_) (holds_ended hd hq rfl)
    · dsimp only
      split <;> rfl
    · dsimp only
      split
      · simp only [Network.numbered, count_concat]
        omega
      · exact Nat.le_add_right _ _

theorem transfers_discarded (hd : n.leases = as ++ l :: bs)
    (hq : Puts l.endpoint ((n.pool.site l.endpoint).dropped l.id).relieved n.pool pool)
    (hw : world = (net.numbered.abort l.connection n.world).2) :
    Transfers n { n with pool, world, leases := as ++ bs } := by
  subst hw
  refine .parts l.endpoint l.connection.number rfl (fun j => ?_) (holds_ended hd hq rfl)
  simp only [Network.numbered, count_concat]
  omega

end Leasing

section Closing

variable {as bs : List (Closing (Numbered κ))}

theorem holds_closing (c : Closing (Numbered κ)) (b : Endpoint) (k : Nat) :
    ({ n with pool, world, closings := as ++ c :: bs } : Roster ω κ).holds b k =
      ({ n with pool, world, closings := as ++ bs } : Roster ω κ).holds b k + c.holding b k := by
  rw [Depot.holds, Depot.holds, Closing.holding_parts]
  exact (Nat.add_assoc ..).symm

theorem transfers_moved {c c' : Closing (Numbered κ)} (hd : n.closings = as ++ c :: bs)
    (hc : Closing.Moves net.numbered n.pool n.world c c' pool world) :
    Transfers n { n with pool, world, closings := as ++ c' :: bs } := by
  have hn (b : Endpoint) (k : Nat) : n.holds b k =
      ({ n with closings := as ++ bs } : Roster ω κ).holds b k + c.holding b k := by
    rw [← holds_closing, ← hd]
  cases hc with
  | rests => exact .keeps rfl rfl rfl fun b k => by rw [hn, holds_closing]
  | ends =>
    refine .keeps rfl rfl rfl fun b k => ?_
    rw [hn, holds_closing]
    rfl
  | @empties e es pool hq =>
    refine .keeps rfl rfl rfl fun b k => ?_
    have hs : ({ n with pool, closings := as ++ bs } : Roster ω κ).holds b k = _ :=
      holds_puts (n := { n with closings := as ++ bs }) rfl rfl hq b k
    rw [hn, holds_closing, hs, Closing.holding_sites, Closing.holding_connections, Depot.holds]
    by_cases hb : b = e
    · subst hb
      simp only [if_true, Site.emptied, Numbered.times, List.countP_nil]
      omega
    · simp only [if_neg hb, if_neg (Ne.symm hb)]
  | closes e connection rest count es =>
    refine .parts e connection.number rfl (fun j => ?_) fun b k => ?_
    · simp only [Network.numbered, count_concat]
      omega
    · rw [hn, holds_closing, Closing.holding_connections, Closing.holding_connections,
        Numbered.times_cons]
      by_cases hb : b = e
      · subst hb
        simp only [if_true, true_and, eq_comm]
        exact (Nat.add_assoc ..).symm
      · simp only [if_neg (Ne.symm hb), hb, false_and, if_false]
        rfl
  | @counts e count es pool hq =>
    refine .keeps rfl rfl rfl fun b k => ?_
    have hs : ({ n with pool, closings := as ++ bs } : Roster ω κ).holds b k = _ :=
      holds_of_same (n := { n with closings := as ++ bs }) rfl rfl hq rfl b k
    have hz : (Closing.connections e [] count es : Closing (Numbered κ)).holding b k = 0 :=
      ite_self _
    rw [hn, holds_closing, hs, Closing.holding_sites, hz]

end Closing

theorem transfers_take (hn : n.Sound limit) (ha : n.Accounted) (t : Turn) :
    Transfers n (n.take net.numbered t) := by
  have hpass : Transfers n n := .keeps rfl rfl rfl fun _ _ => rfl
  cases t with
  | begin now e =>
    dsimp only [take]
    split
    · rename_i hs
      obtain ⟨-, ticket, deadline, rfl, hq⟩ := Acquisition.start_cases hs
      exact .keeps rfl rfl rfl (holds_of_same rfl rfl hq rfl)
    · exact hpass
  | poll place now =>
    dsimp only [take]
    split
    · rename_i e a hl
      have he := hn.entered (Depot.parts_of_getElem? hl)
      rw [Depot.polled_eq]
      exact transfers_looked (Acquisition.looks_poll net.numbered now a n.world he)
    · exact hpass
  | leave place =>
    dsimp only [take]
    split
    · rename_i e a hl
      have he := hn.entered (Depot.parts_of_getElem? hl)
      have hq := Acquisition.puts_drop a he
      refine .keeps rfl rfl rfl (holds_of_same rfl rfl hq ?_)
      cases a <;> rfl
    · exact hpass
  | release place =>
    dsimp only [take]
    split
    · rename_i l hl
      have hd := Depot.parts_of_getElem? hl
      rw [List.eraseIdx_eq_take_drop_succ]
      exact transfers_released hd (releases_release net.numbered n.world (hn.mem_leased hd))
    · exact hpass
  | discard place =>
    dsimp only [take]
    split
    · rename_i l hl
      have hd := Depot.parts_of_getElem? hl
      rw [List.eraseIdx_eq_take_drop_succ]
      exact transfers_discarded hd (puts_discard net.numbered n.world (hn.mem_leased hd)) rfl
    · exact hpass
  | close =>
    dsimp only [take]
    rcases hc : Closing.start n.pool with ⟨c, pool⟩
    refine .keeps rfl rfl rfl fun b k => ?_
    obtain ⟨-, rfl, rfl⟩ | ⟨-, rfl, rfl⟩ := Closing.start_cases hc
    · simp [Depot.holds, Closing.holding]
    · have hs : ({ n.pool with closed := true } : Pool (Numbered κ)).site b = n.pool.site b :=
        site_congr rfl rfl b
      simp [Depot.holds, Closing.holding, hs]
  | closeOn place =>
    dsimp only [take]
    split
    · rename_i c hl
      have hd := Depot.parts_of_getElem? hl
      exact transfers_moved hd
        (Closing.moves_step net.numbered n.world (ha.entered c (by rw [hd]; simp)))
    · exact hpass

theorem Step.transfers (hs : Step net n n') (hn : n.Sound limit) (ha : n.Accounted) :
    Transfers n n' := by
  cases hs with
  | turn t => exact transfers_take hn ha t
  | @use before behind l connection world hl =>
    refine .keeps rfl rfl rfl fun b k => ?_
    simp [Depot.holds, hl, Lease.holding_parts]
  | others world => exact .keeps rfl rfl rfl fun _ _ => rfl

/-! ## Every run -/

/-- Each connection is held once at most, at the endpoint it was made for and not after the pool has
parted with it. -/
structure Settled (n : Roster ω κ) : Prop where
  once : ∀ e k, n.holds e k + n.world.closed.count k + n.world.aborted.count k ≤ 1
  origin : ∀ e k, 0 < n.holds e k → n.world.origins[k]? = some e
  made : ∀ k, 0 < n.world.closed.count k + n.world.aborted.count k → k < n.world.origins.length

structure Gone (k : Nat) (n : Roster ω κ) : Prop where
  made : k < n.world.origins.length
  unheld : ∀ e, n.holds e k = 0

theorem Settled.holds_eq_zero (h : n.Settled) (hk : 0 < n.holds e k) (hb : b ≠ e) :
    n.holds b k = 0 := by
  by_contra hne
  have ho := h.origin b k (Nat.pos_of_ne_zero hne)
  rw [h.origin e k hk] at ho
  exact hb (Option.some.inj ho).symm

theorem Settled.makes (h : n.Settled) (ho : n'.world.origins = n.world.origins ++ [e])
    (hc : n'.world.closed = n.world.closed) (ha : n'.world.aborted = n.world.aborted)
    (hh : ∀ b k, n'.holds b k =
      n.holds b k + if b = e ∧ k = n.world.origins.length then 1 else 0) : n'.Settled := by
  have hnew : n.holds e n.world.origins.length = 0 := by
    by_contra hne
    have hx := h.origin e _ (Nat.pos_of_ne_zero hne)
    simp at hx
  refine ⟨fun b k => ?_, fun b k hb => ?_, fun k hk => ?_⟩
  · have honce := h.once b k
    have hmade := h.made k
    rw [hc, ha, hh]
    split
    · rename_i hx
      obtain ⟨rfl, rfl⟩ := hx
      omega
    · exact honce
  · rw [hh] at hb
    rw [ho]
    split at hb
    · rename_i hx
      obtain ⟨rfl, rfl⟩ := hx
      simp
    · have hk := h.origin b k hb
      rw [List.getElem?_append_left (List.getElem?_eq_some_iff.mp hk).1]
      exact hk
  · rw [hc, ha] at hk
    rw [ho, List.length_append]
    exact Nat.lt_add_right 1 (h.made k hk)

/-- What is parted with was held, at its own endpoint and nowhere else. -/
theorem Settled.parts (h : n.Settled) (ho : n'.world.origins = n.world.origins)
    (hg : ∀ j, n'.world.closed.count j + n'.world.aborted.count j ≤
      n.world.closed.count j + n.world.aborted.count j + if j = k then 1 else 0)
    (hh : ∀ b j, n.holds b j = n'.holds b j + if b = e ∧ j = k then 1 else 0) : n'.Settled := by
  have hk : 0 < n.holds e k := by
    have hx := hh e k
    simp only [and_self, if_true] at hx
    omega
  refine ⟨fun b j => ?_, fun b j hb => ?_, fun j hj => ?_⟩
  · have honce := h.once b j
    have hx := hh b j
    have hj := hg j
    by_cases hjk : j = k
    · subst hjk
      by_cases hb : b = e
      · subst hb
        simp only [and_self, if_true] at hx hj
        omega
      · have hz := h.holds_eq_zero hk hb
        have hone := h.once e j
        simp only [hb, false_and, if_false, if_true] at hx hj
        omega
    · simp only [hjk, and_false, if_false] at hx hj
      omega
  · have hx := hh b j
    rw [ho]
    exact h.origin b j (by omega)
  · rw [ho]
    have hx := hg j
    split at hx
    · rename_i hjk
      subst hjk
      exact (List.getElem?_eq_some_iff.mp (h.origin e j hk)).1
    · exact h.made j (by omega)

theorem Settled.step (h : n.Settled) (ht : Transfers n n') : n'.Settled := by
  cases ht with
  | keeps ho hc ha hh =>
    refine ⟨fun e k => ?_, fun e k => ?_, fun k => ?_⟩
    · rw [hc, ha, hh]
      exact h.once e k
    · rw [hh, ho]
      exact h.origin e k
    · rw [hc, ha, ho]
      exact h.made k
  | makes e ho hc ha hh => exact h.makes ho hc ha hh
  | parts e k ho hg hh => exact h.parts ho hg hh

theorem Gone.step (h : Gone k n) (ht : Transfers n n') : Gone k n' := by
  cases ht with
  | keeps ho hc ha hh => exact ⟨ho ▸ h.made, fun e => (hh e k).trans (h.unheld e)⟩
  | makes e ho hc ha hh =>
    refine ⟨?_, fun b => ?_⟩
    · rw [ho, List.length_append]
      exact Nat.lt_add_right 1 h.made
    · have hne : k ≠ n.world.origins.length := Nat.ne_of_lt h.made
      rw [hh, h.unheld, if_neg fun hx => hne hx.2]
  | parts e j ho hg hh =>
    refine ⟨ho ▸ h.made, fun b => ?_⟩
    have hb := hh b k
    rw [h.unheld] at hb
    omega

theorem Settled.gone_released (h : n.Settled) {as bs : List (Lease (Numbered κ))}
    {l : Lease (Numbered κ)} (hd : n.leases = as ++ l :: bs)
    (hr : Releases net.numbered l n.pool n.world pool world)
    (hk : net.isReusable l.connection.connection = false ∨ n.pool.closed = true) :
    Gone l.connection.number { n with pool, world, leases := as ++ bs } := by
  have hheld : 0 < n.holds l.endpoint l.connection.number := held_of_lease (by rw [hd]; simp)
  cases hr with
  | shelves hu hc hq =>
    have hu : net.isReusable l.connection.connection = true := hu
    simp [hu, hc] at hk
  | retires hu hq =>
    refine ⟨?_, fun b => ?_⟩
    · have hmade := (List.getElem?_eq_some_iff.mp (h.origin _ _ hheld)).1
      dsimp only
      split
      · exact hmade
      · exact hmade
    · have hx : n.holds b _ = ({ n with pool, leases := as ++ bs } : Roster ω κ).holds b _ + _ :=
        holds_ended hd hq rfl b l.connection.number
      have honce := h.once b l.connection.number
      change ({ n with pool, leases := as ++ bs } : Roster ω κ).holds b _ = 0
      by_cases hb : b = l.endpoint
      · rw [if_pos ⟨hb, rfl⟩] at hx
        omega
      · rw [h.holds_eq_zero hheld hb] at hx
        omega

section Runs

variable {config : PoolConfig} {eventLoop : EventLoop} {w : ω}

theorem settled_ofPool (hp : Pool.start config eventLoop = .ok p) (w : ω) :
    (ofPool p w).Settled := by
  have hz (e : Endpoint) (k : Nat) : (ofPool p w).holds e k = 0 := by
    unfold Pool.start at hp
    split at hp
    · cases hp
    · cases hp
      rfl
  refine ⟨fun e k => ?_, fun e k hk => ?_, fun k hk => ?_⟩
  · rw [hz]
    simp [ofPool, Depot.ofPool]
  · simp [hz] at hk
  · simp [ofPool, Depot.ofPool] at hk

theorem Steps.settled {n₀ : Roster ω κ} (hd : n₀.Sound limit) (ha : n₀.Accounted)
    (h : n₀.Settled) (hs : Steps net n₀ n) : n.Settled := by
  induction hs with
  | refl => exact h
  | tail hs h' ih =>
    exact ih.step (h'.transfers (hs.depot.sound hd) (hs.depot.accounted hd ha))

theorem Steps.gone {n₀ : Roster ω κ} (hd : n₀.Sound limit) (ha : n₀.Accounted)
    (h : Gone k n₀) (hs : Steps net n₀ n) : Gone k n := by
  induction hs with
  | refl => exact h
  | tail hs h' ih =>
    exact ih.step (h'.transfers (hs.depot.sound hd) (hs.depot.accounted hd ha))

end Runs

/-- The connection is neither on lease nor idle any more, whatever happens. -/
def Spent (net : Network ω κ) (k : Nat) (n : Roster ω κ) : Prop :=
  ∀ n', Steps net n n' →
    (∀ l ∈ n'.leases, l.connection.number ≠ k) ∧
      ∀ e, ∀ c ∈ (n'.pool.site e).idle, c.number ≠ k

/-- Each connection is in one place: idle at the endpoint it was made for, on one lease for that
endpoint, closed, or aborted. What the pool has closed or aborted, or is given back and cannot be
used again, is never on lease again. -/
structure Exclusive (net : Network ω κ) (n : Roster ω κ) : Prop where
  once : ∀ e k, Numbered.times k (n.pool.site e).idle +
    n.leases.countP (·.connection.number = k) + n.world.closed.count k +
      n.world.aborted.count k ≤ 1
  idle : ∀ e, ∀ c ∈ (n.pool.site e).idle, n.world.origins[c.number]? = some e
  leased : ∀ l ∈ n.leases, n.world.origins[l.connection.number]? = some l.endpoint
  ids : (n.leases.map (·.id)).Nodup
  books : ∀ e, (n.pool.site e).leased.Nodup ∧
    ∀ id, id ∈ (n.pool.site e).leased ↔ ∃ l ∈ n.leases, l.endpoint = e ∧ l.id = id
  parted : ∀ k, k ∈ n.world.closed ∨ k ∈ n.world.aborted → Spent net k n
  released : ∀ place l, n.leases[place]? = some l →
    net.isReusable l.connection.connection = false ∨ n.pool.closed = true →
    Spent net l.connection.number (n.take net.numbered (.release place))

theorem Gone.apart (h : Gone k n) :
    (∀ l ∈ n.leases, l.connection.number ≠ k) ∧
      ∀ e, ∀ c ∈ (n.pool.site e).idle, c.number ≠ k := by
  refine ⟨fun l hl hk => ?_, fun e c hc hk => ?_⟩
  · have hpos := hk ▸ held_of_lease hl
    exact Nat.ne_of_gt hpos (h.unheld l.endpoint)
  · have hpos := hk ▸ held_of_idle hc
    exact Nat.ne_of_gt hpos (h.unheld e)

section Held

variable (h : n.Settled)

include h

theorem Settled.idle_origin {c : Numbered κ} (hc : c ∈ (n.pool.site e).idle) :
    n.world.origins[c.number]? = some e :=
  h.origin e c.number (held_of_idle hc)

theorem Settled.lease_origin {l : Lease (Numbered κ)} (hl : l ∈ n.leases) :
    n.world.origins[l.connection.number]? = some l.endpoint :=
  h.origin l.endpoint l.connection.number (held_of_lease hl)

theorem Settled.holding_eq {l : Lease (Numbered κ)} (hl : l ∈ n.leases)
    (hk : l.connection.number = k) :
    n.leases.countP (·.connection.number = k) = Lease.holding l.endpoint k n.leases := by
  refine List.countP_congr fun m hm => ?_
  have ho := h.lease_origin hl
  by_cases hmk : m.connection.number = k
  · have hm := h.lease_origin hm
    rw [hmk, ← hk, ho] at hm
    simp [hmk, (Option.some.inj hm).symm]
  · simp [hmk]

theorem Settled.counted (e : Endpoint) (k : Nat) :
    Numbered.times k (n.pool.site e).idle + n.leases.countP (·.connection.number = k) +
      n.world.closed.count k + n.world.aborted.count k ≤ 1 := by
  have honce := h.once e k
  by_cases hl : ∃ l ∈ n.leases, l.connection.number = k
  · obtain ⟨l, hl, hk⟩ := hl
    rw [h.holding_eq hl hk]
    by_cases he : e = l.endpoint
    · subst he
      unfold Depot.holds at honce
      omega
    · have hheld : 0 < n.holds l.endpoint k := hk ▸ held_of_lease hl
      have hz := h.holds_eq_zero hheld he
      have honce := h.once l.endpoint k
      unfold Depot.holds at hz honce
      omega
  · have hz : n.leases.countP (·.connection.number = k) = 0 :=
      List.countP_eq_zero.mpr fun l hm => by simpa using fun hk => hl ⟨l, hm, hk⟩
    rw [hz]
    unfold Depot.holds at honce
    omega

theorem Settled.gone (hk : k ∈ n.world.closed ∨ k ∈ n.world.aborted) : Gone k n := by
  have hpos : 0 < n.world.closed.count k + n.world.aborted.count k := by
    rcases hk with hk | hk
    · have := List.count_pos_iff.mpr hk
      omega
    · have := List.count_pos_iff.mpr hk
      omega
  refine ⟨h.made k hpos, fun e => ?_⟩
  have honce := h.once e k
  omega

end Held

theorem spent_of_gone (hd : n.Sound limit) (ha : n.Accounted) (h : Gone k n) : Spent net k n :=
  fun _ hs => (hs.gone hd ha h).apart

theorem exclusive (hd : n.Sound limit) (ha : n.Accounted) (hi : n.Distinct) (h : n.Settled) :
    Exclusive net n where
  once := h.counted
  idle _ _ hc := h.idle_origin hc
  leased _ hl := h.lease_origin hl
  ids := hi.nodup
  books := hi.leased hd
  parted _ hk := spent_of_gone hd ha (h.gone hk)
  released place l hl hk := by
    have hp := Depot.parts_of_getElem? hl
    have hr := releases_release net.numbered n.world (hd.mem_leased hp)
    have hs : Depot.Steps net.numbered n (n.take net.numbered (.release place)) :=
      Depot.steps_take _ n
    refine spent_of_gone (hs.sound hd) (hs.accounted hd ha) ?_
    simp only [take, hl, List.eraseIdx_eq_take_drop_succ]
    exact h.gone_released hp hr hk

/-- Whatever happens around a pool and whatever its network answers, the connections made keep apart:
the runs of the pool are those with numbered connections, without the numbers, and after each of
these every connection is in one place. -/
theorem connections_exclusive {config : PoolConfig} {eventLoop : EventLoop}
    (hp : Pool.start config eventLoop = .ok p) (net : Network ω κ) (w : ω) :
    (∀ d, Depot.Steps net (Depot.ofPool p.plain w) d ↔
        ∃ n, Steps net (ofPool p w) n ∧ n.plain = d) ∧
      ∀ n, Steps net (ofPool p w) n → Exclusive net n := by
  refine ⟨fun d => steps_plain_iff, fun n hs => ?_⟩
  have hd := Depot.sound_ofPool hp (⟨w, [], [], []⟩ : Register ω)
  have ha := Depot.accounted_ofPool hp (⟨w, [], [], []⟩ : Register ω)
  exact exclusive (hs.depot.sound hd) (hs.depot.accounted hd ha)
    (hs.depot.distinct hd (Depot.distinct_ofPool p _)) (hs.settled hd ha (settled_ofPool hp w))

theorem steps_foldl_take (ts : List Turn) (n : Roster ω κ) :
    Steps net n (ts.foldl (take net.numbered) n) := by
  suffices h : ∀ n', Steps net n n' → Steps net n (ts.foldl (take net.numbered) n') from h n .refl
  induction ts with
  | nil => exact fun n' hs => hs
  | cons t ts ih => exact fun n' hs => ih _ (hs.tail (.turn n' t))

/-- Of two connections one is discarded, and the other is given back and taken again. -/
theorem connections_exclusive_reused :
    let e : Endpoint := ⟨.http, "origin", 80⟩
    let n : Roster Rehearsal.Stage Rehearsal.Line :=
      [Turn.begin 0 e, .poll 0 0, .begin 0 e, .poll 1 0, .poll 0 5, .poll 0 5, .discard 0,
        .release 0, .begin 5 e, .poll 0 5].foldl (take Rehearsal.network.numbered)
      (ofPool ⟨.standard, [], false, 1, 0, .borrowed⟩ { Rehearsal.Stage.empty with dialDelay := 5 })
    n.leases.map (fun l => (l.id, l.connection.number)) = [(3, 1)] ∧ n.world.aborted = [0] ∧
      Exclusive Rehearsal.network n := by
  intro e n
  have hp : Pool.start .standard .borrowed =
      .ok (⟨.standard, [], false, 1, 0, .borrowed⟩ : Pool (Numbered Rehearsal.Line)) := rfl
  refine ⟨?_, ?_, (connections_exclusive hp Rehearsal.network _).2 n (steps_foldl_take _ _)⟩
  · decide +kernel
  · decide +kernel

end Roster

end Courier
