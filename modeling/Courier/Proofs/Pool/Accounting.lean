import Courier.Proofs.Pool.Capacity
import Courier.Proofs.Pool.Effects

/-! # Pools keep their accounts

Every connection that was made is idle, on lease, closed or discarded; only a closing that has taken
idle connections out counts them when the last of them is closed. While the pool is open, whatever
has been given back for further use is idle or has been used again.
-/

namespace Courier

variable {ω κ : Type}

namespace Acquisition

def isWaiting : Acquisition → Bool
  | waiting _ _ => true
  | dialing _ _ => false

end Acquisition

/-- The acquisition that goes on after a look at it, if it does. -/
def Acquired.pursued (e : Endpoint) : Acquired κ → List (Endpoint × Acquisition)
  | .pending a => [(e, a)]
  | .leased _ => []
  | .failed _ => []

namespace Closing

def isDone : Closing κ → Bool
  | done => true
  | _ => false

/-- How many connections of an endpoint it has taken out and not counted yet. -/
def uncounted (e : Endpoint) : Closing κ → Nat
  | connections d _ count _ => if d = e then count else 0
  | _ => 0

end Closing

/-! ## One site -/

namespace Site

/-- The accounts of a site where so many acquisitions wait for a permit and so many connections have
been taken out to be closed. -/
structure Balanced (waiting uncounted : Nat) (s : Site κ) : Prop where
  created : s.created = s.idle.length + s.leased.length + s.closed + s.discarded + uncounted
  pending : s.pending = waiting

/-- Whatever was given back for further use is idle or has been used again. -/
def Circulates (s : Site κ) : Prop :=
  s.released = s.idle.length + s.reused

variable {s : Site κ} {n m : Nat} {rest : List κ} {connection : κ} {lease : Nat}

theorem balanced_ofLimit (limit : Nat) : (Site.ofLimit limit : Site κ).Balanced 0 0 :=
  ⟨rfl, rfl⟩

theorem Balanced.queued (h : s.Balanced n m) (ticket : Nat) : (s.queued ticket).Balanced (n + 1) m :=
  ⟨h.created, congrArg (· + 1) h.pending⟩

theorem Balanced.left (h : s.Balanced (n + 1) m) (ticket : Nat) : (s.left ticket).Balanced n m :=
  ⟨h.created, congrArg (· - 1) h.pending⟩

theorem Balanced.claimed (h : s.Balanced (n + 1) m) (ticket : Nat) :
    (s.claimed ticket).Balanced n m :=
  ⟨h.created, congrArg (· - 1) h.pending⟩

theorem Balanced.relieved (h : s.Balanced n m) : s.relieved.Balanced n m :=
  ⟨h.created, h.pending⟩

theorem Balanced.reusing (h : s.Balanced n m) (hi : s.idle = connection :: rest) (lease : Nat) :
    (s.reusing lease rest).Balanced n m where
  created := by
    have hc := h.created
    simp only [hi, List.length_cons] at hc
    simp only [Site.reusing, List.length_append, List.length_singleton]
    omega
  pending := h.pending

theorem Balanced.connected (h : s.Balanced n m) (lease : Nat) :
    (s.connected lease).Balanced n m where
  created := by
    have hc := h.created
    simp only [Site.connected, List.length_append, List.length_singleton]
    omega
  pending := h.pending

section

variable (h : s.Balanced n m) (hl : lease ∈ s.leased)

include h hl

theorem Balanced.shelved (connection : κ) : (s.shelved lease connection).Balanced n m where
  created := by
    have hc := h.created
    have hp := List.length_pos_of_mem hl
    simp only [Site.shelved, List.length_cons, List.length_erase_of_mem hl]
    omega
  pending := h.pending

theorem Balanced.retired : (s.retired lease).Balanced n m where
  created := by
    have hc := h.created
    have hp := List.length_pos_of_mem hl
    simp only [Site.retired, List.length_erase_of_mem hl]
    omega
  pending := h.pending

theorem Balanced.dropped : (s.dropped lease).Balanced n m where
  created := by
    have hc := h.created
    have hp := List.length_pos_of_mem hl
    simp only [Site.dropped, List.length_erase_of_mem hl]
    omega
  pending := h.pending

end

theorem Balanced.emptied (h : s.Balanced n m) : s.emptied.Balanced n (m + s.idle.length) where
  created := by
    have hc := h.created
    simp only [Site.emptied, List.length_nil]
    omega
  pending := h.pending

theorem Balanced.counted {k : Nat} (h : s.Balanced n (m + k)) : (s.counted k).Balanced n m where
  created := by
    have hc := h.created
    simp only [Site.counted]
    omega
  pending := h.pending

theorem Circulates.reusing (h : s.Circulates) (hi : s.idle = connection :: rest) (lease : Nat) :
    (s.reusing lease rest).Circulates := by
  unfold Circulates at h ⊢
  simp only [hi, List.length_cons] at h
  simp only [Site.reusing]
  omega

theorem Circulates.shelved (h : s.Circulates) (lease : Nat) (connection : κ) :
    (s.shelved lease connection).Circulates := by
  unfold Circulates at h ⊢
  simp only [Site.shelved, List.length_cons]
  omega

end Site

/-! ## Depots -/

namespace Pool

theorem isSome_site?_of_mem {p : Pool κ} {e : Endpoint} (h : e ∈ p.sites.map (·.1)) :
    (p.site? e).isSome = true := by
  unfold site?
  rw [Option.isSome_iff_ne_none, Ne, List.lookup_eq_none_iff]
  obtain ⟨x, hx, rfl⟩ := List.mem_map.mp h
  exact fun hn => absurd (hn x hx) (by simp)

theorem stats_eq (p : Pool κ) (e : Endpoint) : p.stats e = (p.site e).stats := by
  unfold stats site
  cases p.site? e <;> rfl

end Pool

theorem Closing.entered_start {p q : Pool κ} {c : Closing κ} {cs : List (Closing κ)}
    (h : ∀ x ∈ cs, ∀ e ∈ x.endpoints, (p.site? e).isSome = true) (hc : start p = (c, q)) :
    ∀ x ∈ cs ++ [c], ∀ e ∈ x.endpoints, (p.site? e).isSome = true := by
  intro x hx e he
  obtain hx | hx := List.mem_append.mp hx
  · exact h x hx e he
  · obtain rfl := List.mem_singleton.mp hx
    obtain ⟨-, rfl, -⟩ | ⟨-, rfl, -⟩ := start_cases hc
    · cases he
    · exact Pool.isSome_site?_of_mem he

namespace Depot

open Pool Site

def waits (e : Endpoint) (as : List (Endpoint × Acquisition)) : Nat :=
  as.countP fun x => x.1 = e && x.2.isWaiting

def waitingAt (d : Depot ω κ) (e : Endpoint) : Nat :=
  waits e d.acquisitions

def uncountedAt (d : Depot ω κ) (e : Endpoint) : Nat :=
  (d.closings.map (·.uncounted e)).sum

structure Accounted (d : Depot ω κ) : Prop where
  balanced : ∀ e, (d.pool.site e).Balanced (d.waitingAt e) (d.uncountedAt e)
  circulates : d.pool.closed = false → ∀ e, (d.pool.site e).Circulates
  unclosed : d.pool.closed = false → d.closings = []
  entered : ∀ c ∈ d.closings, ∀ e ∈ c.endpoints, (d.pool.site? e).isSome = true

variable {net : Network ω κ} {limit : Nat} {d d' : Depot ω κ} {e b : Endpoint} {t : Site κ}

section Waiting

variable {as bs : List (Endpoint × Acquisition)} {a : Acquisition}

theorem waits_waiting (ticket deadline : Nat) :
    waits e (as ++ (e, .waiting ticket deadline) :: bs) = waits e (as ++ bs) + 1 := by
  simp [waits, Acquisition.isWaiting]
  omega

theorem waits_dialing (lease : Nat) (wait : Wait) :
    waits e (as ++ (e, .dialing lease wait) :: bs) = waits e (as ++ bs) := by
  simp [waits, Acquisition.isWaiting]

theorem waits_ne (hb : b ≠ e) : waits b (as ++ (e, a) :: bs) = waits b (as ++ bs) := by
  simp [waits, hb.symm]

end Waiting

theorem Accounted.settle (h : d.Accounted) {p pool : Pool κ} {world : ω}
    {acquisitions : List (Endpoint × Acquisition)} {leases : List (Lease κ)}
    (hn : p.sites = d.pool.sites) (hk : p.config = d.pool.config) (hc : p.closed = d.pool.closed)
    (hp : Puts e t p pool) (hb : t.Balanced (waits e acquisitions) (d.uncountedAt e))
    (ht : d.pool.closed = false → t.Circulates)
    (hw : ∀ b, b ≠ e → waits b acquisitions = waits b d.acquisitions) :
    ({ d with pool, world, acquisitions, leases } : Depot ω κ).Accounted := by
  have hs (b : Endpoint) : p.site b = d.pool.site b := site_congr hn hk b
  have hopen (ho : pool.closed = false) : d.pool.closed = false := by
    rwa [hp.closed, hc] at ho
  refine ⟨fun b => ?_, fun ho b => ?_, fun ho => h.unclosed (hopen ho), fun c hm b hb => ?_⟩
  · by_cases he : b = e
    · subst he
      exact hp.here ▸ hb
    · have hb := h.balanced b
      unfold waitingAt at hb ⊢
      rw [hp.others b he, hs, hw b he]
      exact hb
  · by_cases he : b = e
    · subst he
      exact hp.here ▸ ht (hopen ho)
    · rw [hp.others b he, hs]
      exact h.circulates (hopen ho) b
  · refine hp.entered b ?_
    unfold site?
    rw [hn]
    exact h.entered c hm b hb

section Acquiring

variable {as bs : List (Endpoint × Acquisition)} {a : Acquisition} {r : Acquired κ}
  {pool : Pool κ} {world : ω}

theorem Accounted.looked (h : d.Accounted) (hd : d.acquisitions = as ++ (e, a) :: bs)
    (ha : Acquisition.Looks net e d.pool d.world a r pool world) (leases : List (Lease κ)) :
    ({ d with pool, world, leases, acquisitions := as ++ (r.pursued e ++ bs) } :
      Depot ω κ).Accounted := by
  have hb : (d.pool.site e).Balanced (waits e (as ++ (e, a) :: bs)) (d.uncountedAt e) :=
    hd ▸ h.balanced e
  have hcirc (ho : d.pool.closed = false) := h.circulates ho e
  have hgone (b : Endpoint) (hne : b ≠ e) : waits b (as ++ bs) = waits b d.acquisitions := by
    rw [hd, waits_ne hne]
  cases ha with
  | waits a =>
    refine ⟨fun b => ?_, h.circulates, h.unclosed, h.entered⟩
    have hb := h.balanced b
    unfold waitingAt at hb ⊢
    rw [hd] at hb
    exact hb
  | leaves error hq =>
    rw [waits_waiting] at hb
    exact h.settle rfl rfl rfl hq (hb.left _) hcirc hgone
  | reuses hc hg hi hq =>
    rw [waits_waiting] at hb
    exact h.settle (p := { d.pool with nextLease := d.pool.nextLease + 1 }) rfl rfl rfl hq
      ((hb.claimed _).reusing hi _) (fun ho => (hcirc ho).reusing hi d.pool.nextLease) hgone
  | begins wait hc hg hi hq =>
    rw [waits_waiting] at hb
    refine h.settle (p := { d.pool with nextLease := d.pool.nextLease + 1 }) rfl rfl rfl hq ?_ hcirc
      fun b hne => ?_
    · exact (waits_dialing d.pool.nextLease wait).symm ▸ hb.claimed _
    · exact (waits_ne hne).trans (hgone b hne)
  | expires error hq =>
    rw [waits_dialing] at hb
    exact h.settle rfl rfl rfl hq hb.relieved hcirc hgone
  | fails hd hq =>
    rw [waits_dialing] at hb
    exact h.settle rfl rfl rfl hq hb.relieved hcirc hgone
  | connects hd hq =>
    rw [waits_dialing] at hb
    exact h.settle rfl rfl rfl hq (hb.connected _) hcirc hgone

end Acquiring

section Leasing

variable {ls ms : List (Lease κ)} {l : Lease κ}

theorem Sound.mem_leased (h : d.Sound limit) (hd : d.leases = ls ++ l :: ms) :
    l.id ∈ (d.pool.site l.endpoint).leased :=
  (h.within_lease hd).leased.symm.subset List.mem_cons_self

theorem Accounted.released (h : d.Accounted) (hl : l.id ∈ (d.pool.site l.endpoint).leased)
    {pool : Pool κ} {world : ω} (hr : Releases net l d.pool d.world pool world)
    (leases : List (Lease κ)) :
    ({ d with pool, world, leases } : Depot ω κ).Accounted := by
  have hb := h.balanced l.endpoint
  have hcirc (ho : d.pool.closed = false) := h.circulates ho l.endpoint
  cases hr with
  | shelves hr hc hq =>
    exact h.settle rfl rfl rfl hq (hb.shelved hl _).relieved
      (fun ho => (hcirc ho).shelved l.id l.connection) fun _ _ => rfl
  | retires hr hq =>
    exact h.settle rfl rfl rfl hq (hb.retired hl).relieved hcirc fun _ _ => rfl

end Leasing

section Closing

variable {as bs : List (Closing κ)}

theorem uncounted_parts (c : Closing κ) (e : Endpoint) :
    ((as ++ c :: bs).map (·.uncounted e)).sum =
      ((as ++ bs).map (·.uncounted e)).sum + c.uncounted e := by
  simp
  omega

theorem Accounted.advanced (h : d.Accounted) {c c' : Closing κ}
    (hd : d.closings = as ++ c :: bs) {pool : Pool κ} {world : ω}
    (hc : pool.closed = d.pool.closed)
    (hn : ∀ b, (d.pool.site? b).isSome = true → (pool.site? b).isSome = true)
    (hb : ∀ b n m, (d.pool.site b).Balanced n (m + c.uncounted b) →
      (pool.site b).Balanced n (m + c'.uncounted b))
    (he : ∀ b ∈ c'.endpoints, b ∈ c.endpoints) :
    ({ d with pool, world, closings := as ++ c' :: bs } : Depot ω κ).Accounted := by
  have hopen : d.pool.closed ≠ false := fun ho => by simpa [hd] using h.unclosed ho
  refine ⟨fun b => ?_, fun ho => absurd (hc ▸ ho) hopen, fun ho => absurd (hc ▸ ho) hopen,
    fun x hx b hm => hn b ?_⟩
  · have hs := h.balanced b
    unfold uncountedAt at hs ⊢
    rw [hd, uncounted_parts] at hs
    rw [uncounted_parts]
    exact hb b _ _ hs
  · obtain rfl | hx := mem_parts hx
    · exact h.entered c (by simp [hd]) b (he b hm)
    · exact h.entered x (hd ▸ mem_of_mem_parts hx) b hm

theorem Accounted.moved (h : d.Accounted) {c c' : Closing κ} (hd : d.closings = as ++ c :: bs)
    {pool : Pool κ} {world : ω} (hc : Closing.Moves net d.pool d.world c c' pool world) :
    ({ d with pool, world, closings := as ++ c' :: bs } : Depot ω κ).Accounted := by
  cases hc with
  | rests => exact h.advanced hd rfl (fun _ hb => hb) (fun _ _ _ hb => hb) fun _ hb => hb
  | ends => exact h.advanced hd rfl (fun _ hb => hb) (fun _ _ _ hb => hb) fun _ hb => nomatch hb
  | @empties e es pool hq =>
    refine h.advanced hd hq.closed hq.entered (fun b n m hb => ?_) fun b hb => hb
    by_cases he : b = e
    · subst he
      rw [hq.here, Closing.uncounted, if_pos rfl]
      exact hb.emptied
    · rw [hq.others b he, Closing.uncounted, if_neg (Ne.symm he)]
      exact hb
  | closes e connection rest count es =>
    exact h.advanced hd rfl (fun _ hb => hb) (fun _ _ _ hb => hb) fun _ hb => hb
  | @counts e count es pool hq =>
    refine h.advanced hd hq.closed hq.entered (fun b n m hb => ?_) fun b => List.mem_cons_of_mem e
    by_cases he : b = e
    · subst he
      rw [Closing.uncounted, if_pos rfl] at hb
      rw [hq.here]
      exact hb.counted
    · rw [Closing.uncounted, if_neg (Ne.symm he)] at hb
      rw [hq.others b he]
      exact hb

theorem uncountedAt_begun {c : Closing κ} (hc : c.uncounted e = 0) (pool : Pool κ) :
    ({ d with pool, closings := d.closings ++ [c] } : Depot ω κ).uncountedAt e =
      d.uncountedAt e := by
  simp [uncountedAt, hc]

end Closing

/-! ## Every run -/

theorem Accounted.step (h : d.Accounted) (hd : d.Sound limit) (hs : Step net d d') :
    d'.Accounted := by
  cases hs with
  | @begin now e a pool ha =>
    obtain ⟨-, ticket, deadline, rfl, hq⟩ := Acquisition.start_cases ha
    refine h.settle rfl rfl rfl hq ?_ (h.circulates · e) fun b hb => ?_
    · rw [waits_waiting, List.append_nil]
      exact (h.balanced e).queued ticket
    · rw [waits_ne hb, List.append_nil]
  | @wait as bs now e a a' pool world hl ha =>
    have hk := Acquisition.looks_poll net now a d.world (hd.entered hl)
    rw [ha] at hk
    exact h.looked hl hk d.leases
  | @lease as bs now e a l pool world hl ha =>
    have hk := Acquisition.looks_poll net now a d.world (hd.entered hl)
    rw [ha] at hk
    exact h.looked hl hk (d.leases ++ [l])
  | @fail as bs now e a error pool world hl ha =>
    have hk := Acquisition.looks_poll net now a d.world (hd.entered hl)
    rw [ha] at hk
    exact h.looked hl hk d.leases
  | @leave as bs e a hl =>
    have hb := h.balanced e
    rw [waitingAt, hl] at hb
    refine h.settle rfl rfl rfl (Acquisition.puts_drop a (hd.entered hl)) ?_ (fun ho => ?_)
      fun b hb => hl ▸ (waits_ne hb).symm
    · cases a with
      | waiting ticket deadline =>
        rw [waits_waiting] at hb
        exact hb.left ticket
      | dialing lease wait =>
        rw [waits_dialing] at hb
        exact hb.relieved
    · cases a with
      | waiting ticket deadline => exact h.circulates ho e
      | dialing lease wait => exact h.circulates ho e
  | @use as bs l connection world hl => exact ⟨h.balanced, h.circulates, h.unclosed, h.entered⟩
  | @release as bs l result pool world hl hr =>
    have hm := hd.mem_leased hl
    have hk := Pool.releases_release net d.world hm
    rw [hr] at hk
    exact h.released hm hk _
  | @discard as bs l pool world hl hr =>
    have hm := hd.mem_leased hl
    have hq := puts_discard net d.world hm
    rw [hr] at hq
    exact h.settle rfl rfl rfl hq ((h.balanced l.endpoint).dropped hm).relieved
      (h.circulates · l.endpoint) fun _ _ => rfl
  | @close c pool hc =>
    have hn := Closing.entered_start h.entered hc
    obtain ⟨ht, rfl, rfl⟩ | ⟨-, rfl, rfl⟩ := Closing.start_cases hc
    · refine ⟨fun b => ?_, h.circulates, (fun ho => nomatch ht.symm.trans ho), hn⟩
      rw [uncountedAt_begun rfl]
      exact h.balanced b
    · refine ⟨fun b => ?_, nofun, nofun, hn⟩
      rw [uncountedAt_begun rfl]
      exact h.balanced b
  | @closeOn as bs c c' pool world hl hc =>
    have hk := Closing.moves_step net d.world (h.entered c (by simp [hl]))
    rw [hc] at hk
    exact h.moved hl hk
  | others world => exact ⟨h.balanced, h.circulates, h.unclosed, h.entered⟩

theorem Steps.accounted {d₀ : Depot ω κ} (hd : d₀.Sound limit) (h : d₀.Accounted)
    (hs : Steps net d₀ d) : d.Accounted := by
  induction hs with
  | refl => exact h
  | tail hs h' ih => exact ih.step (hs.sound hd) h'

theorem accounted_ofPool {config : PoolConfig} {eventLoop : EventLoop} {p : Pool κ}
    (hp : Pool.start config eventLoop = .ok p) (w : ω) : (ofPool p w).Accounted := by
  unfold Pool.start at hp
  split at hp
  · cases hp
  · cases hp
    refine ⟨fun e => balanced_ofLimit _, fun _ e => rfl, fun _ => rfl, ?_⟩
    rintro c ⟨⟩

theorem uncountedAt_eq_zero (hd : ∀ c ∈ d.closings, c.isDone = true) (e : Endpoint) :
    d.uncountedAt e = 0 := by
  refine List.sum_eq_zero_iff_forall_eq_nat.mpr fun n hn => ?_
  obtain ⟨c, hc, rfl⟩ := List.mem_map.mp hn
  have hc := hd c hc
  cases c with
  | done => rfl
  | sites es => cases hc
  | connections b rest count es => cases hc

/-- However acquisitions, leases and closings of a pool move, and whatever the network answers, the
pool's figures for each endpoint account for every connection made there, up to those that a closing
under way has taken out and will count. While the pool is open, they account for every return as
well. What is pending are the acquisitions that wait for a permit. -/
theorem stats_balance {config : PoolConfig} {eventLoop : EventLoop} {p : Pool κ}
    (hp : Pool.start config eventLoop = .ok p) {w : ω} (hs : Steps net (ofPool p w) d)
    (e : Endpoint) :
    let s := d.pool.stats e
    s.created = s.idle + s.leased + s.closed + s.discarded + d.uncountedAt e ∧
      ((∀ c ∈ d.closings, c.isDone = true) →
        s.created = s.idle + s.leased + s.closed + s.discarded) ∧
      (d.pool.closed = false →
        s.created = s.idle + s.leased + s.closed + s.discarded ∧
          s.released = s.idle + s.reused ∧
          s.created + s.reused = s.leased + s.released + s.closed + s.discarded) ∧
      s.pending = d.waitingAt e := by
  have hd := hs.accounted (sound_ofPool hp w) (accounted_ofPool hp w)
  have hb := hd.balanced e
  have hcreated := hb.created
  have hdone : (∀ c ∈ d.closings, c.isDone = true) → d.uncountedAt e = 0 := (uncountedAt_eq_zero · e)
  intro s
  have hs : s = (d.pool.site e).stats := Pool.stats_eq d.pool e
  simp only [hs, Site.stats]
  refine ⟨hcreated, fun h => ?_, fun ho => ?_, hb.pending⟩
  · rw [hdone h] at hcreated
    exact hcreated
  · have hcirc := hd.circulates ho e
    have hz := hdone (by simp [hd.unclosed ho])
    unfold Site.Circulates at hcirc
    omega

/-- Of two connections one is on lease and the other has been taken out by a closing, while a third
acquisition waits. -/
theorem stats_balance_while_closing :
    let config : PoolConfig := { PoolConfig.standard with maxConnections := 2 }
    let e : Endpoint := ⟨.http, "origin", 80⟩
    let d := [Turn.begin 0 e, .poll 0 0, .begin 0 e, .poll 1 0, .begin 0 e, .poll 0 5, .poll 0 5,
        .release 0, .close, .closeOn 0].foldl (take Rehearsal.network)
      (ofPool ⟨config, [], false, 1, 0, .borrowed⟩ { Rehearsal.Stage.empty with dialDelay := 5 })
    (d.pool.stats e).created = 2 ∧ (d.pool.stats e).leased = 1 ∧ d.uncountedAt e = 1 ∧
      (d.pool.stats e).created = (d.pool.stats e).idle + (d.pool.stats e).leased +
        (d.pool.stats e).closed + (d.pool.stats e).discarded + d.uncountedAt e ∧
      (d.pool.stats e).pending = d.waitingAt e := by
  intro config e d
  have hp : Pool.start config .borrowed =
      .ok (⟨config, [], false, 1, 0, .borrowed⟩ : Pool Rehearsal.Line) := rfl
  have hn : (d.pool.stats e).created = 2 ∧ (d.pool.stats e).leased = 1 ∧ d.uncountedAt e = 1 := by
    refine ⟨?_, ?_, ?_⟩
    · decide +kernel
    · decide +kernel
    · decide +kernel
  obtain ⟨hb, -, -, hw⟩ := stats_balance hp (steps_foldl_take _ _) e
  exact ⟨hn.1, hn.2.1, hn.2.2, hb, hw⟩

end Depot

end Courier
