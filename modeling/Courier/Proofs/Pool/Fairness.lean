import Courier.Proofs.Pool.Queueing

/-! # Permits are handed out in order

Acquisitions, leases and closings of a pool shift the queues of its endpoints and do nothing else
to them, so the queues stay in order. A permit is free, or it is with an acquisition, or on lease.
An acquisition gets past its wait for a permit just if one has been handed to it, at whatever time
it is looked at.
-/

namespace Courier

variable {ω κ : Type}

/-- Does the acquisition go on, with a permit? -/
def Acquired.isPast : Acquired κ → Bool
  | .pending a => !a.isWaiting
  | .leased _ => true
  | .failed _ => false

namespace Acquisition

def ticket? : Acquisition → Option Nat
  | waiting ticket _ => some ticket
  | dialing _ _ => none

variable {e : Endpoint} {p q : Pool κ}

theorem isPast_poll (net : Network ω κ) (now ticket deadline : Nat) (w : ω)
    (hc : (p.site e).permits.closed = false) :
    ((waiting ticket deadline).poll net now e p w).1.isPast =
      (p.site e).permits.isGranted ticket := by
  dsimp only [poll, pollPermit]
  rw [if_neg (by simp [hc])]
  cases hg : (p.site e).permits.isGranted ticket with
  | true =>
    rw [if_pos rfl]
    unfold proceed
    dsimp only
    split <;> rfl
  | false =>
    rw [if_neg (by simp)]
    split <;> rfl

/-! ## Tickets -/

theorem ticket_start {now : Nat} {a : Acquisition} (h : start now e p = .ok (a, q)) :
    a.ticket? = some p.nextTicket ∧ q.nextTicket = p.nextTicket + 1 := by
  unfold start at h
  split at h
  · cases h
  · cases h
    exact ⟨rfl, rfl⟩

end Acquisition

theorem Closing.nextTicket_step (net : Network ω κ) (c : Closing κ) (p : Pool κ) (w : ω) :
    (c.step net p w).2.1.nextTicket = p.nextTicket := by
  unfold step
  split <;> rfl

namespace Depot

open Pool Site Queue

/-- The tickets of those that wait at an endpoint for a permit or have yet to take one up. -/
def tickets (e : Endpoint) (as : List (Endpoint × Acquisition)) : List Nat :=
  as.filterMap fun x => if x.1 = e then x.2.ticket? else none

def queueAt (d : Depot ω κ) (e : Endpoint) : Queue :=
  ⟨(d.pool.site e).permits, tickets e d.acquisitions, d.pool.nextTicket, d.pool.closed⟩

/-- Has the acquisition been handed a permit? -/
def served (d : Depot ω κ) (e : Endpoint) : Acquisition → Bool
  | .waiting ticket _ => (d.pool.site e).permits.isGranted ticket
  | .dialing _ _ => true

def heldAt (d : Depot ω κ) (e : Endpoint) : Nat :=
  d.acquisitions.countP (fun x => x.1 = e && d.served e x.2) + (d.leasedAt e).length

variable {net : Network ω κ} {limit : Nat} {d d' : Depot ω κ} {e b : Endpoint}

section Tickets

variable {as bs : List (Endpoint × Acquisition)} {a : Acquisition}

@[simp] theorem tickets_append (e : Endpoint) (as bs : List (Endpoint × Acquisition)) :
    tickets e (as ++ bs) = tickets e as ++ tickets e bs :=
  List.filterMap_append

@[simp] theorem tickets_waiting (e : Endpoint) (ticket deadline : Nat)
    (as : List (Endpoint × Acquisition)) :
    tickets e ((e, .waiting ticket deadline) :: as) = ticket :: tickets e as := by
  simp [tickets, Acquisition.ticket?]

@[simp] theorem tickets_dialing (e : Endpoint) (lease : Nat) (wait : Wait)
    (as : List (Endpoint × Acquisition)) :
    tickets e ((e, .dialing lease wait) :: as) = tickets e as := by
  simp [tickets, Acquisition.ticket?]

theorem tickets_ne (hb : b ≠ e) : tickets b (as ++ (e, a) :: bs) = tickets b (as ++ bs) := by
  simp [tickets, hb.symm]

theorem mem_tickets {ticket deadline : Nat} (h : (e, .waiting ticket deadline) ∈ as) :
    ticket ∈ tickets e as := by
  refine List.mem_filterMap.mpr ⟨_, h, ?_⟩
  rw [if_pos rfl]
  rfl

theorem queueAt_waiting {ticket deadline : Nat}
    (hd : d.acquisitions = as ++ (e, .waiting ticket deadline) :: bs) :
    d.queueAt e = ⟨(d.pool.site e).permits, tickets e as ++ ticket :: tickets e bs,
      d.pool.nextTicket, d.pool.closed⟩ := by
  rw [queueAt, hd, tickets_append, tickets_waiting]

theorem queueAt_dialing {lease : Nat} {wait : Wait}
    (hd : d.acquisitions = as ++ (e, .dialing lease wait) :: bs) :
    d.queueAt e = ⟨(d.pool.site e).permits, tickets e (as ++ bs), d.pool.nextTicket,
      d.pool.closed⟩ := by
  rw [queueAt, hd, tickets_append, tickets_dialing, tickets_append]

end Tickets

/-! ## Every step is a shift -/

theorem shift_settle {p pool : Pool κ} {t : Site κ} {world : ω}
    {acquisitions : List (Endpoint × Acquisition)} {leases : List (Lease κ)}
    {closings : List (Closing κ)} (hn : p.sites = d.pool.sites) (hk : p.config = d.pool.config)
    (hc : p.closed = d.pool.closed) (hp : Puts e t p pool)
    (hle : d.pool.nextTicket ≤ pool.nextTicket)
    (hq : (d.queueAt e).Shift
      ⟨t.permits, tickets e acquisitions, pool.nextTicket, d.pool.closed⟩)
    (hw : ∀ b, b ≠ e → tickets b acquisitions = tickets b d.acquisitions) (b : Endpoint) :
    (d.queueAt b).Shift
      (({ pool, world, acquisitions, leases, closings } : Depot ω κ).queueAt b) := by
  have hclosed : pool.closed = d.pool.closed := hp.closed.trans hc
  by_cases hb : b = e
  · subst hb
    rw [← hp.here, ← hclosed] at hq
    exact hq
  · have hsite : pool.site b = d.pool.site b := (hp.others b hb).trans (site_congr hn hk b)
    have hto : ({ pool, world, acquisitions, leases, closings } : Depot ω κ).queueAt b =
        ⟨(d.pool.site b).permits, tickets b d.acquisitions, pool.nextTicket, d.pool.closed⟩ := by
      rw [queueAt, hsite, hw b hb, hclosed]
    rw [hto]
    exact .rests hle id

theorem shift_settle_kept {p pool : Pool κ} {t : Site κ} {world : ω}
    {acquisitions : List (Endpoint × Acquisition)} {leases : List (Lease κ)}
    {closings : List (Closing κ)} (hs : p.sites = d.pool.sites) (hk : p.config = d.pool.config)
    (hc : p.closed = d.pool.closed) (hp : Puts e t p pool)
    (hn : pool.nextTicket = d.pool.nextTicket)
    (hq : (d.queueAt e).Shift
      ⟨t.permits, tickets e acquisitions, d.pool.nextTicket, d.pool.closed⟩)
    (hw : ∀ b, b ≠ e → tickets b acquisitions = tickets b d.acquisitions) (b : Endpoint) :
    (d.queueAt b).Shift
      (({ pool, world, acquisitions, leases, closings } : Depot ω κ).queueAt b) := by
  rw [← hn] at hq
  exact shift_settle hs hk hc hp (Nat.le_of_eq hn.symm) hq hw b

section Acquiring

variable {as bs : List (Endpoint × Acquisition)} {a : Acquisition} {r : Acquired κ}
  {pool : Pool κ} {world : ω}

theorem shift_begun {now : Nat} (ha : Acquisition.start now e d.pool = .ok (a, pool))
    (b : Endpoint) :
    (d.queueAt b).Shift
      (({ d with pool, acquisitions := d.acquisitions ++ [(e, a)] } : Depot ω κ).queueAt b) := by
  obtain ⟨-, ticket, deadline, rfl, hq⟩ := Acquisition.start_cases ha
  obtain ⟨hticket, hnext⟩ := Acquisition.ticket_start ha
  cases hticket
  refine shift_settle rfl rfl rfl hq (by omega) ?_ (fun b hb => ?_) b
  · rw [tickets_append, tickets_waiting, hnext]
    exact .joins
  · rw [tickets_ne hb, List.append_nil]

theorem shift_looked (hd : d.acquisitions = as ++ (e, a) :: bs)
    (ha : Acquisition.Looks net e d.pool d.world a r pool world)
    (hn : pool.nextTicket = d.pool.nextTicket) (leases : List (Lease κ)) (b : Endpoint) :
    (d.queueAt b).Shift
      (({ d with pool, world, leases, acquisitions := as ++ (r.pursued e ++ bs) } :
        Depot ω κ).queueAt b) := by
  have hgone (b : Endpoint) (hb : b ≠ e) : tickets b (as ++ bs) = tickets b d.acquisitions := by
    rw [hd, tickets_ne hb]
  cases ha with
  | waits a =>
    have hq : tickets b (as ++ (e, a) :: bs) = tickets b d.acquisitions := by rw [hd]
    change Queue.Shift _ ⟨_, tickets b (as ++ (e, a) :: bs), _, _⟩
    rw [hq]
    exact .rests (Nat.le_refl _) id
  | leaves error hq =>
    refine shift_settle_kept rfl rfl rfl hq hn ?_ hgone b
    rw [queueAt_waiting hd, tickets_append]
    exact .leaves
  | reuses hc hg hi hq =>
    refine shift_settle_kept (p := { d.pool with nextLease := d.pool.nextLease + 1 }) rfl rfl rfl hq
      hn ?_ hgone b
    rw [queueAt_waiting hd, tickets_append]
    exact .claims hg
  | begins wait hc hg hi hq =>
    refine shift_settle_kept (p := { d.pool with nextLease := d.pool.nextLease + 1 }) rfl rfl rfl hq
      hn ?_ (fun b hb => (tickets_ne hb).trans (hgone b hb)) b
    rw [queueAt_waiting hd, tickets_append, tickets_dialing]
    exact .claims hg
  | expires error hq =>
    refine shift_settle_kept rfl rfl rfl hq hn ?_ hgone b
    rw [queueAt_dialing hd]
    exact .frees
  | fails _ hq =>
    refine shift_settle_kept rfl rfl rfl hq hn ?_ hgone b
    rw [queueAt_dialing hd]
    exact .frees
  | connects _ hq =>
    refine shift_settle_kept rfl rfl rfl hq hn ?_ hgone b
    rw [queueAt_dialing hd]
    exact .rests (Nat.le_refl _) id

theorem shift_polled {now : Nat} (hd : d.Sound limit) (hl : d.acquisitions = as ++ (e, a) :: bs)
    (hx : a.poll net now e d.pool d.world = (r, pool, world)) (leases : List (Lease κ))
    (b : Endpoint) :
    (d.queueAt b).Shift
      (({ d with pool, world, leases, acquisitions := as ++ (r.pursued e ++ bs) } :
        Depot ω κ).queueAt b) := by
  have hk := Acquisition.looks_poll net now a d.world (hd.entered hl)
  rw [hx] at hk
  exact shift_looked hl hk (Acquisition.constant_poll hx).nextTicket leases b

theorem shift_left (hd : d.acquisitions = as ++ (e, a) :: bs)
    (he : (d.pool.site? e).isSome = true) (b : Endpoint) :
    (d.queueAt b).Shift
      (({ d with pool := a.drop e d.pool, acquisitions := as ++ bs } : Depot ω κ).queueAt b) := by
  refine shift_settle_kept rfl rfl rfl (Acquisition.puts_drop a he)
    (Acquisition.constant_drop a e d.pool).nextTicket ?_ (fun b hb => hd ▸ (tickets_ne hb).symm) b
  cases a with
  | waiting ticket deadline =>
    rw [queueAt_waiting hd, tickets_append]
    exact .leaves
  | dialing lease wait =>
    rw [queueAt_dialing hd]
    exact .frees

end Acquiring

/-- Whatever moves in a pool, the queue at each endpoint is shifted. -/
theorem Step.shift (hd : d.Sound limit) (ha : d.Accounted) (hs : Step net d d') (b : Endpoint) :
    (d.queueAt b).Shift (d'.queueAt b) := by
  cases hs with
  | @begin now e a pool hx => exact shift_begun hx b
  | wait hl hx => exact shift_polled hd hl hx d.leases b
  | lease hl hx => exact shift_polled hd hl hx _ b
  | fail hl hx => exact shift_polled hd hl hx d.leases b
  | leave hl => exact shift_left hl (hd.entered hl) b
  | use connection world hl => exact .rests (Nat.le_refl _) id
  | @release as bs l result pool world hl hx =>
    have hk := Pool.releases_release net d.world (hd.mem_leased hl)
    have hn := (Pool.constant_release hx).nextTicket
    rw [hx] at hk
    cases hk with
    | shelves hr hc hq => exact shift_settle_kept rfl rfl rfl hq hn .frees (fun _ _ => rfl) b
    | retires hr hq => exact shift_settle_kept rfl rfl rfl hq hn .frees (fun _ _ => rfl) b
  | @discard as bs l pool world hl hx =>
    have hq := puts_discard net d.world (hd.mem_leased hl)
    have hn := (Pool.constant_discard hx).nextTicket
    rw [hx] at hq
    exact shift_settle_kept rfl rfl rfl hq hn .frees (fun _ _ => rfl) b
  | @close c pool hx =>
    obtain ⟨-, -, rfl⟩ | ⟨-, -, rfl⟩ := Closing.start_cases hx
    · exact .rests (Nat.le_refl _) id
    · exact .rests (Nat.le_refl _) fun _ => rfl
  | @closeOn as bs c c' pool world hl hx =>
    have hclosed : d.pool.closed = true := by
      by_contra ho
      have hnone := ha.unclosed (Bool.not_eq_true _ ▸ ho)
      simp [hl] at hnone
    have hk := Closing.moves_step net d.world (ha.entered c (by simp [hl]))
    have hn := Closing.nextTicket_step net c d.pool d.world
    rw [hx] at hk hn
    cases hk with
    | rests => exact .rests (Nat.le_refl _) id
    | ends => exact .rests (Nat.le_refl _) id
    | empties hq =>
      exact shift_settle_kept rfl rfl rfl hq hn (.closes hclosed) (fun _ _ => rfl) b
    | closes e connection rest count es => exact .rests (Nat.le_refl _) id
    | counts hq =>
      exact shift_settle_kept rfl rfl rfl hq hn (.rests (Nat.le_refl _) id) (fun _ _ => rfl) b
  | others world => exact .rests (Nat.le_refl _) id

theorem Step.waiting_cases {ticket deadline : Nat} (hd : d.Sound limit) (hs : Step net d d')
    (hm : (e, .waiting ticket deadline) ∈ d'.acquisitions) :
    (e, .waiting ticket deadline) ∈ d.acquisitions ∨ ticket = d.pool.nextTicket := by
  cases hs with
  | @begin now b a pool ha =>
    rcases List.mem_append.mp hm with hm | hm
    · exact .inl hm
    · cases List.mem_singleton.mp hm
      cases (Acquisition.ticket_start ha).1
      exact .inr rfl
  | @wait before behind now b a a' pool world hl ha =>
    have hk := Acquisition.looks_poll net now a d.world (hd.entered hl)
    rw [ha] at hk
    rw [hl]
    rcases List.mem_append.mp hm with hm | hm
    · exact .inl (List.mem_append_left _ hm)
    · rcases List.mem_cons.mp hm with hm | hm
      · cases hm
        cases hk
        exact .inl List.mem_append_cons_self
      · exact .inl (List.mem_append_right _ (List.mem_cons_of_mem _ hm))
  | @lease before behind now b a l pool world hl ha =>
    rw [hl]
    exact .inl ((sublist_parts ..).subset hm)
  | @fail before behind now b a error pool world hl ha =>
    rw [hl]
    exact .inl ((sublist_parts ..).subset hm)
  | @leave before behind b a hl =>
    rw [hl]
    exact .inl ((sublist_parts ..).subset hm)
  | _ => exact .inl hm

/-! ## Every run -/

theorem Steps.orderly {d₀ : Depot ω κ} (hd : d₀.Sound limit) (ha : d₀.Accounted)
    (h : (d₀.queueAt b).Orderly) (hs : Steps net d₀ d) : (d.queueAt b).Orderly := by
  induction hs with
  | refl => exact h
  | tail hs h' ih => exact ih.shift (h'.shift (hs.sound hd) (hs.accounted hd ha) b)

theorem Steps.handed {t : Nat} (hd : d.Sound limit) (ha : d.Accounted)
    (h : (d.queueAt b).Orderly) (ht : Handed t (d.queueAt b)) (hs : Steps net d d') :
    Handed t (d'.queueAt b) := by
  induction hs with
  | refl => exact ht
  | tail hs h' ih =>
    exact ih.shift (hs.orderly hd ha h) (h'.shift (hs.sound hd) (hs.accounted hd ha) b)

theorem orderly_ofPool {config : PoolConfig} {eventLoop : EventLoop} {p : Pool κ}
    (hp : Pool.start config eventLoop = .ok p) (w : ω) (e : Endpoint) :
    ((ofPool p w).queueAt e).Orderly := by
  unfold Pool.start at hp
  split at hp
  · cases hp
  · cases hp
    exact orderly_ofCount _ _ _

/-! ## Permits that are held -/

theorem countP_served (p : Permits) (e : Endpoint) (as : List (Endpoint × Acquisition))
    (f : Acquisition → Bool)
    (hw : ∀ ticket deadline, f (.waiting ticket deadline) = p.isGranted ticket)
    (hd : ∀ lease wait, f (.dialing lease wait) = true) :
    as.countP (fun x => x.1 = e && f x.2) =
      (tickets e as).countP p.isGranted + ((as.filter (·.1 = e)).map (·.2.dials)).sum := by
  induction as with
  | nil => rfl
  | cons x as ih =>
    obtain ⟨b, a⟩ := x
    by_cases hb : b = e
    · subst hb
      cases a with
      | waiting ticket deadline =>
        simp [hw, ih, List.countP_cons, Acquisition.dials]
        omega
      | dialing lease wait =>
        simp [hd, ih, Acquisition.dials]
        omega
    · have ht : tickets e ([] ++ (b, a) :: as) = tickets e ([] ++ as) := tickets_ne (Ne.symm hb)
      rw [List.nil_append, List.nil_append] at ht
      simp [hb, ht, ih]

/-- Of those in line as many have been handed a permit as permits have been granted. -/
theorem countP_line {q : Queue} (h : q.Orderly) :
    q.line.countP q.permits.isGranted = q.permits.granted.length := by
  rw [← h.served, List.countP_append]
  have hgranted : q.permits.granted.countP q.permits.isGranted = q.permits.granted.length :=
    List.countP_eq_length.mpr fun t ht => List.contains_iff_mem.mpr ht
  have hwaiting : q.permits.waiting.countP q.permits.isGranted = 0 := by
    refine List.countP_eq_zero.mpr fun t ht hg => ?_
    exact Nat.lt_irrefl t (h.granted_lt_waiting (List.contains_iff_mem.mp hg) ht)
  rw [hgranted, hwaiting, Nat.add_zero]

theorem free_add_heldAt (hd : d.Sound limit) (h : (d.queueAt e).Orderly) :
    (d.pool.site e).permits.free + d.heldAt e = limit := by
  have hpermits := (hd.within e).permits
  have hcount := countP_served (d.pool.site e).permits e d.acquisitions (d.served e)
    (fun _ _ => rfl) fun _ _ => rfl
  have hline : (tickets e d.acquisitions).countP (d.pool.site e).permits.isGranted = _ :=
    countP_line h
  unfold Permits.spare at hpermits
  rw [heldAt, hcount, hline]
  change _ + ((d.pool.site e).permits.granted.length + d.dialsAt e + _) = _
  omega

theorem served_waiting (d : Depot ω κ) (e : Endpoint) (ticket deadline : Nat) :
    d.served e (.waiting ticket deadline) = true ↔ ticket ∈ (d.queueAt e).permits.granted :=
  List.contains_iff_mem

/-- One who stands further behind, or comes only now, has a later ticket. -/
theorem ticket_lt_of_later {as bs : List (Endpoint × Acquisition)} {t t' deadline deadline' : Nat}
    (hd : d.Sound limit) (h : (d.queueAt e).Orderly)
    (hab : d.acquisitions = as ++ (e, .waiting t deadline) :: bs) (hs : Step net d d')
    (hlater : (e, .waiting t' deadline') ∈ bs ∨ (e, .waiting t' deadline') ∉ d.acquisitions)
    (hm : (e, .waiting t' deadline') ∈ d'.acquisitions) : t < t' := by
  have hline : t ∈ (d.queueAt e).line := mem_tickets (hab ▸ List.mem_append_cons_self)
  rcases hlater with hb | hb
  · have hsorted := h.sorted
    rw [queueAt_waiting hab] at hsorted
    exact List.rel_of_pairwise_cons (List.pairwise_append.mp hsorted).2.1 (mem_tickets hb)
  · rw [(hs.waiting_cases hd hm).resolve_left hb]
    exact h.fresh t hline

/-- However acquisitions, leases and closings of a pool move, and whatever the network answers: as
long as the pool is open, the permits of each endpoint that are free and those that are with an
acquisition or on lease make up the limit, and no acquisition is without a permit while one is free.
An acquisition gets past its wait when it is looked at, at whatever time, just if it has been handed
a permit. Whoever waits at an endpoint has been handed a permit before one who came later, or comes
only now, is handed one, and keeps it until they take it up or go away. -/
theorem permits_in_order {config : PoolConfig} {eventLoop : EventLoop} {p : Pool κ}
    (hp : Pool.start config eventLoop = .ok p) {w : ω} (hs : Steps net (ofPool p w) d)
    (ho : d.pool.closed = false) (e : Endpoint) :
    (d.pool.site e).permits.free + d.heldAt e = config.maxConnections ∧
    (0 < (d.pool.site e).permits.free → ∀ a, (e, a) ∈ d.acquisitions → d.served e a = true) ∧
    (∀ a, (e, a) ∈ d.acquisitions → a.isWaiting = true → ∀ now world,
      (a.poll net now e d.pool world).1.isPast = d.served e a) ∧
    ∀ as bs a, d.acquisitions = as ++ (e, a) :: bs →
      (∀ b d', Step net d d' → (e, b) ∈ bs ∨ (e, b) ∉ d.acquisitions → b.isWaiting = true →
        (e, b) ∈ d'.acquisitions → d'.served e b = true → d.served e a = true) ∧
      (d.served e a = true → ∀ d', Steps net d d' → (e, a) ∈ d'.acquisitions →
        d'.served e a = true) := by
  have hd := hs.sound (sound_ofPool hp w)
  have ha := hs.accounted (sound_ofPool hp w) (accounted_ofPool hp w)
  have hq : (d.queueAt e).Orderly :=
    hs.orderly (sound_ofPool hp w) (accounted_ofPool hp w) (orderly_ofPool hp w e)
  refine ⟨free_add_heldAt hd hq, ?_, ?_, ?_⟩
  · intro hf a hm
    cases a with
    | waiting ticket deadline =>
      exact (served_waiting ..).mpr (hq.granted_of_free hf (mem_tickets hm))
    | dialing lease wait => rfl
  · intro a hm hw now world
    cases a with
    | waiting ticket deadline =>
      exact Acquisition.isPast_poll net now ticket deadline world (hq.unclosed ho)
    | dialing lease wait => cases hw
  · intro as bs a hab
    cases a with
    | dialing lease wait => exact ⟨fun _ _ _ _ _ _ _ => rfl, fun _ _ _ _ => rfl⟩
    | waiting ticket deadline =>
      have hline : ticket ∈ (d.queueAt e).line := mem_tickets (hab ▸ List.mem_append_cons_self)
      constructor
      · intro b d' hstep hlater hw hm hserved
        cases b with
        | dialing lease wait => cases hw
        | waiting ticket' deadline' =>
          have hlt := ticket_lt_of_later hd hq hab hstep hlater hm
          rw [served_waiting] at hserved ⊢
          exact hq.granted_before (hstep.shift hd ha e) hline hlt hserved
      · intro hserved d' hsteps hm
        rw [served_waiting] at hserved ⊢
        exact (hsteps.handed hd ha hq (hq.handed hline hserved)).granted (mem_tickets hm)

theorem step_release {place : Nat} {l : Lease κ} (h : d.leases[place]? = some l) :
    Step net d (d.take net (.release place)) := by
  dsimp only [take]
  rw [h]
  dsimp only
  rw [List.eraseIdx_eq_take_drop_succ]
  exact .release (parts_of_getElem? h) rfl

/-- Two acquisitions wait behind two leases. The first lease that is given back makes room for the
first of them, the second lease for the second, while the first has not looked yet. -/
theorem permits_in_order_two :
    let config : PoolConfig := { PoolConfig.standard with maxConnections := 2 }
    let e : Endpoint := ⟨.http, "origin", 80⟩
    let a := Acquisition.waiting 2 config.acquisitionMillis
    let b := Acquisition.waiting 3 config.acquisitionMillis
    let d := [Turn.begin 0 e, .poll 0 0, .poll 0 0, .begin 0 e, .poll 0 0, .poll 0 0, .begin 0 e,
        .begin 0 e, .release 0].foldl (take Rehearsal.network)
      (ofPool ⟨config, [], false, 1, 0, .borrowed⟩ Rehearsal.Stage.empty)
    let d' := d.take Rehearsal.network (.release 0)
    d.acquisitions = [(e, a), (e, b)] ∧ d.served e b = false ∧ d'.served e b = true ∧
      d.served e a = true ∧ d'.served e a = true ∧ (d.pool.site e).permits.free + d.heldAt e = 2 ∧
      (a.poll Rehearsal.network 0 e d.pool d.world).1.isPast = true := by
  intro config e a b d d'
  have hp : Pool.start config .borrowed =
      .ok (⟨config, [], false, 1, 0, .borrowed⟩ : Pool Rehearsal.Line) := rfl
  have hn : d.acquisitions = [(e, a), (e, b)] ∧ d.served e b = false ∧ d'.served e b = true ∧
      d'.acquisitions = [(e, a), (e, b)] ∧ d.pool.closed = false ∧
      d.leases[0]?.isSome = true := by
    decide +kernel
  obtain ⟨hab, hb, hb', hab', ho, hl⟩ := hn
  obtain ⟨l, hl⟩ := Option.isSome_iff_exists.mp hl
  have hs : Steps Rehearsal.network _ d := steps_foldl_take _ _
  obtain ⟨hfree, -, hpast, horder⟩ := permits_in_order hp hs ho e
  obtain ⟨hbefore, hkept⟩ := horder [] [(e, b)] a hab
  have ha : d.served e a = true :=
    hbefore b d' (step_release hl) (.inl (by simp)) rfl (by simp [hab']) hb'
  refine ⟨hab, hb, hb', ha, hkept ha d' (step_release hl).single (by simp [hab']), hfree, ?_⟩
  exact (hpast a (by simp [hab]) rfl 0 d.world).trans ha

/-- With a permit handed to each of two who wait, the later one is looked at first: it has a lease
while the first still waits. -/
theorem later_looked_at_first :
    let config : PoolConfig := { PoolConfig.standard with maxConnections := 2 }
    let e : Endpoint := ⟨.http, "origin", 80⟩
    let a := Acquisition.waiting 2 config.acquisitionMillis
    let b := Acquisition.waiting 3 config.acquisitionMillis
    let d := [Turn.begin 0 e, .poll 0 0, .poll 0 0, .begin 0 e, .poll 0 0, .poll 0 0, .begin 0 e,
        .begin 0 e, .release 0, .release 0].foldl (take Rehearsal.network)
      (ofPool ⟨config, [], false, 1, 0, .borrowed⟩ Rehearsal.Stage.empty)
    let d' := d.take Rehearsal.network (.poll 1 0)
    d.acquisitions = [(e, a), (e, b)] ∧ d.served e a = true ∧ d.served e b = true ∧
      d'.acquisitions = [(e, a)] ∧ d'.leases.map (·.id) = [3] ∧ d'.pool.closed = false := by
  decide +kernel

end Depot

end Courier
