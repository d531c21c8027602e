import Courier.Proofs.Pool.Fairness

/-! # What is done to a site

Whoever moves in a pool does one thing to one site, or nothing at all. What has been done can be
told without the state it was done in, so that it can be done again to a site that is in another.
-/

namespace Courier

variable {ω κ : Type}

/-- One thing that can be done to a site. -/
inductive Deed (κ : Type)
  | queue (ticket : Nat)
  | leave (ticket : Nat)
  | claim (ticket : Nat)
  | reuse (ticket lease : Nat)
  | connect (lease : Nat)
  | free
  | shelve (lease : Nat) (connection : κ)
  | retire (lease : Nat)
  | drop (lease : Nat)
  | empty
  | count (closed : Nat)

def Deed.on (s : Site κ) : Deed κ → Site κ
  | queue ticket => s.queued ticket
  | leave ticket => s.left ticket
  | claim ticket => s.claimed ticket
  | reuse ticket lease => (s.claimed ticket).reusing lease s.idle.tail
  | connect lease => s.connected lease
  | free => s.relieved
  | shelve lease connection => (s.shelved lease connection).relieved
  | retire lease => (s.retired lease).relieved
  | drop lease => (s.dropped lease).relieved
  | empty => s.emptied
  | count closed => s.counted closed

namespace Site

variable {s : Site κ} {b e : Endpoint} {ds ds' : List (Endpoint × Deed κ)} {deed : Deed κ}

/-- What has been done at any endpoints is done again to the site of this one. -/
def replay (b : Endpoint) (ds : List (Endpoint × Deed κ)) (s : Site κ) : Site κ :=
  ds.foldl (fun s x => if x.1 = b then x.2.on s else s) s

@[simp] theorem replay_append :
    s.replay b (ds ++ ds') = (s.replay b ds).replay b ds' := List.foldl_append

@[simp] theorem replay_self (e : Endpoint) (deed : Deed κ) (s : Site κ) :
    s.replay e [(e, deed)] = deed.on s := if_pos rfl

theorem replay_ne (hb : b ≠ e) (deed : Deed κ) (s : Site κ) : s.replay b [(e, deed)] = s :=
  if_neg (Ne.symm hb)

end Site

/-! ## Who does what -/

namespace Acquisition

/-- What it does by going away. -/
def departure : Acquisition → Deed κ
  | waiting ticket _ => .leave ticket
  | dialing _ _ => .free

/-- What a look at it does, by what comes of the look. -/
def deeds (a : Acquisition) : Acquired κ → List (Deed κ)
  | .pending (dialing _ _) =>
    match a with
    | waiting ticket _ => [.claim ticket]
    | dialing _ _ => []
  | .pending (waiting _ _) => []
  | .leased l =>
    match a with
    | waiting ticket _ => [.reuse ticket l.id]
    | dialing _ _ => [.connect l.id]
  | .failed _ => [a.departure]

end Acquisition

/-- The lease that a look at an acquisition comes to. -/
def Acquired.obtained : Acquired κ → List (Lease κ)
  | .pending _ => []
  | .leased l => [l]
  | .failed _ => []

namespace Lease

/-- What giving a connection back does. -/
def homecoming (net : Network ω κ) (l : Lease κ) (p : Pool κ) : Deed κ :=
  if net.isReusable l.connection && !p.closed then .shelve l.id l.connection else .retire l.id

end Lease

namespace Closing

/-- What the next step of a closing does. -/
def deeds : Closing κ → List (Endpoint × Deed κ)
  | sites (e :: _) => [(e, .empty)]
  | connections e [] count _ => [(e, .count count)]
  | _ => []

end Closing

namespace Pool

variable {p q : Pool κ} {e b : Endpoint} {w w' : ω} {net : Network ω κ}

theorem Puts.replay (deed : Deed κ) (h : Puts e (deed.on (p.site e)) p q) (b : Endpoint) :
    q.site b = (p.site b).replay b [(e, deed)] := by
  by_cases hb : b = e
  · subst hb
    rw [Site.replay_self, h.here]
  · rw [h.others b hb]
    exact (Site.replay_ne hb deed _).symm

theorem Releases.replay {l : Lease κ} (h : Releases net l p w q w') (b : Endpoint) :
    q.site b = (p.site b).replay b [(l.endpoint, l.homecoming net p)] := by
  cases h with
  | shelves hr hc hq =>
    rw [Lease.homecoming, if_pos (by simp [hr, hc])]
    exact Puts.replay (.shelve l.id l.connection) hq b
  | retires hr hq =>
    rw [Lease.homecoming, if_neg (by rcases hr with hr | hr <;> simp [hr])]
    exact Puts.replay (.retire l.id) hq b

end Pool

theorem Acquisition.Looks.replay {net : Network ω κ} {e : Endpoint} {p q : Pool κ} {w w' : ω}
    {a : Acquisition} {r : Acquired κ} (h : Looks net e p w a r q w') (b : Endpoint) :
    q.site b = (p.site b).replay b ((a.deeds r).map (e, ·)) := by
  cases h with
  | waits a => cases a <;> rfl
  | @leaves ticket _ _ _ hq => exact Pool.Puts.replay (.leave ticket) hq b
  | @reuses ticket _ connection rest _ _ _ hi hq =>
    have hrest : rest = (p.site e).idle.tail := by rw [hi, List.tail_cons]
    rw [hrest] at hq
    exact Pool.Puts.replay (p := { p with nextLease := p.nextLease + 1 })
      (.reuse ticket p.nextLease) hq b
  | @begins ticket _ _ _ _ _ _ hq =>
    exact Pool.Puts.replay (p := { p with nextLease := p.nextLease + 1 }) (.claim ticket) hq b
  | expires _ hq => exact Pool.Puts.replay .free hq b
  | fails _ hq => exact Pool.Puts.replay .free hq b
  | @connects lease _ _ _ _ _ hq => exact Pool.Puts.replay (.connect lease) hq b

theorem Closing.Moves.replay {net : Network ω κ} {p q : Pool κ} {w w' : ω} {c c' : Closing κ}
    (h : Moves net p w c c' q w') (b : Endpoint) :
    q.site b = (p.site b).replay b c.deeds := by
  cases h with
  | rests => rfl
  | ends => rfl
  | empties hq => exact Pool.Puts.replay .empty hq b
  | closes => rfl
  | @counts _ count _ _ hq => exact Pool.Puts.replay (.count count) hq b

namespace Depot

open Pool

/-- Somebody moves, and what is done to a site by it. -/
inductive Does (net : Network ω κ) :
    Depot ω κ → List (Endpoint × Deed κ) → Depot ω κ → Prop

  | begin {d : Depot ω κ} {now : Nat} {e : Endpoint} {a : Acquisition} {pool : Pool κ}
      (ha : Acquisition.start now e d.pool = .ok (a, pool)) :
      Does net d [(e, .queue d.pool.nextTicket)]
        { d with pool, acquisitions := d.acquisitions ++ [(e, a)] }

  | poll {d : Depot ω κ} {before behind : List (Endpoint × Acquisition)} {now : Nat}
      {e : Endpoint} {a : Acquisition} {r : Acquired κ} {pool : Pool κ} {world : ω}
      (hd : d.acquisitions = before ++ (e, a) :: behind)
      (ha : a.poll net now e d.pool d.world = (r, pool, world)) :
      Does net d ((a.deeds r).map (e, ·))
        { d with
          pool, world
          acquisitions := before ++ (r.pursued e ++ behind)
          leases := d.leases ++ r.obtained }

  | leave {d : Depot ω κ} {before behind : List (Endpoint × Acquisition)} {e : Endpoint}
      {a : Acquisition} (hd : d.acquisitions = before ++ (e, a) :: behind) :
      Does net d [(e, a.departure)]
        { d with pool := a.drop e d.pool, acquisitions := before ++ behind }

  | use {d : Depot ω κ} {before behind : List (Lease κ)} {l : Lease κ} (connection : κ) (world : ω)
      (hd : d.leases = before ++ l :: behind) :
      Does net d [] { d with world, leases := before ++ { l with connection } :: behind }

  | release {d : Depot ω κ} {before behind : List (Lease κ)} {l : Lease κ}
      {result : Except Error Unit} {pool : Pool κ} {world : ω}
      (hd : d.leases = before ++ l :: behind)
      (hl : d.pool.release net l d.world = (result, pool, world)) :
      Does net d [(l.endpoint, l.homecoming net d.pool)]
        { d with pool, world, leases := before ++ behind }

  | discard {d : Depot ω κ} {before behind : List (Lease κ)} {l : Lease κ} {pool : Pool κ}
      {world : ω} (hd : d.leases = before ++ l :: behind)
      (hl : d.pool.discard net l d.world = (pool, world)) :
      Does net d [(l.endpoint, .drop l.id)] { d with pool, world, leases := before ++ behind }

  | close {d : Depot ω κ} {c : Closing κ} {pool : Pool κ} (hc : Closing.start d.pool = (c, pool)) :
      Does net d [] { d with pool, closings := d.closings ++ [c] }

  | closeOn {d : Depot ω κ} {before behind : List (Closing κ)} {c c' : Closing κ} {pool : Pool κ}
      {world : ω} (hd : d.closings = before ++ c :: behind)
      (hc : c.step net d.pool d.world = (c', pool, world)) :
      Does net d c.deeds { d with pool, world, closings := before ++ c' :: behind }

  | others {d : Depot ω κ} (world : ω) : Does net d [] { d with world }

variable {net : Network ω κ} {limit : Nat} {d d' : Depot ω κ} {ds : List (Endpoint × Deed κ)}

theorem Does.step (h : Does net d ds d') : Step net d d' := by
  cases h with
  | begin ha => exact .begin ha
  | @poll before behind now e a r pool world hd ha =>
    cases r with
    | pending a' =>
      rw [Acquired.obtained, List.append_nil]
      exact .wait hd ha
    | leased l => exact .lease hd ha
    | failed error =>
      rw [Acquired.obtained, List.append_nil]
      exact .fail hd ha
  | leave hd => exact .leave hd
  | use connection world hd => exact .use connection world hd
  | release hd hl => exact .release hd hl
  | discard hd hl => exact .discard hd hl
  | close hc => exact .close hc
  | closeOn hd hc => exact .closeOn hd hc
  | others world => exact .others world

theorem Step.does (h : Step net d d') : ∃ ds, Does net d ds d' := by
  cases h with
  | begin ha => exact ⟨_, .begin ha⟩
  | wait hd ha =>
    have hp := Does.poll hd ha
    rw [Acquired.obtained, List.append_nil] at hp
    exact ⟨_, hp⟩
  | lease hd ha => exact ⟨_, .poll hd ha⟩
  | fail hd ha =>
    have hp := Does.poll hd ha
    rw [Acquired.obtained, List.append_nil] at hp
    exact ⟨_, hp⟩
  | leave hd => exact ⟨_, .leave hd⟩
  | use connection world hd => exact ⟨_, .use connection world hd⟩
  | release hd hl => exact ⟨_, .release hd hl⟩
  | discard hd hl => exact ⟨_, .discard hd hl⟩
  | close hc => exact ⟨_, .close hc⟩
  | closeOn hd hc => exact ⟨_, .closeOn hd hc⟩
  | others world => exact ⟨_, .others world⟩

/-- The sites afterwards are known from those before and from what has been done. -/
theorem Does.replay (hd : d.Sound limit) (ha : d.Accounted) (h : Does net d ds d')
    (b : Endpoint) : d'.pool.site b = (d.pool.site b).replay b ds := by
  cases h with
  | begin hx =>
    obtain ⟨-, ticket, deadline, rfl, hq⟩ := Acquisition.start_cases hx
    cases (Acquisition.ticket_start hx).1
    exact Puts.replay (.queue d.pool.nextTicket) hq b
  | @poll before behind now e a r pool world hl hx =>
    have hk := Acquisition.looks_poll net now a d.world (hd.entered hl)
    rw [hx] at hk
    exact hk.replay b
  | @leave before behind e a hl =>
    have hq := Acquisition.puts_drop a (hd.entered hl)
    cases a with
    | waiting ticket deadline => exact Puts.replay (.leave ticket) hq b
    | dialing lease wait => exact Puts.replay .free hq b
  | use => rfl
  | @release before behind l result pool world hl hx =>
    have hk := releases_release net d.world (hd.mem_leased hl)
    rw [hx] at hk
    exact hk.replay b
  | @discard before behind l pool world hl hx =>
    have hq := puts_discard net d.world (hd.mem_leased hl)
    rw [hx] at hq
    exact Puts.replay (.drop l.id) hq b
  | close hx =>
    obtain ⟨-, -, rfl⟩ | ⟨-, -, rfl⟩ := Closing.start_cases hx
    · rfl
    · rfl
  | @closeOn before behind c c' pool world hl hx =>
    have hk := Closing.moves_step net d.world (ha.entered c (by simp [hl]))
    rw [hx] at hk
    exact hk.replay b
  | others => rfl

end Depot

end Courier
