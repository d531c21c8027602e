import Courier.Proofs.Pool.Effects

/-! # Numbered connections

A pool never looks into its connections, so that they can be given numbers: each connection made gets
the next one, and a register beside the world keeps the endpoint it was made for, and whether it has
been closed or aborted. With the numbers taken off, a pool of numbered connections does, step by
step, what the pool does without them.
-/

namespace Courier

variable {ω κ : Type}

structure Numbered (κ : Type) where
  number : Nat
  connection : κ

/-- A world, and what has become of the connections made in it. The number of a connection is the
place of its endpoint among the origins. -/
structure Register (ω : Type) where
  world : ω
  origins : List Endpoint
  closed : List Nat
  aborted : List Nat

/-- Whatever a connection does, it does under its number. -/
def Network.numbered (net : Network ω κ) : Network (Register ω) (Numbered κ) where
  dialDelay e r := net.dialDelay e r.world
  dial e r :=
    match net.dial e r.world with
    | (.ok connection, world) =>
      (.ok ⟨r.origins.length, connection⟩, { r with world, origins := r.origins ++ [e] })
    | (.error error, world) => (.error error, { r with world })
  sendDelay c r := net.sendDelay c.connection r.world
  send head body c r cells :=
    let sent := net.send head body c.connection r.world cells
    ⟨sent.result, ⟨c.number, sent.connection⟩, { r with world := sent.world }, sent.cells⟩
  headDelay c r := net.headDelay c.connection r.world
  readHead c r :=
    let (head, connection, world) := net.readHead c.connection r.world
    (head, ⟨c.number, connection⟩, { r with world })
  chunkDelay c r := net.chunkDelay c.connection r.world
  readChunk c r :=
    let (chunk, connection, world) := net.readChunk c.connection r.world
    (chunk, ⟨c.number, connection⟩, { r with world })
  isReusable c := net.isReusable c.connection
  abort c r :=
    let (connection, world) := net.abort c.connection r.world
    (⟨c.number, connection⟩, { r with world, aborted := r.aborted ++ [c.number] })
  close c r := { r with world := net.close c.connection r.world, closed := r.closed ++ [c.number] }

/-! ## Taking the numbers off -/

def Site.plain (s : Site (Numbered κ)) : Site κ where
  permits := s.permits
  idle := s.idle.map (·.connection)
  leased := s.leased
  pending := s.pending
  created := s.created
  reused := s.reused
  released := s.released
  closed := s.closed
  discarded := s.discarded

def Lease.plain (l : Lease (Numbered κ)) : Lease κ where
  id := l.id
  endpoint := l.endpoint
  reused := l.reused
  connection := l.connection.connection

def Pool.plain (p : Pool (Numbered κ)) : Pool κ where
  config := p.config
  sites := p.sites.map fun (e, s) => (e, s.plain)
  closed := p.closed
  nextLease := p.nextLease
  nextTicket := p.nextTicket
  eventLoop := p.eventLoop

def Acquired.plain : Acquired (Numbered κ) → Acquired κ
  | .pending a => .pending a
  | .leased l => .leased l.plain
  | .failed e => .failed e

def Closing.plain : Closing (Numbered κ) → Closing κ
  | .sites es => .sites es
  | .connections e remaining count es => .connections e (remaining.map (·.connection)) count es
  | .done => .done

namespace Pool

variable {p : Pool (Numbered κ)} {e : Endpoint}

theorem start_plain {config : PoolConfig} {eventLoop : EventLoop}
    (hp : Pool.start config eventLoop = .ok p) : Pool.start config eventLoop = .ok p.plain := by
  unfold Pool.start at hp ⊢
  split at hp
  · cases hp
  · cases hp
    rfl

theorem site?_plain (p : Pool (Numbered κ)) (e : Endpoint) :
    p.plain.site? e = (p.site? e).map Site.plain := by
  unfold site? plain
  induction p.sites with
  | nil => rfl
  | cons entry sites ih =>
    obtain ⟨d, s⟩ := entry
    simp only [List.map_cons, List.lookup_cons]
    cases e == d with
    | true => rfl
    | false => exact ih

theorem site_plain (p : Pool (Numbered κ)) (e : Endpoint) :
    p.plain.site e = (p.site e).plain := by
  unfold site
  rw [site?_plain]
  cases p.site? e <;> rfl

theorem update_plain {f : Site (Numbered κ) → Site (Numbered κ)} {g : Site κ → Site κ}
    (h : ∀ s, g s.plain = (f s).plain) : p.plain.update e g = (p.update e f).plain := by
  simp only [update, plain, List.map_map]
  congr 2
  funext x
  obtain ⟨d, s⟩ := x
  by_cases hd : d = e
  · simp [hd, h]
  · simp [hd]

theorem enter_plain : p.plain.enter e = (p.enter e).plain := by
  unfold enter
  rw [site?_plain, Option.isSome_map]
  split
  · rfl
  · simp [plain, Site.plain, Site.ofLimit]

theorem freePermit_plain : p.plain.freePermit e = (p.freePermit e).plain := by
  unfold freePermit onPermits
  exact update_plain fun _ => rfl

variable (net : Network ω κ) (l : Lease (Numbered κ)) (r : Register ω)

theorem release_plain :
    p.plain.release net l.plain r.world =
      ((p.release net.numbered l r).1, (p.release net.numbered l r).2.1.plain,
        (p.release net.numbered l r).2.2.world) := by
  obtain ⟨id, e, reused, c⟩ := l
  have hs : (p.plain.site e).leased = (p.site e).leased := congrArg Site.leased (site_plain p e)
  have hshelved : p.plain.update e (Site.shelved · id c.connection) =
      (p.update e (Site.shelved · id c)).plain := update_plain fun _ => rfl
  have hretired : p.plain.update e (Site.retired · id) = (p.update e (Site.retired · id)).plain :=
    update_plain fun _ => rfl
  have hr : net.numbered.isReusable c = net.isReusable c.connection := rfl
  have hc : p.plain.closed = p.closed := rfl
  rw [release_eq, release_eq]
  simp only [Lease.plain, hs, hr, hc]
  split
  · split
    · refine congrArg (Prod.mk _) (congrArg (Prod.mk · _) ?_)
      exact (congrArg (freePermit · e) hshelved).trans freePermit_plain
    · refine congrArg (Prod.mk _) (Prod.ext ?_ ?_)
      · exact (congrArg (freePermit · e) hretired).trans freePermit_plain
      · exact (apply_ite Register.world (p.eventLoop.isRunning = true)
          (net.numbered.close c r) r).symm
  · rw [freePermit_plain]

theorem discard_plain :
    p.plain.discard net l.plain r.world =
      ((p.discard net.numbered l r).1.plain, (p.discard net.numbered l r).2.world) := by
  have hdropped : p.plain.update l.endpoint (Site.dropped · l.id) =
      (p.update l.endpoint (Site.dropped · l.id)).plain := update_plain fun _ => rfl
  refine Prod.ext ?_ rfl
  exact (congrArg (freePermit · l.endpoint) hdropped).trans freePermit_plain

end Pool

namespace Acquisition

open Pool

variable {p : Pool (Numbered κ)} {e : Endpoint} (net : Network ω κ) (r : Register ω)

theorem start_plain (now : Nat) :
    start now e p.plain = (start now e p).map fun x => (x.1, x.2.plain) := by
  have hc : p.plain.closed = p.closed := rfl
  have hn : { p.plain.enter e with nextTicket := p.nextTicket + 1 } =
      ({ p.enter e with nextTicket := p.nextTicket + 1 } : Pool (Numbered κ)).plain := by
    rw [enter_plain]
    rfl
  have hqueued : ({ p.enter e with nextTicket := p.nextTicket + 1 } : Pool _).plain.update e
      (Site.queued · p.nextTicket) = (({ p.enter e with nextTicket := p.nextTicket + 1 } :
        Pool _).update e (Site.queued · p.nextTicket)).plain := update_plain fun _ => rfl
  unfold start
  simp only [hc]
  split
  · rfl
  · refine congrArg Except.ok (Prod.ext ?_ ?_)
    · exact congrArg (fun q : Pool κ => waiting p.nextTicket (now + q.config.acquisitionMillis)) hn
    · exact (congrArg (update · e (Site.queued · p.nextTicket)) hn).trans hqueued

theorem withdraw_plain (ticket : Nat) : withdraw ticket e p.plain = (withdraw ticket e p).plain :=
  update_plain fun _ => rfl

theorem drop_plain (a : Acquisition) : a.drop e p.plain = (a.drop e p).plain := by
  cases a with
  | waiting ticket deadline => exact withdraw_plain ticket
  | dialing lease wait => exact freePermit_plain

theorem proceed_plain (now : Nat) :
    proceed net now e p.plain r.world =
      ((proceed net.numbered now e p r).1.plain, (proceed net.numbered now e p r).2.plain) := by
  have hi : (({ p.plain with nextLease := p.plain.nextLease + 1 } : Pool κ).site e).idle =
      ((({ p with nextLease := p.nextLease + 1 } : Pool (Numbered κ)).site e).idle.map
        (·.connection)) :=
    congrArg Site.idle (site_plain { p with nextLease := p.nextLease + 1 } e)
  unfold proceed
  dsimp only
  rw [hi]
  cases (({ p with nextLease := p.nextLease + 1 } : Pool (Numbered κ)).site e).idle with
  | nil => rfl
  | cons c rest =>
    have hreusing : ({ p with nextLease := p.nextLease + 1 } : Pool (Numbered κ)).plain.update e
        (Site.reusing · p.nextLease (rest.map (·.connection))) =
          (({ p with nextLease := p.nextLease + 1 } : Pool (Numbered κ)).update e
            (Site.reusing · p.nextLease rest)).plain := update_plain fun _ => rfl
    exact Prod.ext rfl hreusing

theorem pollPermit_plain (now ticket deadline : Nat) :
    pollPermit net now e ticket deadline p.plain r.world =
      ((pollPermit net.numbered now e ticket deadline p r).1.plain,
        (pollPermit net.numbered now e ticket deadline p r).2.plain) := by
  have hp : (p.plain.site e).permits = (p.site e).permits := congrArg Site.permits (site_plain p e)
  have hc : p.plain.config = p.config := rfl
  have hclaimed : p.plain.update e (Site.claimed · ticket) =
      (p.update e (Site.claimed · ticket)).plain := update_plain fun _ => rfl
  unfold pollPermit
  simp only [hp, hc]
  split
  · exact Prod.ext rfl (withdraw_plain ticket)
  · split
    · exact (congrArg (proceed net now e · r.world) hclaimed).trans (proceed_plain net r now)
    · split
      · exact Prod.ext rfl (withdraw_plain ticket)
      · rfl

theorem pollDial_plain (now lease : Nat) (wait : Wait) :
    pollDial net now e lease wait p.plain r.world =
      ((pollDial net.numbered now e lease wait p r).1.plain,
        (pollDial net.numbered now e lease wait p r).2.1.plain,
        (pollDial net.numbered now e lease wait p r).2.2.world) := by
  have hconnected : p.plain.update e (Site.connected · lease) =
      (p.update e (Site.connected · lease)).plain := update_plain fun _ => rfl
  unfold pollDial
  split
  · rfl
  · exact Prod.ext rfl (Prod.ext freePermit_plain rfl)
  · dsimp only [Network.numbered]
    rcases net.dial e r.world with ⟨error | c, world⟩
    · exact Prod.ext rfl (Prod.ext freePermit_plain rfl)
    · exact Prod.ext rfl (Prod.ext hconnected rfl)

theorem poll_plain (now : Nat) (a : Acquisition) :
    a.poll net now e p.plain r.world =
      ((a.poll net.numbered now e p r).1.plain, (a.poll net.numbered now e p r).2.1.plain,
        (a.poll net.numbered now e p r).2.2.world) := by
  cases a with
  | waiting ticket deadline =>
    exact congrArg (fun x : Acquired κ × Pool κ => (x.1, x.2, r.world))
      (pollPermit_plain net r now ticket deadline)
  | dialing lease wait => exact pollDial_plain net r now lease wait

end Acquisition

namespace Closing

open Pool

variable {p : Pool (Numbered κ)} (net : Network ω κ) (r : Register ω)

theorem start_plain : start p.plain = ((start p).1.plain, (start p).2.plain) := by
  have hc : p.plain.closed = p.closed := rfl
  unfold start
  simp only [hc]
  split
  · rfl
  · simp [plain, Pool.plain]

theorem step_plain (c : Closing (Numbered κ)) :
    c.plain.step net p.plain r.world =
      ((c.step net.numbered p r).1.plain, (c.step net.numbered p r).2.1.plain,
        (c.step net.numbered p r).2.2.world) := by
  match c with
  | done => rfl
  | sites [] => rfl
  | sites (e :: es) =>
    have hi : (p.plain.site e).idle = (p.site e).idle.map (·.connection) :=
      congrArg Site.idle (site_plain p e)
    have hl : (p.plain.site e).idle.length = (p.site e).idle.length := by simp [hi]
    have hemptied : p.plain.update e Site.emptied = (p.update e Site.emptied).plain :=
      update_plain fun _ => rfl
    refine Prod.ext ?_ (Prod.ext hemptied rfl)
    change connections e (p.plain.site e).idle (p.plain.site e).idle.length es = _
    rw [hl, hi]
    rfl
  | connections e [] count es =>
    have hcounted : p.plain.update e (Site.counted · count) =
        (p.update e (Site.counted · count)).plain := update_plain fun _ => rfl
    exact Prod.ext rfl (Prod.ext hcounted rfl)
  | connections e (c :: rest) count es => rfl

end Closing

/-! ## Depots -/

namespace Depot

variable {net : Network ω κ} {d d' : Depot ω κ}

theorem Step.turns (hs : Step net d d') :
    (∃ t, d' = d.take net t) ∨
      (∃ before l behind connection world, d.leases = before ++ l :: behind ∧
        d' = { d with world, leases := before ++ { l with connection } :: behind }) ∨
      ∃ world, d' = { d with world } := by
  cases hs with
  | @begin now e a pool ha => exact .inl ⟨.begin now e, by simp only [take, ha]⟩
  | @wait before behind now e a a' pool world hd ha =>
    refine .inl ⟨.poll before.length now, ?_⟩
    simp [take, hd, polled, ha]
  | @lease before behind now e a l pool world hd ha =>
    refine .inl ⟨.poll before.length now, ?_⟩
    simp [take, hd, polled, ha]
  | @fail before behind now e a error pool world hd ha =>
    refine .inl ⟨.poll before.length now, ?_⟩
    simp [take, hd, polled, ha]
  | @leave before behind e a hd =>
    refine .inl ⟨.leave before.length, ?_⟩
    simp [take, hd, List.eraseIdx_append_of_length_le]
  | @use before behind l connection world hd =>
    exact .inr (.inl ⟨before, l, behind, connection, world, hd, rfl⟩)
  | @release before behind l result pool world hd hl =>
    refine .inl ⟨.release before.length, ?_⟩
    simp [take, hd, hl, List.eraseIdx_append_of_length_le]
  | @discard before behind l pool world hd hl =>
    refine .inl ⟨.discard before.length, ?_⟩
    simp [take, hd, hl, List.eraseIdx_append_of_length_le]
  | @close c pool hc => exact .inl ⟨.close, by simp only [take, hc]⟩
  | @closeOn before behind c c' pool world hd hc =>
    refine .inl ⟨.closeOn before.length, ?_⟩
    simp [take, hd, hc]
  | others world => exact .inr (.inr ⟨world, rfl⟩)

end Depot

/-- A depot where every connection has its number. -/
abbrev Roster (ω κ : Type) :=
  Depot (Register ω) (Numbered κ)

def Depot.plain (n : Roster ω κ) : Depot ω κ where
  pool := n.pool.plain
  world := n.world.world
  acquisitions := n.acquisitions
  leases := n.leases.map (·.plain)
  closings := n.closings.map (·.plain)

namespace Roster

open Depot (Turn take)

def ofPool (p : Pool (Numbered κ)) (w : ω) : Roster ω κ :=
  Depot.ofPool p ⟨w, [], [], []⟩

/-- The steps of a depot, each connection keeping its number while it is on lease. -/
inductive Step (net : Network ω κ) : Roster ω κ → Roster ω κ → Prop

  | turn (n : Roster ω κ) (t : Turn) : Step net n (n.take net.numbered t)

  | use {n : Roster ω κ} {before behind : List (Lease (Numbered κ))} {l : Lease (Numbered κ)}
      (connection : κ) (world : ω) (hn : n.leases = before ++ l :: behind) :
      Step net n
        { n with
          world := { n.world with world }
          leases := before ++ { l with connection := ⟨l.connection.number, connection⟩ } :: behind }

  | others {n : Roster ω κ} (world : ω) : Step net n { n with world := { n.world with world } }

inductive Steps (net : Network ω κ) (n₀ : Roster ω κ) : Roster ω κ → Prop

  | refl : Steps net n₀ n₀

  | tail {n n' : Roster ω κ} : Steps net n₀ n → Step net n n' → Steps net n₀ n'

variable {net : Network ω κ} {n n' : Roster ω κ} {d : Depot ω κ}

theorem Step.depot (hs : Step net n n') : Depot.Steps net.numbered n n' := by
  cases hs with
  | turn t => exact Depot.steps_take t n
  | use connection world hn => exact (Depot.Step.use _ _ hn).single
  | others world => exact (Depot.Step.others _).single

theorem Steps.depot {n₀ : Roster ω κ} (hs : Steps net n₀ n) : Depot.Steps net.numbered n₀ n := by
  induction hs with
  | refl => exact .refl
  | tail _ hs ih => exact ih.trans hs.depot

theorem polled_plain (net : Network ω κ) (n : Roster ω κ) (place : Nat) (e : Endpoint)
    (a : Acquisition) (now : Nat) :
    n.plain.polled net place e a now = (n.polled net.numbered place e a now).plain := by
  have ha := Acquisition.poll_plain (p := n.pool) (e := e) net n.world now a
  unfold Depot.polled
  dsimp only [Depot.plain]
  rw [ha]
  rcases a.poll net.numbered now e n.pool n.world with ⟨b | l | error, pool, world⟩
  · rfl
  · simp [Acquired.plain]
  · rfl

theorem take_plain (net : Network ω κ) (n : Roster ω κ) (t : Turn) :
    n.plain.take net t = (n.take net.numbered t).plain := by
  cases t with
  | begin now e =>
    have ha := Acquisition.start_plain (p := n.pool) (e := e) now
    dsimp only [take, Depot.plain]
    rw [ha]
    cases Acquisition.start now e n.pool with
    | ok x => rfl
    | error error => rfl
  | poll place now =>
    have hl : n.plain.acquisitions[place]? = n.acquisitions[place]? := rfl
    dsimp only [take]
    rw [hl]
    cases n.acquisitions[place]? with
    | none => rfl
    | some x => exact polled_plain net n place x.1 x.2 now
  | leave place =>
    have hl : n.plain.acquisitions[place]? = n.acquisitions[place]? := rfl
    dsimp only [take]
    rw [hl]
    cases n.acquisitions[place]? with
    | none => rfl
    | some x =>
      have hd := Acquisition.drop_plain (p := n.pool) (e := x.1) x.2
      simp only [Depot.plain, hd]
  | release place =>
    have hl : n.plain.leases[place]? = n.leases[place]?.map (·.plain) := List.getElem?_map
    dsimp only [take]
    rw [hl]
    cases n.leases[place]? with
    | none => rfl
    | some l =>
      have hr := Pool.release_plain (p := n.pool) net l n.world
      dsimp only [Option.map_some]
      simp only [Depot.plain, hr, List.eraseIdx_eq_take_drop_succ, List.map_append, List.map_take,
        List.map_drop]
  | discard place =>
    have hl : n.plain.leases[place]? = n.leases[place]?.map (·.plain) := List.getElem?_map
    dsimp only [take]
    rw [hl]
    cases n.leases[place]? with
    | none => rfl
    | some l =>
      have hr := Pool.discard_plain (p := n.pool) net l n.world
      dsimp only [Option.map_some]
      simp only [Depot.plain, hr, List.eraseIdx_eq_take_drop_succ, List.map_append, List.map_take,
        List.map_drop]
  | close =>
    have hc := Closing.start_plain (p := n.pool)
    simp only [take, Depot.plain, hc, List.map_append, List.map_singleton]
  | closeOn place =>
    have hl : n.plain.closings[place]? = n.closings[place]?.map (·.plain) := List.getElem?_map
    dsimp only [take]
    rw [hl]
    cases n.closings[place]? with
    | none => rfl
    | some c =>
      have hc := Closing.step_plain (p := n.pool) net n.world c
      dsimp only [Option.map_some]
      simp only [Depot.plain, hc, List.map_append, List.map_cons, List.map_take, List.map_drop]

theorem plain_use {before behind : List (Lease (Numbered κ))} {l : Lease (Numbered κ)}
    (connection : κ) (world : ω) :
    ({ n with
        world := { n.world with world }
        leases := before ++ { l with connection := ⟨l.connection.number, connection⟩ } :: behind } :
      Roster ω κ).plain =
      { n.plain with
        world
        leases := before.map (·.plain) ++ { l.plain with connection } :: behind.map (·.plain) } := by
  simp [Depot.plain, Lease.plain]

theorem Step.plain (hs : Step net n n') : Depot.Steps net n.plain n'.plain := by
  cases hs with
  | turn t => exact take_plain net n t ▸ Depot.steps_take t n.plain
  | @use before behind l connection world hn =>
    have hl : n.plain.leases = before.map (·.plain) ++ l.plain :: behind.map (·.plain) := by
      simp [Depot.plain, hn]
    rw [plain_use]
    exact (Depot.Step.use connection world hl).single
  | others world => exact (Depot.Step.others world).single

theorem Steps.plain {n₀ : Roster ω κ} (hs : Steps net n₀ n) :
    Depot.Steps net n₀.plain n.plain := by
  induction hs with
  | refl => exact .refl
  | tail _ hs ih => exact ih.trans hs.plain

theorem lifts_step (hs : Depot.Step net n.plain d) : ∃ n', Step net n n' ∧ n'.plain = d := by
  obtain ⟨t, rfl⟩ | ⟨before, l, behind, connection, world, hl, rfl⟩ | ⟨world, rfl⟩ := hs.turns
  · exact ⟨n.take net.numbered t, .turn n t, (take_plain net n t).symm⟩
  · obtain ⟨as, cs, hn, rfl, hc⟩ := List.map_eq_append_iff.mp hl
    obtain ⟨m, bs, rfl, rfl, rfl⟩ := List.map_eq_cons_iff.mp hc
    exact ⟨_, .use connection world hn, plain_use connection world⟩
  · exact ⟨_, .others world, rfl⟩

theorem lifts_steps {n₀ : Roster ω κ} (hs : Depot.Steps net n₀.plain d) :
    ∃ n, Steps net n₀ n ∧ n.plain = d := by
  induction hs with
  | refl => exact ⟨n₀, .refl, rfl⟩
  | tail _ hs ih =>
    obtain ⟨n, hn, rfl⟩ := ih
    obtain ⟨n', hs', rfl⟩ := lifts_step hs
    exact ⟨n', hn.tail hs', rfl⟩

/-- The runs of a pool are those with numbered connections, without the numbers. -/
theorem steps_plain_iff {p : Pool (Numbered κ)} {w : ω} :
    Depot.Steps net (Depot.ofPool p.plain w) d ↔
      ∃ n, Steps net (ofPool p w) n ∧ n.plain = d := by
  constructor
  · intro hs
    have h₀ : (ofPool p w).plain = Depot.ofPool p.plain w := rfl
    rw [← h₀] at hs
    exact lifts_steps hs
  · rintro ⟨n, hn, rfl⟩
    exact hn.plain

end Roster

end Courier
