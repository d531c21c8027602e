import Courier.Proofs.Client.History
import Courier.Proofs.Client.Run
import Courier.Proofs.Pool.Effects

/-! # Leases are settled once

An attempt holds at most one lease. What a step does with it is one of five things: it keeps what it
has, begins an attempt without any, takes one, gives it back, or discards it. It is given back if
and only if the body was read to its end and the handler was content: its connection becomes idle,
or is left to be closed. The connection of a lease that is discarded is aborted.
-/

namespace Courier

variable {ω κ ξ η α : Type}

namespace Event

/-- Neither about a lease nor the start of an attempt. -/
def isLeaseFree : Event → Bool
  | leased _ => false
  | released _ => false
  | discarded _ => false
  | told .prepare => false
  | _ => true

theorem isLeaseFree_of_isRemark (e : Event) (h : e.isRemark = true) : e.isLeaseFree = true := by
  cases e with
  | told callback => cases callback <;> first | rfl | cases h
  | moved _ _ => rfl
  | decided _ _ => rfl
  | _ => cases h

end Event

/-! ## The ledger -/

/-- Books an event, where this lease is out. A lease is taken and an attempt begun only with none
out, and only the lease that is out can be settled. -/
def book (out : Option Nat) : Event → Option (Option Nat)
  | .leased id => if out = none then some (some id) else none
  | .released id => if out = some id then some none else none
  | .discarded id => if out = some id then some none else none
  | .told .prepare => if out = none then some none else none
  | _ => some out

/-- The lease that is out after a history, if its leases were settled in order and once each. -/
def ledger (t : List Event) : Option (Option Nat) :=
  t.foldlM book none

theorem ledger_append (t t' : List Event) :
    ledger (t ++ t') = (ledger t).bind fun out => t'.foldlM book out := by
  simp [ledger]

theorem book_of_isLeaseFree {e : Event} (h : e.isLeaseFree = true) (out : Option Nat) :
    book out e = some out := by
  cases e with
  | told callback => cases callback <;> first | rfl | cases h
  | leased _ => cases h
  | released _ => cases h
  | discarded _ => cases h
  | _ => rfl

theorem foldlM_book_of_isLeaseFree {t : List Event} (h : ∀ e ∈ t, e.isLeaseFree = true)
    (out : Option Nat) : t.foldlM book out = some out := by
  induction t with
  | nil => rfl
  | cons e t ih =>
    rw [List.foldlM_cons, book_of_isLeaseFree (h e (List.mem_cons_self ..))]
    exact ih fun d hd => h d (List.mem_cons_of_mem _ hd)

namespace Execution

variable {x y : Execution κ η α} {e : Event}

theorem Continues.ledger_eq (h : Continues Event.isLeaseFree x y) :
    ledger y.history = ledger x.history := by
  obtain ⟨es, he, hf⟩ := h
  rw [he, ledger_append]
  cases ledger x.history with
  | none => rfl
  | some out => exact foldlM_book_of_isLeaseFree hf out

/-- The history goes on with this event and others that have nothing to do with leases. -/
def Marks (e : Event) (x y : Execution κ η α) : Prop :=
  ∃ z, Continues Event.isLeaseFree x z ∧ Continues Event.isLeaseFree (z.note e) y

theorem Marks.ledger_eq (h : Marks e x y) {out : Option Nat}
    (ho : ledger x.history = some out) : ledger y.history = book out e := by
  obtain ⟨z, hx, hy⟩ := h
  rw [hy.ledger_eq]
  change ledger (z.history ++ [e]) = _
  rw [ledger_append, hx.ledger_eq, ho]
  simp

end Execution

/-! ## What becomes of a lease -/

/-- What tells a lease apart, whatever has become of its connection. -/
def Lease.key (l : Lease κ) : Nat × Endpoint :=
  (l.id, l.endpoint)

namespace Execution

variable {x : Execution κ η α}

/-- The body was read to its end and the handler was content. -/
def isDrained (x : Execution κ η α) : Bool :=
  match x.phase with
  | .streaming s =>
    match s.pump, s.verdict with
    | .ended (.ok .drained), some (.ok ()) => true
    | _, _ => false
  | _ => false

/-- The lease in hand and the world outside, once a step has used the connection if it does. -/
inductive Used (net : Network ω κ) (x : Execution κ η α) (w : World ω κ ξ) (l : Lease κ) :
    Lease κ → ω → Prop

  | unused : Used net x w l l w.outside

  | sent {head : RequestHead} {body : Option ByteStream} {due : Option Nat}
      {sent : Network.Sent ω κ} (hp : x.phase = .sending head body l due)
      (hs : net.send head body l.connection w.outside w.cells = sent) :
      Used net x w l { l with connection := sent.connection } sent.world

  | answered {wait : Wait} {result : Except Error ResponseHead} {connection : κ} {outside : ω}
      (hp : x.phase = .awaiting l wait)
      (hr : net.readHead l.connection w.outside = (result, connection, outside)) :
      Used net x w l { l with connection } outside

/-- What a step does with the lease in hand and with the pool. -/
inductive Tenancy (net : Network ω κ) (x : Execution κ η α) (w : World ω κ ξ) :
    Execution κ η α × World ω κ ξ → Prop

  | kept {x' : Execution κ η α} {w' : World ω κ ξ} (hd : x.isDrained = false)
      (hl : x'.phase.lease?.map Lease.key = x.phase.lease?.map Lease.key)
      (hh : Continues Event.isLeaseFree x x') (hp : w.pool.Undisturbed w'.pool) :
      Tenancy net x w (x', w')

  | begun {x' : Execution κ η α} (hl : x.phase.lease? = none) (hl' : x'.phase.lease? = none)
      (hh : Marks (.told .prepare) x x') : Tenancy net x w (x', w)

  | taken {x' : Execution κ η α} {w' : World ω κ ξ} {l : Lease κ} (hl : x.phase.lease? = none)
      (hl' : x'.phase.lease? = some l) (hh : Marks (.leased l.id) x x')
      (hp : w.pool.Taken w'.pool l) : Tenancy net x w (x', w')

  | released {x' : Execution κ η α} {w' : World ω κ ξ} {l : Lease κ} (hd : x.isDrained = true)
      (hl : x.phase.lease? = some l) (hl' : x'.phase.lease? = none)
      (hh : Marks (.released l.id) x x')
      (hp : w.pool.release net l w.outside = (.ok (), w'.pool, w'.outside))
      (hr : w.pool.Releases net l w.outside w'.pool w'.outside) : Tenancy net x w (x', w')

  | discarded {x' : Execution κ η α} {w' : World ω κ ξ} {l l' : Lease κ} {outside : ω}
      (hd : x.isDrained = false) (hl : x.phase.lease? = some l) (hl' : x'.phase.lease? = none)
      (hh : Marks (.discarded l.id) x x') (hu : Used net x w l l' outside)
      (hp : w.pool.Discarded w'.pool l) (ho : w'.outside = (net.abort l'.connection outside).2)
      (he : ∀ e, (w.pool.site? e).isSome = true → (w'.pool.site? e).isSome = true) :
      Tenancy net x w (x', w')

theorem Used.eq {net : Network ω κ} {w : World ω κ ξ} {l l' : Lease κ} {outside : ω}
    (hu : Used net x w l l' outside) : l' = { l with connection := l'.connection } := by
  cases hu <;> rfl

theorem isDrained_iff {s : Streaming κ} (hp : x.phase = .streaming s) :
    x.isDrained = true ↔ s.outcome? = some (.ok .drained) := by
  unfold isDrained Streaming.outcome?
  rw [hp]
  dsimp only
  rcases s.pump with _ | _ | ⟨_ | _ | _⟩ <;> rcases s.verdict with _ | _ | ⟨⟨⟩⟩ <;> simp

end Execution

namespace Streaming

variable {s : Streaming κ}

theorem lease_stepPump (net : Network ω κ) (now limit : Nat) (s : Streaming κ) (w : ω) :
    (s.stepPump net now limit w).2.1.lease.id = s.lease.id ∧
      (s.stepPump net now limit w).2.1.lease.endpoint = s.lease.endpoint := by
  unfold stepPump
  split
  · exact ⟨rfl, rfl⟩
  · split <;> exact ⟨rfl, rfl⟩
  · split
    · exact ⟨rfl, rfl⟩
    · split
      · exact ⟨rfl, rfl⟩
      · exact ⟨rfl, rfl⟩
      · unfold readChunk
        dsimp only
        split <;> exact ⟨rfl, rfl⟩

theorem lease_withBody (s : Streaming κ) (ch : Channel) : (s.withBody ch).lease = s.lease := by
  unfold withBody
  split <;> rfl

theorem lease_stepHandler (h : Handler η α) (s : Streaming κ) (state : η) (cells : Cells) :
    (s.stepHandler h state cells).1.lease = s.lease := by
  unfold stepHandler
  split
  · rfl
  · split <;> exact lease_withBody ..

theorem lease_start (net : Network ω κ) (now limit : Nat) (l : Lease κ) (b : ResponseBody)
    (w : ω) : (start net now limit l b w).lease = l := by
  unfold start
  cases b <;> rfl

end Streaming

namespace Execution

variable {c : Client ω κ ξ} {h : Handler η α} {x y : Execution κ η α} {w v : World ω κ ξ}
  {r : Execution κ η α × World ω κ ξ}

/-- A history in order, the lease in hand out at its endpoint, and a site for the one awaited. -/
structure Tenure (x : Execution κ η α) (w : World ω κ ξ) : Prop where
  ledger : ledger x.history = some (x.phase.lease?.map (·.id))
  seated : ∀ l, x.phase.lease? = some l → l.id ∈ (w.pool.site l.endpoint).leased
  entered : ∀ request a, x.phase = .acquiring request a →
    (w.pool.site? request.endpoint).isSome = true
  unheard : x.isAtRest = false → x.signal.aborted = false

theorem Ends.lease? (he : Ends x w r) : r.1.phase.lease? = none := by
  rcases he.phase with ⟨_, hp⟩ | ⟨_, hp⟩ <;> simp [hp, Phase.lease?]

theorem Ends.continues (he : Ends x w r) : Continues Event.isLeaseFree x r.1 :=
  he.history.mono Event.isLeaseFree_of_isRemark

theorem continues_moveTo_free (x : Execution κ η α) (next : ExecutionState) :
    Continues Event.isLeaseFree x (x.moveTo next) :=
  (continues_moveTo x next).mono Event.isLeaseFree_of_isRemark

theorem continues_handed (net : Network ω κ) (x : Execution κ η α) (l : Lease κ) (r : Response)
    (w : World ω κ ξ) : Continues Event.isLeaseFree x (x.handed net h l r w) := by
  have ht : Continues Event.isLeaseFree x (x.tellHeaders h r.head) :=
    ⟨[.told (.headersReceived r.head)], rfl, by simp [Event.isLeaseFree]⟩
  exact (ht.trans (continues_moveTo_free _ .streamingBody)).trans
    ⟨[.told (.onStream r.body.declared)], rfl, by simp [Event.isLeaseFree]⟩

theorem continues_pumped (x : Execution κ η α) (read : Option (Except Error (Option Bytes)))
    (s : Streaming κ) : Continues Event.isLeaseFree x (x.pumped read s) := by
  cases read with
  | none => exact .refl x
  | some result => exact .note x rfl

theorem Ends.kept {net : Network ω κ} (he : Ends y v r) (hd : x.isDrained = false)
    (hl : x.phase.lease? = none) (hh : Continues Event.isLeaseFree x y)
    (hp : w.pool.Undisturbed v.pool) : Tenancy net x w r := by
  refine .kept hd ?_ (hh.trans he.continues) ?_
  · rw [he.lease?, hl]
  · rw [he.pool]
    exact hp

theorem Tenure.discarded {net : Network ω κ} (ht : Tenure x w) {l l' : Lease κ} {outside : ω}
    (he : Ends (y.discard net l' v).1 (y.discard net l' v).2 r) (hd : x.isDrained = false)
    (hl : x.phase.lease? = some l) (hh : Continues Event.isLeaseFree x y)
    (hu : Used net x w l l' outside) (hp : v.pool = w.pool) (ho : v.outside = outside) :
    Tenancy net x w r := by
  have hs := ht.seated l hl
  have hl' := hu.eq
  generalize l'.connection = connection at hl'
  subst hl' ho
  have hq : r.2.pool = (w.pool.discard net { l with connection } v.outside).1 := hp ▸ he.pool
  refine .discarded hd hl he.lease? ⟨y, hh, he.continues⟩ hu ?_ he.outside ?_
  · have hd := Pool.discarded_discard (l := { l with connection }) net v.outside hs
    rw [hq]
    exact ⟨hd.out, hd.site, hd.others⟩
  · rw [hq]
    exact (Pool.returned_discard (l := { l with connection }) net v.outside hs).entered

theorem tenancy_settle (ht : Tenure x w) {s : Streaming κ} {result : Except Error BodyEnd}
    (hp : x.phase = .streaming s) (ho : s.outcome? = some result) :
    Tenancy c.network x w (x.settle c h s.lease result w) := by
  have hl : x.phase.lease? = some s.lease := by simp [hp, Phase.lease?]
  have hdr := isDrained_iff hp
  rw [ho] at hdr
  unfold settle
  cases result with
  | error e =>
    have hd : x.isDrained = false := by simpa using hdr
    exact ht.discarded (ends_fail e _ _) hd hl (.refl x) .unused rfl rfl
  | ok bodyEnd =>
    cases bodyEnd with
    | abandoned =>
      have hd : x.isDrained = false := by simpa using hdr
      exact ht.discarded (ends_succeed _ _) hd hl (.refl x) .unused rfl rfl
    | drained =>
      have hc := w.pool.release_cases c.network (w := w.outside) (ht.seated _ hl)
      rcases hr : w.pool.release c.network s.lease w.outside with ⟨result, pool, outside⟩
      rw [hr] at hc
      obtain ⟨rfl, _⟩ := hc
      have he := ends_succeed (h := h) (x.note (.released s.lease.id)) (w.withPool pool outside)
      have hq := Pool.releases_release c.network w.outside (ht.seated _ hl)
      rw [hr] at hq
      exact .released (hdr.mpr rfl) hl he.lease? ⟨x, .refl x, he.continues⟩ hr hq

theorem Tenure.advance (ht : Tenure x w) (ha : Advance c h x w r) :
    Tenancy c.network x w r := by
  cases ha with
  | prepare hp =>
    exact .begun (by simp [hp, Phase.lease?]) rfl ⟨x, .refl x, .refl _⟩
  | refused hp _ =>
    exact (ends_fail _ _ _).kept (by simp [isDrained, hp]) (by simp [hp, Phase.lease?])
      (continues_moveTo_free x _) (.refl _)
  | unqueued hp _ _ =>
    exact (ends_fail _ _ _).kept (by simp [isDrained, hp]) (by simp [hp, Phase.lease?])
      (continues_moveTo_free x _) (.refl _)
  | queued hp _ ha =>
    refine .kept (by simp [isDrained, hp]) (by simp [hp, Phase.lease?])
      (continues_moveTo_free x _) ?_
    exact (Acquisition.undisturbed_start ha).1
  | @acquiring request a _ _ _ hp _ ha =>
    have hq := Acquisition.polls_poll c.network w.now a w.outside (ht.entered request a hp)
    rw [ha] at hq
    exact .kept (by simp [isDrained, hp]) (by simp [hp, Phase.lease?]) (.refl x) hq
  | @unacquired request a _ _ _ hp _ ha =>
    have hq := Acquisition.polls_poll c.network w.now a w.outside (ht.entered request a hp)
    rw [ha] at hq
    exact (ends_fail _ _ _).kept (by simp [isDrained, hp]) (by simp [hp, Phase.lease?]) (.refl x) hq
  | @leased request a lease _ _ hp _ ha =>
    have hq := Acquisition.polls_poll c.network w.now a w.outside (ht.entered request a hp)
    rw [ha] at hq
    refine .taken (by simp [hp, Phase.lease?]) rfl ⟨x, .refl x, ?_⟩ hq.2
    exact (continues_moveTo_free _ _).trans (.note _ rfl)
  | unsent hp _ hs =>
    exact ht.discarded (ends_fail _ _ _) (by simp [isDrained, hp]) (by simp [hp, Phase.lease?])
      (.refl x) (.sent hp hs) rfl rfl
  | sent hp _ _ =>
    exact .kept (by simp [isDrained, hp]) (by simp [hp, Phase.lease?, awaitingHead, Lease.key])
      (continues_moveTo_free x _) (.refl _)
  | expired hp _ =>
    exact ht.discarded (ends_fail _ _ _) (by simp [isDrained, hp]) (by simp [hp, Phase.lease?])
      (.refl x) .unused rfl rfl
  | headless hp _ hr =>
    exact ht.discarded (ends_fail _ _ _) (by simp [isDrained, hp]) (by simp [hp, Phase.lease?])
      (.refl x) (.answered hp hr) rfl rfl
  | withheld hp _ hr _ =>
    exact ht.discarded (ends_fail _ _ _) (by simp [isDrained, hp]) (by simp [hp, Phase.lease?])
      (.note x rfl) (.answered hp hr) rfl rfl
  | rejected hp _ hr _ _ =>
    exact ht.discarded (ends_fail _ _ _) (by simp [isDrained, hp]) (by simp [hp, Phase.lease?])
      (.note x rfl) (.answered hp hr) rfl rfl
  | responded hp _ _ _ _ =>
    refine .kept (by simp [isDrained, hp]) ?_ ?_ (.refl _)
    · simp [hp, Phase.lease?, handed, Streaming.lease_start, Lease.key]
    · exact Continues.trans (.note x rfl) (continues_handed _ _ _ _ _)
  | settled hp ho => exact tenancy_settle ht hp ho
  | @pumped s s' _ _ hp ho _ hs =>
    have hl := Streaming.lease_stepPump c.network w.now w.pool.config.socketMillis
      { s with turn := .pump } w.outside
    rw [hs] at hl
    refine .kept ?_ ?_ (continues_pumped x _ _) (.refl _)
    · simpa [ho] using isDrained_iff hp
    · simpa [hp, Phase.lease?, Execution.pumped, Lease.key] using hl
  | @handled s s' _ _ hp ho _ hs =>
    have hl : s'.lease = s.lease := by
      have hl := Streaming.lease_stepHandler h { s with turn := .handler } x.handler w.cells
      rwa [hs] at hl
    refine .kept ?_ ?_ (.refl x) (.refl _)
    · simpa [ho] using isDrained_iff hp
    · simp [hp, Phase.lease?, hl]
  | resume hp _ =>
    exact .kept (by simp [isDrained, hp]) (by simp [hp, Phase.lease?]) (.refl x) (.refl _)

theorem tenancy_letGo (ht : Tenure x w) (ha : x.isDrained = false)
    (hr : Ends (x.letGo c.network w).1 (x.letGo c.network w).2 r) :
    Tenancy c.network x w r := by
  unfold letGo at hr
  split at hr
  · rename_i request a hp
    exact hr.kept ha (by simp [hp, Phase.lease?]) (.refl x) (Acquisition.undisturbed_drop a _ _)
  · cases hl : x.phase.lease? with
    | some l =>
      simp only [hl] at hr
      exact ht.discarded hr ha hl (.refl x) .unused rfl rfl
    | none =>
      simp only [hl] at hr
      exact hr.kept ha hl (.refl x) (.refl _)

theorem isDrained_of_isAtRest (hr : x.isAtRest = true) : x.isDrained = false := by
  cases hd : x.isDrained with
  | false => rfl
  | true =>
    cases hp : x.phase with
    | streaming s =>
      have ho := (isDrained_iff hp).mp hd
      simp [isAtRest, hp, ho] at hr
    | _ => simp [isDrained, hp] at hd

theorem Tenure.step (ht : Tenure x w) (hs : x.step c h w = some r) :
    Tenancy c.network x w r := by
  obtain ⟨_, ⟨ha, rfl⟩ | ⟨_, hadv⟩⟩ := step_cases hs
  · have hr : x.isAtRest = true := by
      cases hr : x.isAtRest with
      | true => rfl
      | false => cases ha.symm.trans (ht.unheard hr)
    exact tenancy_letGo ht (isDrained_of_isAtRest hr) (ends_interrupted _ _ _ _)
  · exact ht.advance hadv

theorem tenancy_kill (ht : Tenure x w) (hr : x.isAtRest = true) :
    Tenancy c.network x w (x.kill c.network w) := by
  have hd := isDrained_of_isAtRest hr
  unfold kill
  split
  · exact .kept hd rfl (.refl x) (.refl _)
  · exact tenancy_letGo ht hd (ends_finish _ _ _)

/-! ## Tenure is kept -/

theorem Ends.isAtRest (he : Ends x w r) : r.1.isAtRest = true := by
  rcases he.phase with ⟨_, hp⟩ | ⟨_, hp⟩ <;> simp [hp, Execution.isAtRest]

theorem Ends.not_acquiring (he : Ends x w r) (request : Request) (a : Acquisition) :
    r.1.phase ≠ .acquiring request a := by
  rcases he.phase with ⟨_, hp⟩ | ⟨_, hp⟩ <;> simp [hp]

/-- A body that has come to its end is of an execution that nobody has aborted. -/
theorem Advance.unheard (ha : Advance c h x w r) (hx : x.signal.aborted = false)
    (hr : r.1.isAtRest = false) : r.1.signal.aborted = false := by
  have fails : ∀ (e : Error) (y : Execution κ η α) (v : World ω κ ξ),
      r = y.fail c h e v → r.1.signal.aborted = false := by
    rintro e y v rfl
    cases (ends_fail e y v).isAtRest.symm.trans hr
  cases ha with
  | prepare _ => cases hr
  | refused _ _ => exact fails _ _ _ rfl
  | unqueued _ _ _ => exact fails _ _ _ rfl
  | queued _ _ _ => cases hr
  | acquiring _ _ _ => cases hr
  | unacquired _ _ _ => exact fails _ _ _ rfl
  | leased _ _ _ => cases hr
  | unsent _ _ _ => exact fails _ _ _ rfl
  | sent _ _ _ => cases hr
  | expired _ _ => exact fails _ _ _ rfl
  | headless _ _ _ => exact fails _ _ _ rfl
  | withheld _ _ _ _ => exact fails _ _ _ rfl
  | rejected _ _ _ _ _ => exact fails _ _ _ rfl
  | responded _ _ _ _ _ => simpa [handed, tellStream, tellHeaders, note, afterHooks] using hx
  | @settled s result _ _ =>
    obtain ⟨_, _, he⟩ := ends_settle c h s.lease result x w
    cases he.isAtRest.symm.trans hr
  | @pumped _ _ read _ _ _ _ _ => cases read <;> simpa [Execution.pumped, note] using hx
  | handled _ _ _ _ => exact hx
  | resume _ _ => cases hr

theorem Tenure.entered_advance (ht : Tenure x w) (ha : Advance c h x w r) (request : Request)
    (a : Acquisition) (hr : r.1.phase = .acquiring request a) :
    (r.2.pool.site? request.endpoint).isSome = true := by
  have fails : ∀ (e : Error) (y : Execution κ η α) (v : World ω κ ξ),
      r = y.fail c h e v → (r.2.pool.site? request.endpoint).isSome = true := by
    rintro e y v rfl
    exact absurd hr ((ends_fail e y v).not_acquiring request a)
  cases ha with
  | prepare _ => cases hr
  | refused _ _ => exact fails _ _ _ rfl
  | unqueued _ _ _ => exact fails _ _ _ rfl
  | queued _ _ ha =>
    cases hr
    exact (Acquisition.undisturbed_start ha).2
  | @acquiring _ a _ _ _ hp _ ha =>
    cases hr
    have hq := Acquisition.polls_poll c.network w.now a w.outside (ht.entered request a hp)
    rw [ha] at hq
    exact Pool.Undisturbed.entered hq _ (ht.entered request a hp)
  | unacquired _ _ _ => exact fails _ _ _ rfl
  | leased _ _ _ => cases hr
  | unsent _ _ _ => exact fails _ _ _ rfl
  | sent _ _ _ => cases hr
  | expired _ _ => exact fails _ _ _ rfl
  | headless _ _ _ => exact fails _ _ _ rfl
  | withheld _ _ _ _ => exact fails _ _ _ rfl
  | rejected _ _ _ _ _ => exact fails _ _ _ rfl
  | responded _ _ _ _ _ => cases hr
  | @settled s result _ _ =>
    obtain ⟨_, _, he⟩ := ends_settle c h s.lease result x w
    exact absurd hr (he.not_acquiring request a)
  | pumped _ _ _ _ => cases hr
  | handled _ _ _ _ => cases hr
  | resume _ _ => cases hr

/-- How many leases at an endpoint the execution holds. -/
def leasesAt (x : Execution κ η α) (e : Endpoint) : Nat :=
  if x.phase.lease?.any (·.endpoint = e) then 1 else 0

theorem leasesAt_of_none (hl : x.phase.lease? = none) (e : Endpoint) : x.leasesAt e = 0 := by
  simp [leasesAt, hl]

theorem leasesAt_of_some {l : Lease κ} (hl : x.phase.lease? = some l) (e : Endpoint) :
    x.leasesAt e = if e = l.endpoint then 1 else 0 := by
  simp [leasesAt, hl, eq_comm]

theorem leasesAt_of_key (hk : y.phase.lease?.map Lease.key = x.phase.lease?.map Lease.key)
    (e : Endpoint) : y.leasesAt e = x.leasesAt e := by
  cases hx : x.phase.lease? with
  | none =>
    rw [hx] at hk
    rw [leasesAt_of_none hx, leasesAt_of_none (Option.map_eq_none_iff.mp hk)]
  | some l =>
    rw [hx] at hk
    obtain ⟨l', hy, hl⟩ := Option.map_eq_some_iff.mp hk
    have he : l'.endpoint = l.endpoint := congrArg Prod.snd hl
    rw [leasesAt_of_some hx, leasesAt_of_some hy, he]

/-- Others keep the sites, and the lease in hand stays out. -/
structure Spares (x : Execution κ η α) (w w' : World ω κ ξ) : Prop where
  entered : ∀ e, (w.pool.site? e).isSome = true → (w'.pool.site? e).isSome = true
  seated : ∀ l, x.phase.lease? = some l → l.id ∈ (w.pool.site l.endpoint).leased →
    l.id ∈ (w'.pool.site l.endpoint).leased

namespace Tenancy

variable {net : Network ω κ}

theorem ledger_eq (hn : Tenancy net x w r) (ht : Tenure x w) :
    ledger r.1.history = some (r.1.phase.lease?.map (·.id)) := by
  have hb := ht.ledger
  cases hn with
  | @kept x' w' _ hl hh _ =>
    have hi := congrArg (Option.map Prod.fst) hl
    rw [Option.map_map, Option.map_map] at hi
    rw [hh.ledger_eq, hb]
    exact congrArg some hi.symm
  | begun hl hl' hh =>
    rw [hh.ledger_eq hb, hl, hl']
    rfl
  | taken hl hl' hh _ =>
    rw [hh.ledger_eq hb, hl, hl']
    rfl
  | released _ hl hl' hh _ _ =>
    rw [hh.ledger_eq hb, hl, hl']
    simp [book]
  | discarded _ hl hl' hh _ _ _ _ =>
    rw [hh.ledger_eq hb, hl, hl']
    simp [book]

theorem seated (hn : Tenancy net x w r) (ht : Tenure x w) (l : Lease κ)
    (hr : r.1.phase.lease? = some l) : l.id ∈ (r.2.pool.site l.endpoint).leased := by
  cases hn with
  | @kept x' w' _ hl _ hp =>
    rw [hr] at hl
    obtain ⟨l₀, hl₀, hk⟩ := Option.map_eq_some_iff.mp hl.symm
    cases l
    cases hk
    rw [hp.leased]
    exact ht.seated l₀ hl₀
  | begun _ hl' _ => cases hl'.symm.trans hr
  | taken _ hl' _ hp =>
    cases hl'.symm.trans hr
    rw [hp.leased, if_pos rfl]
    exact List.mem_append_right _ (List.mem_singleton_self _)
  | released _ _ hl' _ _ _ => cases hl'.symm.trans hr
  | discarded _ _ hl' _ _ _ _ _ => cases hl'.symm.trans hr

theorem returned (hn : Tenancy net x w r) (ht : Tenure x w) {l : Lease κ}
    (hl : x.phase.lease? = some l) (hr : r.1.phase.lease? = none) :
    w.pool.Returned r.2.pool l := by
  have hs := ht.seated l hl
  cases hn with
  | kept _ hk _ _ =>
    rw [hr, hl] at hk
    cases hk
  | begun hl₀ _ _ => cases hl.symm.trans hl₀
  | taken hl₀ _ _ _ => cases hl.symm.trans hl₀
  | released _ hl₀ _ _ hp _ =>
    cases hl.symm.trans hl₀
    have hc := (w.pool.release_cases net (w := w.outside) hs).2
    rwa [hp] at hc
  | discarded _ hl₀ _ _ _ hp _ he =>
    cases hl.symm.trans hl₀
    refine ⟨he, fun e => ?_⟩
    split
    · subst e
      rw [hp.site]
    · rw [hp.others e ‹_›]

theorem count (hn : Tenancy net x w r) (ht : Tenure x w) (e : Endpoint) :
    (r.2.pool.site e).leased.length + x.leasesAt e =
      (w.pool.site e).leased.length + r.1.leasesAt e := by
  cases hr : r.1.phase.lease? with
  | none =>
    cases hl : x.phase.lease? with
    | none =>
      rw [leasesAt_of_none hl, leasesAt_of_none hr]
      cases hn with
      | kept _ _ _ hp => rw [hp.leased]
      | begun _ _ _ => rfl
      | taken _ hl' _ _ => cases hl'.symm.trans hr
      | released _ hl₀ _ _ _ _ => cases hl.symm.trans hl₀
      | discarded _ hl₀ _ _ _ _ _ _ => cases hl.symm.trans hl₀
    | some l =>
      rw [leasesAt_of_some hl, leasesAt_of_none hr, (hn.returned ht hl hr).leased]
      split
      · subst e
        have hm := ht.seated l hl
        have := List.length_pos_of_mem hm
        rw [List.length_erase_of_mem hm]
        omega
      · rfl
  | some l =>
    cases hn with
    | kept _ hk _ hp => rw [hp.leased, leasesAt_of_key hk]
    | begun _ hl' _ => cases hl'.symm.trans hr
    | taken hl hl' _ hp =>
      cases hl'.symm.trans hr
      rw [leasesAt_of_none hl, leasesAt_of_some hr, hp.leased]
      split
      · simp
      · rfl
    | released _ _ hl' _ _ _ => cases hl'.symm.trans hr
    | discarded _ _ hl' _ _ _ _ _ => cases hl'.symm.trans hr

theorem spares (hn : Tenancy net y v r) (ht : Tenure y v)
    (hne : ∀ l l', x.phase.lease? = some l → y.phase.lease? = some l' → l.id ≠ l'.id) :
    Spares x v r.2 := by
  cases hr : r.1.phase.lease? with
  | none =>
    cases hy : y.phase.lease? with
    | none =>
      cases hn with
      | kept _ _ _ hp => exact ⟨hp.entered, fun l _ hm => by rwa [hp.leased]⟩
      | begun _ _ _ => exact ⟨fun _ h => h, fun _ _ h => h⟩
      | taken _ hl' _ _ => cases hl'.symm.trans hr
      | released _ hl₀ _ _ _ _ => cases hy.symm.trans hl₀
      | discarded _ hl₀ _ _ _ _ _ _ => cases hy.symm.trans hl₀
    | some l' =>
      have hp := hn.returned ht hy hr
      refine ⟨hp.entered, fun l hl hm => ?_⟩
      rw [hp.leased]
      split
      · exact (List.mem_erase_of_ne (hne l l' hl hy)).mpr hm
      · exact hm
  | some l' =>
    cases hn with
    | kept _ _ _ hp => exact ⟨hp.entered, fun l _ hm => by rwa [hp.leased]⟩
    | begun _ hl' _ => cases hl'.symm.trans hr
    | taken _ _ _ hp =>
      refine ⟨hp.entered, fun l _ hm => ?_⟩
      rw [hp.leased]
      split
      · exact List.mem_append_left _ hm
      · exact hm
    | released _ _ hl' _ _ _ => cases hl'.symm.trans hr
    | discarded _ _ hl' _ _ _ _ _ => cases hl'.symm.trans hr

end Tenancy

/-! ## Runs -/

variable {R : Execution κ η α → World ω κ ξ → World ω κ ξ → Prop}
  {x₀ : Execution κ η α} {w₀ : World ω κ ξ}

theorem Unbegun.tenure (hx : x₀.Unbegun) (w₀ : World ω κ ξ) : Tenure x₀ w₀ where
  ledger := by
    rw [hx.history, hx.phase]
    rfl
  seated l hl := by simp [hx.phase, Phase.lease?] at hl
  entered request a hp := by simp [hx.phase] at hp
  unheard hr := by simp [isAtRest, hx.phase] at hr

theorem Tenure.withTurn (ht : Tenure x w) (p : Party) : Tenure (x.withTurn p) w := by
  rcases x.withTurn_cases p with he | ⟨s, hp, he⟩
  · rwa [he]
  · rw [he]
    have hl : x.phase.lease? = some s.lease := by simp [hp, Phase.lease?]
    refine ⟨?_, ?_, fun _ _ hq => (nomatch hq), fun hr => ht.unheard ?_⟩
    · rw [ht.ledger, hl]
      rfl
    · rintro l ⟨⟩
      exact ht.seated _ hl
    · unfold isAtRest at hr ⊢
      rw [hp]
      exact hr

theorem Tenure.move (hR : ∀ x w w', R x w w' → Spares x w w')
    {q r : Execution κ η α × World ω κ ξ} (ht : Tenure q.1 q.2) (hm : Move c h R q r) :
    Tenure r.1 r.2 := by
  cases hm with
  | @step x w r hs =>
    have hn := ht.step hs
    refine ⟨hn.ledger_eq ht, hn.seated ht, ?_, ?_⟩
    all_goals obtain ⟨_, ⟨_, rfl⟩ | ⟨ha, hadv⟩⟩ := step_cases hs
    · obtain ⟨_, _, he⟩ := ends_interrupt c h x w
      exact fun request a hp => absurd hp (he.not_acquiring request a)
    · exact ht.entered_advance hadv
    · obtain ⟨_, _, he⟩ := ends_interrupt c h x w
      exact fun hr => nomatch he.isAtRest.symm.trans hr
    · exact hadv.unheard ha
  | turn x w p => exact ht.withTurn p
  | abort w reason hr =>
    exact ⟨ht.ledger, ht.seated, ht.entered, fun hn => nomatch hr.symm.trans hn⟩
  | @kill x w hr =>
    have hn := tenancy_kill (c := c) ht hr
    rcases kill_cases c.network x w with he | ⟨_, _, he⟩
    · rwa [he]
    · exact ⟨hn.ledger_eq ht, hn.seated ht,
        fun request a hp => absurd hp (he.not_acquiring request a),
        fun hr => nomatch he.isAtRest.symm.trans hr⟩
  | @others x w w' hr =>
    have hs := hR x w w' hr
    exact ⟨ht.ledger, fun l hl => hs.seated l hl (ht.seated l hl),
      fun request a hp => hs.entered _ (ht.entered request a hp), ht.unheard⟩

theorem Moves.tenure (hx : x₀.Unbegun) (hR : ∀ x w w', R x w w' → Spares x w w')
    {r : Execution κ η α × World ω κ ξ} (hm : Moves c h R (x₀, w₀) r) : Tenure r.1 r.2 := by
  induction hm with
  | refl => exact hx.tenure w₀
  | tail _ hs ih => exact ih.move hR hs

/-- Where others keep the count of leases at an endpoint, it is off by what the execution holds. -/
theorem Moves.count (hx : x₀.Unbegun) (hR : ∀ x w w', R x w w' → Spares x w w') {e : Endpoint}
    (hE : ∀ x w w', R x w w' → (w'.pool.site e).leased.length = (w.pool.site e).leased.length)
    {r : Execution κ η α × World ω κ ξ} (hm : Moves c h R (x₀, w₀) r) :
    (r.2.pool.site e).leased.length = (w₀.pool.site e).leased.length + r.1.leasesAt e := by
  induction hm with
  | refl =>
    have hl : x₀.phase.lease? = none := by
      rw [hx.phase]
      rfl
    rw [leasesAt_of_none hl]
    rfl
  | tail hm hs ih =>
    have ht := hm.tenure hx hR
    cases hs with
    | @step x w r hs =>
      have ht : Tenure x w := ht
      have hc := (ht.step hs).count ht e
      dsimp only at ih
      omega
    | turn x w p =>
      have hl : (x.withTurn p).phase.lease? = x.phase.lease? := by
        rcases x.withTurn_cases p with he | ⟨s, hp, he⟩
        · rw [he]
        · rw [he, hp]
          rfl
      rw [ih]
      simp only [leasesAt, hl]
    | abort w reason hr => exact ih
    | @kill x w hr =>
      have ht : Tenure x w := ht
      have hc := (tenancy_kill (c := c) ht hr).count ht e
      dsimp only at ih
      omega
    | others hr =>
      rw [← ih]
      exact hE _ _ _ hr

end Execution

namespace Execution

/-- However others move, as long as they spare what is not theirs: the leases of an execution are
settled in order and once each, before the next attempt begins and before it is finished. A step
gives back the lease of a body that was read to its end by a content handler: the connection becomes
idle, or is left to be closed. In any other case it keeps the lease or discards it, and then the
connection is aborted and counted as discarded, and nothing becomes idle; so does a kill. When the
execution is finished there are as many leases out as there were before, but for those of others. -/
theorem leases_settled_once {c : Client ω κ ξ} {h : Handler η α}
    {R : Execution κ η α → World ω κ ξ → World ω κ ξ → Prop} {x₀ x : Execution κ η α}
    {w₀ w : World ω κ ξ} (hx : x₀.Unbegun) (hR : ∀ x w w', R x w w' → Spares x w w')
    (hm : Moves c h R (x₀, w₀) (x, w)) :
    ledger x.history = some (x.phase.lease?.map (·.id)) ∧
      (∀ r, x.step c h w = some r → Tenancy c.network x w r) ∧
      (x.isAtRest = true → Tenancy c.network x w (x.kill c.network w)) ∧
      (x.isFinished = true → ledger x.history = some none ∧
        ∀ e, (∀ x w w', R x w w' → (w'.pool.stats e).leased = (w.pool.stats e).leased) →
          (w.pool.stats e).leased = (w₀.pool.stats e).leased) := by
  have ht : Tenure x w := hm.tenure hx hR
  refine ⟨ht.ledger, fun r hs => ht.step hs, tenancy_kill ht, fun hf => ?_⟩
  have hl : x.phase.lease? = none := by
    cases hp : x.phase with
    | finished outcome => rfl
    | _ => simp [isFinished, Phase.isFinished, hp] at hf
  refine ⟨by rw [ht.ledger, hl]; rfl, fun e hE => ?_⟩
  simp only [Pool.leased_stats] at hE ⊢
  have hc := hm.count hx hR hE
  rwa [leasesAt_of_none hl] at hc

theorem leases_settled_once_get :
    let r := Rehearsal.bufferedGet .empty [.ok [1, 2]] .empty 40
    r.1.isFinished = true ∧ ledger r.1.history = some none ∧
      (r.2.pool.stats Rehearsal.origin).leased = 0 := by
  have hf : (Rehearsal.bufferedGet .empty [.ok [1, 2]] .empty 40).1.isFinished = true := by
    decide +kernel
  have hm := moves_walk (R := fun _ _ _ => False) (c := Rehearsal.scriptedClient .empty)
    (h := Buffering.handler) 40
    (.start Rehearsal.plainGet .start .empty, Rehearsal.scripted [.ok [1, 2]])
  obtain ⟨_, _, _, hl⟩ := leases_settled_once ⟨rfl, rfl⟩ (fun _ _ _ hn => hn.elim) hm
  exact ⟨hf, (hl hf).1, (hl hf).2 Rehearsal.origin fun _ _ _ hn => hn.elim⟩

end Execution

end Courier
