import Courier.Proofs.Pool.Dock
import Courier.Proofs.Pool.Exclusive

/-! # Closed pools

A closed pool begins no acquisition, and keeps no connection that is looked at from then on. A
closing comes to one endpoint after the other, and only from then on an acquisition that waits there
fails; a lease that comes out there afterwards was dialed for already. Until it comes to an endpoint,
a permit that becomes free there still goes to whoever waits for it. A connection that had been
looked at before the pool was closed becomes idle all the same.
-/

namespace Courier

variable {ω κ : Type}

namespace Permits

@[simp] theorem closed_release (p : Permits) : p.release.closed = p.closed := by
  unfold release
  split <;> rfl

@[simp] theorem closed_claim (p : Permits) (ticket : Nat) :
    (p.claim ticket).closed = p.closed := rfl

@[simp] theorem closed_request (p : Permits) (ticket : Nat) :
    (p.request ticket).closed = p.closed := by
  unfold request
  split <;> rfl

@[simp] theorem closed_withdraw (p : Permits) (ticket : Nat) :
    (p.withdraw ticket).closed = p.closed := by
  unfold withdraw
  split
  · simp
  · rfl

end Permits

theorem Acquisition.poll_closed (net : Network ω κ) (now : Nat) {e : Endpoint}
    (ticket deadline : Nat) {p : Pool κ} (w : ω) (hc : (p.site e).permits.closed = true) :
    ((waiting ticket deadline).poll net now e p w).1 = .failed .poolClosed := by
  dsimp only [poll, pollPermit]
  rw [if_pos hc]

theorem Acquisition.eventLoop_enqueue (now : Nat) (e : Endpoint) (p : Pool κ) :
    (enqueue now e p).2.eventLoop = p.eventLoop := by
  dsimp only [enqueue, Pool.update, Pool.enter]
  split <;> rfl

def Closing.awaits : Closing κ → List Endpoint
  | sites es => es
  | connections _ _ _ es => es
  | done => []

theorem Closing.Moves.awaits_subset {net : Network ω κ} {p q : Pool κ} {w v : ω}
    {c c' : Closing κ} (h : Moves net p w c c' q v) : c'.awaits ⊆ c.awaits := by
  cases h with
  | empties hq => exact List.subset_cons_self ..
  | _ => exact List.Subset.refl _

namespace Pool

variable {net : Network ω κ} {p q : Pool κ} {w v : ω} {e : Endpoint} {t : Site κ} {l : Lease κ}

theorem site?_of_not_mem (h : e ∉ p.sites.map (·.1)) : p.site? e = none := by
  apply List.lookup_eq_none_iff.mpr
  intro x hx
  rw [bne_iff_ne]
  rintro rfl
  exact h (List.mem_map_of_mem hx)

theorem site_of_not_mem (h : e ∉ p.sites.map (·.1)) :
    p.site e = .ofLimit p.config.maxConnections := by
  rw [site, site?_of_not_mem h]
  rfl

/-! ## Operations on a closed pool -/

/-- Nothing becomes idle, and permits that are closed stay so. -/
structure Wanes (p q : Pool κ) : Prop where
  closed : q.closed = p.closed
  idle : ∀ e, (q.site e).idle.length ≤ (p.site e).idle.length
  permits : ∀ e, (p.site e).permits.closed = true → (q.site e).permits.closed = true

theorem Wanes.refl (p : Pool κ) : Wanes p p :=
  ⟨rfl, fun _ => Nat.le_refl _, fun _ h => h⟩

theorem Puts.wanes (h : Puts e t p q) (hi : t.idle.length ≤ (p.site e).idle.length)
    (ht : (p.site e).permits.closed = true → t.permits.closed = true) : Wanes p q where
  closed := h.closed
  idle d := by
    by_cases hd : d = e
    · subst hd
      rwa [h.here]
    · exact Nat.le_of_eq (congrArg (·.idle.length) (h.others d hd))
  permits d hp := by
    by_cases hd : d = e
    · subst hd
      rw [h.here]
      exact ht hp
    · exact (congrArg (·.permits.closed) (h.others d hd)).trans hp

theorem wanes_enqueue (now : Nat) (e : Endpoint) (p : Pool κ) :
    Wanes p (Acquisition.enqueue now e p).2 :=
  (Acquisition.puts_enqueue now e p).wanes (Nat.le_refl _) fun h =>
    (Permits.closed_request _ _).trans h

theorem wanes_drop (a : Acquisition) (he : (p.site? e).isSome = true) : Wanes p (a.drop e p) := by
  have hp := Acquisition.puts_drop a he
  cases a with
  | waiting ticket deadline => exact hp.wanes (Nat.le_refl _) fun h => (Permits.closed_withdraw _ _).trans h
  | dialing lease wait => exact hp.wanes (Nat.le_refl _) fun h => (Permits.closed_release _).trans h

theorem wanes_moves {c c' : Closing κ} (h : Closing.Moves net p w c c' q v) : Wanes p q := by
  cases h with
  | empties hq => exact hq.wanes (Nat.zero_le _) fun _ => rfl
  | counts hq => exact hq.wanes (Nat.le_refl _) id
  | _ => exact ⟨rfl, fun _ => Nat.le_refl _, fun _ h => h⟩

theorem wanes_looks {a : Acquisition} {r : Acquired κ}
    (h : Acquisition.Looks net e p w a r q v) : Wanes p q := by
  cases h with
  | waits a => exact .refl p
  | leaves error hq => exact hq.wanes (Nat.le_refl _) fun h => (Permits.closed_withdraw _ _).trans h
  | reuses hc hg hi hq =>
    have hn := congrArg List.length hi
    obtain ⟨hc, hn, hp⟩ := hq.wanes (hn.symm ▸ Nat.le_succ _) id
    exact ⟨hc, hn, hp⟩
  | begins wait hc hg hi hq =>
    obtain ⟨hc, hn, hp⟩ := hq.wanes (Nat.le_refl _) id
    exact ⟨hc, hn, hp⟩
  | expires error hq => exact hq.wanes (Nat.le_refl _) fun h => (Permits.closed_release _).trans h
  | fails hd hq => exact hq.wanes (Nat.le_refl _) fun h => (Permits.closed_release _).trans h
  | connects hd hq => exact hq.wanes (Nat.le_refl _) id

theorem wanes_discard (net : Network ω κ) (w : ω) (hl : l.id ∈ (p.site l.endpoint).leased) :
    Wanes p (p.discard net l w).1 :=
  (puts_discard net w hl).wanes (Nat.le_refl _) fun h => (Permits.closed_release _).trans h

theorem wanes_checkIn (hl : l.id ∈ (p.site l.endpoint).leased) : Wanes p (p.checkIn l) :=
  (puts_update _ (isSome_of_mem_leased hl)).wanes (Nat.le_refl _) id

theorem wanes_retire (he : (p.site? l.endpoint).isSome = true) : Wanes p (p.retire l) :=
  (puts_update _ he).wanes (Nat.le_refl _) id

theorem wanes_freePermit (he : (p.site? e).isSome = true) : Wanes p (p.freePermit e) :=
  (puts_freePermit he).wanes (Nat.le_refl _) fun h => (Permits.closed_release _).trans h

theorem release_closed (net : Network ω κ) (w : ω) (hl : l.id ∈ (p.site l.endpoint).leased)
    (hc : p.closed = true) :
    (p.release net l w).1 = .ok () ∧
      Puts l.endpoint ((p.site l.endpoint).retired l.id).relieved p (p.release net l w).2.1 ∧
      (p.release net l w).2.2 = if p.eventLoop.isRunning then net.close l.connection w else w := by
  have hk := releases_release net w hl
  have ho := (release_cases net (w := w) hl).1
  rcases hx : p.release net l w with ⟨result, q, v⟩
  rw [hx] at hk ho
  cases hk with
  | shelves hr ho hq => cases hc.symm.trans ho
  | retires hr hq => exact ⟨ho, hq, rfl⟩

end Pool


namespace Depot

open Pool

/-- No closing has yet to come to the endpoint. -/
def Reached (d : Depot ω κ) (e : Endpoint) : Prop :=
  ∀ c ∈ d.closings, e ∉ c.awaits

instance (d : Depot ω κ) (e : Endpoint) : Decidable (d.Reached e) :=
  inferInstanceAs (Decidable (∀ c ∈ d.closings, e ∉ c.awaits))

/-- The lease with this number is out at the endpoint, or is being dialed for. -/
def Bears (d : Depot ω κ) (e : Endpoint) (id : Nat) : Prop :=
  (∃ l ∈ d.leases, l.endpoint = e ∧ l.id = id) ∨
    ∃ a, (e, a) ∈ d.acquisitions ∧ a.dialsFor id = true

/-- What moves in a closed pool: the pool wanes, a closing empties each endpoint that it comes to
and closes its permits, and where they are closed no lease begins any more. -/
structure Winds (d d' : Depot ω κ) : Prop where
  wanes : Wanes d.pool d'.pool
  reached : ∀ e, d.Reached e → d'.Reached e
  emptied : ∀ e, d'.Reached e → d.Reached e ∨
    (d'.pool.site e).idle = [] ∧ (d'.pool.site e).permits.closed = true
  bears : ∀ e id, (d.pool.site e).permits.closed = true → d'.Bears e id → d.Bears e id

variable {net : Network ω κ} {d d' : Depot ω κ} {e b : Endpoint}

theorem Winds.calm (hw : Wanes d.pool d'.pool) (hc : d'.closings = d.closings)
    (hb : ∀ e id, (d.pool.site e).permits.closed = true → d'.Bears e id → d.Bears e id) :
    d.Winds d' := by
  refine ⟨hw, fun e hr => ?_, fun e hr => .inl ?_, hb⟩
  · unfold Reached
    rwa [hc]
  · unfold Reached at hr
    rwa [hc] at hr

section Acquiring

variable {as bs : List (Endpoint × Acquisition)} {a : Acquisition} {r : Acquired κ}
  {pool : Pool κ} {world : ω}

/-- Where waiting is of no use any more, only the lease that was being dialed for comes out. -/
theorem bears_looked (hd : d.acquisitions = as ++ (e, a) :: bs)
    (hk : Acquisition.Looks net e d.pool d.world a r pool world) (b : Endpoint) (id : Nat)
    (hs : (d.pool.site b).permits.closed = true)
    (hb : ({ d with
      pool, world, leases := d.leases ++ r.granted
      acquisitions := as ++ (r.pursued e ++ bs) } : Depot ω κ).Bears b id) :
    d.Bears b id := by
  have ha : (e, a) ∈ d.acquisitions := by simp [hd]
  have hopen (he : e = b) : (d.pool.site e).permits.closed ≠ false := by
    subst he
    rw [hs]
    exact Bool.noConfusion
  obtain ⟨l, hl, he, hid⟩ | ⟨a', ha', hid⟩ := hb
  · obtain hm | hm := List.mem_append.mp hl
    · exact .inl ⟨l, hm, he, hid⟩
    · cases hk with
      | reuses hc hg hi hq =>
        obtain rfl := List.mem_singleton.mp hm
        exact absurd hc (hopen he)
      | connects hx hq =>
        obtain rfl := List.mem_singleton.mp hm
        subst he
        exact .inr ⟨_, ha, decide_eq_true hid⟩
      | _ => cases hm
  · obtain hm | hm := List.mem_append.mp ha'
    · exact .inr ⟨a', by simp [hd, hm], hid⟩
    · obtain hm | hm := List.mem_append.mp hm
      · cases hk with
        | waits a =>
          obtain ⟨rfl, rfl⟩ := Prod.mk.inj (List.mem_singleton.mp hm)
          exact .inr ⟨a', ha, hid⟩
        | begins wait hc hg hi hq =>
          obtain ⟨rfl, rfl⟩ := Prod.mk.inj (List.mem_singleton.mp hm)
          exact absurd hc (hopen rfl)
        | _ => cases hm
      · exact .inr ⟨a', by simp [hd, hm], hid⟩

end Acquiring

theorem bears_ended {ls ms : List (Lease κ)} {l : Lease κ} {pool : Pool κ} {world : ω}
    (hd : d.leases = ls ++ l :: ms) {id : Nat}
    (hb : ({ d with pool, world, leases := ls ++ ms } : Depot ω κ).Bears b id) : d.Bears b id := by
  obtain ⟨l', hm, h⟩ | hb := hb
  · exact .inl ⟨l', hd ▸ mem_of_mem_parts hm, h⟩
  · exact .inr hb

section Closing

variable {as bs : List (Closing κ)} {c c' : Closing κ} {pool : Pool κ} {world : ω}

theorem reached_parts (hd : d.closings = as ++ c :: bs) :
    d.Reached e ↔ (∀ x ∈ as ++ bs, e ∉ x.awaits) ∧ e ∉ c.awaits := by
  unfold Reached
  rw [hd]
  constructor
  · intro h
    exact ⟨fun x hx => h x (mem_of_mem_parts hx), h c (by simp)⟩
  · rintro ⟨h, hc⟩ x hx
    obtain rfl | hx := mem_parts hx
    · exact hc
    · exact h x hx

theorem winds_moved (hd : d.closings = as ++ c :: bs)
    (hk : Closing.Moves net d.pool d.world c c' pool world) :
    d.Winds { d with pool, world, closings := as ++ c' :: bs } := by
  have hr (b : Endpoint) :
      ({ d with pool, world, closings := as ++ c' :: bs } : Depot ω κ).Reached b ↔
        (∀ x ∈ as ++ bs, b ∉ x.awaits) ∧ b ∉ c'.awaits := reached_parts rfl
  refine ⟨wanes_moves hk, fun b h => ?_, fun b h => ?_, fun _ _ _ hb => hb⟩
  · obtain ⟨hx, hn⟩ := (reached_parts hd).mp h
    exact (hr b).mpr ⟨hx, fun hm => hn (hk.awaits_subset hm)⟩
  · obtain ⟨hx, hn⟩ := (hr b).mp h
    have hold (hc : b ∉ c.awaits) : d.Reached b := (reached_parts hd).mpr ⟨hx, hc⟩
    cases hk with
    | @empties e es pool hq =>
      by_cases he : b = e
      · subst he
        exact .inr ⟨congrArg Site.idle hq.here, congrArg (·.permits.closed) hq.here⟩
      · exact .inl (hold fun hm => (List.mem_cons.mp hm).elim he hn)
    | _ => exact .inl (hold hn)

end Closing

theorem Step.winds (h : d.Listed) (hc : d.pool.closed = true) (hs : Step net d d') :
    d.Winds d' := by
  cases hs with
  | @begin now e a pool hx =>
    obtain ⟨ho, -⟩ := Acquisition.start_cases hx
    cases hc.symm.trans ho
  | @wait as bs now e a a' pool world hl hx =>
    have hk := Acquisition.looks_poll net now a d.world (h.entered hl)
    rw [hx] at hk
    have hb := bears_looked hl hk
    simp only [Acquired.granted, List.append_nil] at hb
    exact .calm (wanes_looks hk) rfl hb
  | @lease as bs now e a l pool world hl hx =>
    have hk := Acquisition.looks_poll net now a d.world (h.entered hl)
    rw [hx] at hk
    exact .calm (wanes_looks hk) rfl (bears_looked hl hk)
  | @fail as bs now e a error pool world hl hx =>
    have hk := Acquisition.looks_poll net now a d.world (h.entered hl)
    rw [hx] at hk
    have hb := bears_looked hl hk
    simp only [Acquired.granted, List.append_nil] at hb
    exact .calm (wanes_looks hk) rfl hb
  | @leave as bs e a hl =>
    refine .calm (wanes_drop a (h.entered hl)) rfl ?_
    rintro b id - (hb | ⟨a', hm, hd⟩)
    · exact .inl hb
    · exact .inr ⟨a', hl ▸ mem_of_mem_parts hm, hd⟩
  | @use as bs l connection world hl =>
    refine .calm (.refl d.pool) rfl ?_
    rintro b id - (⟨l', hm, hd⟩ | hb)
    · obtain rfl | hm := mem_parts hm
      · exact .inl ⟨l, by simp [hl], hd⟩
      · exact .inl ⟨l', hl ▸ mem_of_mem_parts hm, hd⟩
    · exact .inr hb
  | @release as bs l result pool world hl hx =>
    have hk := release_closed net d.world (h.mem_leased hl) hc
    rw [hx] at hk
    exact .calm (hk.2.1.wanes (Nat.le_refl _) fun h => (Permits.closed_release _).trans h) rfl
      fun b id _ => bears_ended hl
  | @discard as bs l pool world hl hx =>
    have hk := wanes_discard net d.world (h.mem_leased hl)
    rw [hx] at hk
    exact .calm hk rfl fun b id _ => bears_ended hl
  | @close c pool hx =>
    obtain ⟨-, rfl, rfl⟩ | ⟨ho, -, -⟩ := Closing.start_cases hx
    · have hr (b : Endpoint) :
          ({ d with closings := d.closings ++ [.done] } : Depot ω κ).Reached b ↔ d.Reached b := by
        simp [Reached, or_imp, forall_and, Closing.awaits]
      exact ⟨.refl d.pool, fun b => (hr b).mpr, fun b hb => .inl ((hr b).mp hb), fun _ _ _ hb => hb⟩
    · cases hc.symm.trans ho
  | @closeOn as bs c c' pool world hl hx =>
    have hk := Closing.moves_step net d.world (h.closing c (by simp [hl]))
    rw [hx] at hk
    exact winds_moved hl hk
  | others world => exact .calm (.refl d.pool) rfl fun _ _ _ hb => hb

/-! ## The event loop -/

/-- The event loop is the one that the pool was started with, until a closing has ended. -/
def Loops (l : EventLoop) (d : Depot ω κ) : Prop :=
  d.pool.eventLoop = l ∨
    d.pool.eventLoop = l.shutdown ∧ ∃ c ∈ d.closings, c.isDone = true

theorem Loops.keep {l : EventLoop} (h : d.Loops l) (hp : d'.pool.eventLoop = d.pool.eventLoop)
    (hc : ∀ c ∈ d.closings, c.isDone = true → c ∈ d'.closings) : d'.Loops l :=
  h.imp hp.trans fun ⟨hl, c, hm, hd⟩ => ⟨hp.trans hl, c, hc c hm hd, hd⟩

theorem Loops.step {l : EventLoop} (h : d.Loops l) (hs : Step net d d') : d'.Loops l := by
  cases hs with
  | @begin now e a pool hx =>
    have hn := Acquisition.eventLoop_enqueue now e d.pool
    rw [(Acquisition.start_eq_ok hx).2] at hn
    exact h.keep hn fun c hm _ => hm
  | wait _ hx => exact h.keep (Acquisition.constant_poll hx).eventLoop fun c hm _ => hm
  | lease _ hx => exact h.keep (Acquisition.constant_poll hx).eventLoop fun c hm _ => hm
  | fail _ hx => exact h.keep (Acquisition.constant_poll hx).eventLoop fun c hm _ => hm
  | leave => exact h.keep (Acquisition.constant_drop _ _ _).eventLoop fun c hm _ => hm
  | use => exact h
  | release _ hx => exact h.keep (Pool.constant_release hx).eventLoop fun c hm _ => hm
  | discard _ hx => exact h.keep (Pool.constant_discard hx).eventLoop fun c hm _ => hm
  | close hx =>
    refine h.keep ?_ fun c hm _ => List.mem_append_left _ hm
    obtain ⟨-, -, rfl⟩ | ⟨-, -, rfl⟩ := Closing.start_cases hx <;> rfl
  | @closeOn as bs c c' pool world hl hx =>
    have hkeep (hn : c.isDone = true → c' = c) (b : Closing κ) (hm : b ∈ d.closings)
        (hb : b.isDone = true) : b ∈ as ++ c' :: bs := by
      rw [hl, List.mem_append, List.mem_cons] at hm
      rw [List.mem_append, List.mem_cons]
      refine hm.imp_right (Or.imp_left ?_)
      rintro rfl
      exact (hn hb).symm
    match c with
    | .done =>
      cases hx
      exact h.keep rfl (hkeep fun _ => rfl)
    | .sites [] =>
      cases hx
      refine .inr ⟨?_, .done, by simp, rfl⟩
      obtain hl | ⟨hl, -⟩ := h
      · exact congrArg EventLoop.shutdown hl
      · refine (congrArg EventLoop.shutdown hl).trans ?_
        cases l <;> rfl
    | .sites (e :: es) =>
      cases hx
      exact h.keep rfl (hkeep fun hd => nomatch hd)
    | .connections e [] count es =>
      cases hx
      exact h.keep rfl (hkeep fun hd => nomatch hd)
    | .connections e (connection :: rest) count es =>
      cases hx
      exact h.keep rfl (hkeep fun hd => nomatch hd)
  | others world => exact h

/-! ## Leases that are out -/

/-- What can still become of a lease that is out while the pool is closed: it is given back, or
discarded, and either way its connection leaves the pool. A connection that is given back is closed
by a task of the event loop, if that still runs; none is kept, even if others use the pool before
it is looked at. -/
structure Settles (net : Network ω κ) (d : Depot ω κ) (l : Lease κ) : Prop where
  out : l.id ∈ (d.pool.site l.endpoint).leased
  rejected : d.pool.keeps net l = false
  release : (d.pool.release net l d.world).1 = .ok () ∧
    (d.pool.release net l d.world).2.2 =
      if d.pool.eventLoop.isRunning then net.close l.connection d.world else d.world
  released : ∀ e, ((d.pool.release net l d.world).2.1.stats e).idle = (d.pool.stats e).idle
  discard : (d.pool.discard net l d.world).2 = (net.abort l.connection d.world).2
  discarded : ∀ e, ((d.pool.discard net l d.world).1.stats e).idle = (d.pool.stats e).idle

theorem Listed.settles (h : d.Listed) (hc : d.pool.closed = true) {l : Lease κ}
    (hl : l ∈ d.leases) : d.Settles net l := by
  obtain ⟨ls, ms, hp⟩ := List.append_of_mem hl
  have hm := h.mem_leased hp
  obtain ⟨ho, hq, hw⟩ := release_closed net d.world hm hc
  refine ⟨hm, by simp [keeps, hc], ⟨ho, hw⟩, fun e => ?_, rfl, fun e => ?_⟩
  · rw [idle_stats, idle_stats, hq.same (·.idle) rfl e]
  · rw [idle_stats, idle_stats, idle_discard]

end Depot

namespace Dock

open Depot Pool

variable {net : Network ω κ} {k₀ k k' : Dock ω κ} {e : Endpoint}

/-- What holds while a closing is under way that was called for in `k₀`: only what was about to
become idle then still becomes idle, and where the closing has been the permits are closed. -/
structure Closes (k₀ k : Dock ω κ) : Prop where
  listed : k.Listed
  closed : k.depot.pool.closed = true
  kept : ∀ e, k.keptAt e ≤ k₀.keptAt e
  idle : ∀ e, k.depot.Reached e →
    (k.depot.pool.site e).idle.length + k.keptAt e ≤ k₀.keptAt e
  permits : ∀ e, (k₀.depot.pool.site? e).isSome = true → k.depot.Reached e →
    (k.depot.pool.site e).permits.closed = true

theorem closes_close (net : Network ω κ) (h : k₀.Listed) (ho : k₀.depot.pool.closed = false) :
    Closes k₀ k₀.close := by
  have hc : k₀.close = { k₀ with
      depot := { k₀.depot with
        pool := { k₀.depot.pool with closed := true }
        closings := [.sites (k₀.depot.pool.sites.map (·.1))] } } := by
    simp [close, Closing.start, ho, h.depot.unclosed ho]
  have hs : Steps net k₀ k₀.close := steps_close k₀
  have hl := hs.listed h
  rw [hc] at hl ⊢
  refine ⟨hl, rfl, fun _ => Nat.le_refl _, fun e hr => ?_, fun e he hr => ?_⟩
  · have hn : k₀.depot.pool.site e = .ofLimit _ := site_of_not_mem (hr _ List.mem_cons_self)
    change (k₀.depot.pool.site e).idle.length + k₀.keptAt e ≤ _
    rw [hn]
    exact Nat.le_of_eq (Nat.zero_add _)
  · rw [site?_of_not_mem (hr _ List.mem_cons_self)] at he
    cases he

theorem Closes.calm (h : Closes k₀ k) (hl : k'.Listed) (hw : Wanes k.depot.pool k'.depot.pool)
    (hc : k'.depot.closings = k.depot.closings) (hk : ∀ e, k'.keptAt e ≤ k.keptAt e) :
    Closes k₀ k' := by
  have hr {e : Endpoint} (hr : k'.depot.Reached e) : k.depot.Reached e := by
    unfold Reached at hr
    rwa [hc] at hr
  refine ⟨hl, hw.closed.trans h.closed, fun e => ?_, fun e he => ?_, fun e hn he => ?_⟩
  · exact Nat.le_trans (hk e) (h.kept e)
  · exact Nat.le_trans (Nat.add_le_add (hw.idle e) (hk e)) (h.idle e (hr he))
  · exact hw.permits e (h.permits e hn (hr he))

theorem Closes.step (h : Closes k₀ k) (hs : Step net k k') : Closes k₀ k' := by
  have hl := h.listed.step hs
  cases hs with
  | @depot d hs =>
    have hw := hs.winds h.listed.depot h.closed
    refine ⟨hl, hw.wanes.closed.trans h.closed, h.kept, fun e hr => ?_, fun e he hr => ?_⟩
    · have hn := hw.wanes.idle e
      obtain hr | ⟨hi, -⟩ := hw.emptied e hr
      · exact Nat.le_trans (Nat.add_le_add_right hn _) (h.idle e hr)
      · dsimp only
        rw [hi]
        exact Nat.le_trans (Nat.le_of_eq (Nat.zero_add _)) (h.kept e)
    · obtain hr | ⟨-, hp⟩ := hw.emptied e hr
      · exact hw.wanes.permits e (h.permits e he hr)
      · exact hp
  | enter e ho => cases h.closed.symm.trans ho
  | @queue as bs now e a pool hk hx =>
    have hw := wanes_enqueue now e k.depot.pool
    rw [hx] at hw
    exact h.calm hl hw rfl fun _ => Nat.le_refl _
  | @checkIn as bs l hk hm =>
    refine h.calm hl (wanes_checkIn hm) rfl fun e => Nat.le_of_eq ?_
    simp [keptAt]
  | @giveBack as bs r r' pool world hk hr =>
    have he := h.listed.returning r (by simp [hk])
    obtain ⟨l, stage⟩ := r
    cases stage with
    | checkedIn =>
      cases hr
      refine h.calm hl (.refl _) rfl fun e => Nat.le_of_eq ?_
      simp [keptAt, hk, keeps, h.closed]
    | kept =>
      cases hr
      have hp : Puts l.endpoint _ k.depot.pool (k.depot.pool.shelve l) := puts_update _ he
      refine ⟨hl, h.closed, fun e => Nat.le_trans ?_ (h.kept e),
        fun e hr => Nat.le_trans ?_ (h.idle e hr), fun e hn hr => ?_⟩
      · simp [keptAt, hk, List.countP_cons]
      · by_cases hle : l.endpoint = e
        · subst hle
          dsimp only
          rw [hp.here]
          simp [keptAt, hk]
          omega
        · dsimp only
          rw [hp.others e (Ne.symm hle)]
          simp [keptAt, hk, hle]
      · exact (hp.same (·.permits.closed) rfl e).trans (h.permits e hn hr)
    | rejected =>
      cases hr
      refine h.calm hl (wanes_retire he) rfl fun e => Nat.le_of_eq ?_
      simp [keptAt, hk]
    | settled =>
      cases hr
      refine h.calm hl (wanes_freePermit he) rfl fun e => Nat.le_of_eq ?_
      simp [keptAt, hk]

theorem Closes.steps (h : Closes k₀ k) (hs : Steps net k k') : Closes k₀ k' := by
  induction hs with
  | refl => exact h
  | tail _ hs ih => exact ih.step hs

theorem Closes.reached (h : Closes k₀ k) (hs : Step net k k') (hr : k.depot.Reached e) :
    k'.depot.Reached e := by
  cases hs with
  | depot hs => exact (hs.winds h.listed.depot h.closed).reached e hr
  | _ => exact hr

theorem Closes.bears (h : Closes k₀ k) (hs : Step net k k') {id : Nat}
    (hp : (k.depot.pool.site e).permits.closed = true) (hb : k'.depot.Bears e id) :
    k.depot.Bears e id := by
  cases hs with
  | depot hs => exact (hs.winds h.listed.depot h.closed).bears e id hp hb
  | enter _ _ => exact hb
  | @queue as bs now b a pool hk hx =>
    cases hx
    obtain hb | ⟨a', hm, hd⟩ := hb
    · exact .inl hb
    · obtain hm | hm := List.mem_append.mp hm
      · exact .inr ⟨a', hm, hd⟩
      · cases List.mem_singleton.mp hm
        cases hd
  | checkIn hk _ => exact bears_ended hk hb
  | giveBack _ _ => exact hb

/-- From an endpoint that a closing has come to nothing new comes out. -/
theorem Closes.winds (h : Closes k₀ k) (hs : Steps net k k') (hr : k.depot.Reached e) :
    k'.depot.Reached e ∧ ((k₀.depot.pool.site? e).isSome = true →
      ∀ id, k'.depot.Bears e id → k.depot.Bears e id) := by
  induction hs with
  | refl => exact ⟨hr, fun _ _ hb => hb⟩
  | tail hs h' ih =>
    have hk := h.steps hs
    refine ⟨hk.reached h' ih.1, fun he id hb => ih.2 he id ?_⟩
    exact hk.bears h' (hk.permits e he ih.1) hb

theorem loops_steps {l : EventLoop} (h : k.depot.Loops l) (hs : Steps net k k') :
    k'.depot.Loops l := by
  induction hs with
  | refl => exact h
  | @tail k' k'' _ h' ih =>
    cases h' with
    | depot hs => exact ih.step hs
    | enter _ _ => exact ih
    | @queue as bs now e a pool hk hx =>
      have hn := Acquisition.eventLoop_enqueue now e k'.depot.pool
      rw [hx] at hn
      exact ih.keep hn fun c hm _ => hm
    | checkIn _ _ => exact ih.keep rfl fun c hm _ => hm
    | giveBack _ hr => exact ih.keep (Return.constant_advance hr).eventLoop fun c hm _ => hm

/-! ## What comes of a closed pool -/

/-- However acquisitions, leases, returns and closings move after a call to close an open pool, and
whatever the network answers, the pool begins no acquisition. Where the closing has been, and once
all closings are done that is everywhere, no more is idle than what was about to become so when the
pool was closed; and at an endpoint that had been entered by then, whoever waits for a permit fails,
and no lease comes out but those that were being dialed for. A lease that is out can be given back
or discarded, and nothing becomes idle by it. Its connection is aborted if it is discarded, and
closed if it is given back, as long as the event loop runs: a loop of the pool's own runs until a
closing has ended. -/
theorem closed_pool_winds_down {config : PoolConfig} {eventLoop : EventLoop} {p : Pool κ}
    (hp : Pool.start config eventLoop = .ok p) {w : ω} (hs₀ : Steps net (ofPool p w) k₀)
    (ho : k₀.depot.pool.closed = false) (hs : Steps net k₀.close k) (hs' : Steps net k k') :
    (∀ now e, Acquisition.start now e k'.depot.pool = .error .poolClosed) ∧
      (∀ e, k.depot.Reached e →
        (k'.depot.pool.stats e).idle ≤ k₀.keptAt e ∧
        ((k₀.depot.pool.site? e).isSome = true →
          (∀ ticket deadline, (e, .waiting ticket deadline) ∈ k'.depot.acquisitions → ∀ now,
            ((Acquisition.waiting ticket deadline).poll net now e k'.depot.pool
              k'.depot.world).1 = .failed .poolClosed) ∧
          ∀ id, k'.depot.Bears e id → k.depot.Bears e id)) ∧
      ((∀ c ∈ k.depot.closings, c.isDone = true) → ∀ e, k.depot.Reached e) ∧
      (∀ l ∈ k'.depot.leases, k'.depot.Settles net l) ∧
      k'.depot.Loops eventLoop := by
  have hl : k₀.Listed := hs₀.listed (listed_ofPool hp w)
  have hc : Closes k₀ k := (closes_close net hl ho).steps hs
  have hc' : Closes k₀ k' := hc.steps hs'
  have he : p.eventLoop = eventLoop := by
    unfold Pool.start at hp
    split at hp <;> cases hp
    rfl
  refine ⟨fun now e => if_pos hc'.closed, fun e hr => ?_, fun hn e c hm => ?_, fun l hm => ?_, ?_⟩
  · obtain ⟨hr', hb⟩ := hc.winds hs' hr
    refine ⟨?_, fun hn => ⟨fun ticket deadline _ now => ?_, hb hn⟩⟩
    · rw [idle_stats]
      exact Nat.le_trans (Nat.le_add_right _ _) (hc'.idle e hr')
    · exact Acquisition.poll_closed net now ticket deadline _ (hc'.permits e hn hr')
  · have hd := hn c hm
    match c with
    | .done => exact List.not_mem_nil
  · exact hc'.listed.depot.settles hc'.closed hm
  · have hloop : (ofPool p w).depot.Loops eventLoop := .inl he
    exact loops_steps hloop (((hs₀.trans (steps_close k₀)).trans hs).trans hs')

/-- A pool for one connection is closed while that is on lease and a second acquisition waits. -/
theorem closed_pool_winds_down_with_waiter :
    let config : PoolConfig := { PoolConfig.standard with maxConnections := 1 }
    let e : Endpoint := ⟨.http, "origin", 80⟩
    let k₀ := [Turn.depot (.begin 0 e), .depot (.poll 0 0), .depot (.poll 0 0),
        .depot (.begin 0 e)].foldl (take Rehearsal.network)
      (ofPool ⟨config, [], false, 1, 0, .borrowed⟩ Rehearsal.Stage.empty)
    let k := k₀.close.take Rehearsal.network (.depot (.closeOn 0))
    let k' := [Turn.checkIn 0, .giveBack 0, .giveBack 0, .giveBack 0].foldl
      (take Rehearsal.network) k
    k₀.depot.pool.closed = false ∧ k.depot.Reached e ∧
      (e, .waiting 1 config.acquisitionMillis) ∈ k'.depot.acquisitions ∧
      ((Acquisition.waiting 1 config.acquisitionMillis).poll Rehearsal.network 0 e k'.depot.pool
        k'.depot.world).1 = .failed .poolClosed ∧
      (k'.depot.pool.stats e).idle ≤ k₀.keptAt e ∧ k₀.keptAt e = 0 := by
  intro config e k₀ k k'
  have hp : Pool.start config .borrowed =
      .ok (⟨config, [], false, 1, 0, .borrowed⟩ : Pool Rehearsal.Line) := rfl
  have hn : k₀.depot.pool.closed = false ∧ k.depot.Reached e ∧
      (k₀.depot.pool.site? e).isSome = true ∧
      (e, .waiting 1 config.acquisitionMillis) ∈ k'.depot.acquisitions ∧ k₀.keptAt e = 0 := by
    decide +kernel
  have hs₀ : Steps Rehearsal.network (ofPool _ _) k₀ := steps_foldl_take _ _
  have hs : Steps Rehearsal.network k₀.close k := steps_take (.depot (.closeOn 0)) k₀.close
  have hs' : Steps Rehearsal.network k k' := steps_foldl_take _ k
  obtain ⟨ho, hr, he, hm, hz⟩ := hn
  obtain ⟨-, hall, -⟩ := closed_pool_winds_down hp hs₀ ho hs hs'
  obtain ⟨hi, hw⟩ := hall e hr
  exact ⟨ho, hr, hm, (hw he).1 _ _ hm 0, hi, hz⟩

/-- While the idle connection of one endpoint is being closed, a permit that becomes free at the
next endpoint goes to whoever waits there, who then gets a lease. Once a closing has ended the event
loop of the pool's own, a connection that is given back counts as closed but is neither closed nor
aborted. And a connection that was looked at before the pool was closed is idle after the closing
has ended. -/
theorem closed_pool_leaks :
    let config : PoolConfig := { PoolConfig.standard with maxConnections := 1 }
    let e : Endpoint := ⟨.http, "origin", 80⟩
    let b : Endpoint := ⟨.http, "mirror", 80⟩
    let lent (l : EventLoop) :=
      [Depot.Turn.begin 0 e, .poll 0 0, .poll 0 0].foldl (Depot.take Rehearsal.network)
        (.ofPool ⟨config, [], false, 1, 0, l⟩ Rehearsal.Stage.empty)
    let d₁ := [Depot.Turn.release 0, .begin 0 b, .poll 0 0, .poll 0 0, .begin 0 b, .close,
      .closeOn 0].foldl (Depot.take Rehearsal.network) (lent .borrowed)
    let d₂ := [Depot.Turn.release 0, .poll 0 0, .poll 0 0].foldl (Depot.take Rehearsal.network) d₁
    let d₃ := [Depot.Turn.close, .closeOn 0, .closeOn 0, .closeOn 0, .release 0].foldl
      (Depot.take Rehearsal.network) (lent (.owned 1))
    let k := [Turn.checkIn 0, .giveBack 0, .depot .close, .depot (.closeOn 0), .depot (.closeOn 0),
      .depot (.closeOn 0), .giveBack 0, .giveBack 0].foldl (take Rehearsal.network)
      ⟨lent .borrowed, [], []⟩
    (d₁.pool.closed = true ∧ (b, .waiting 2 config.acquisitionMillis) ∈ d₁.acquisitions ∧
        d₁.leases.map (·.id) = [2] ∧ d₂.leases.map (·.id) = [3]) ∧
      ((∀ c ∈ d₃.closings, c.isDone = true) ∧ d₃.leases.length = 0 ∧
        (d₃.pool.stats e).closed = 1 ∧ d₃.world.traffic.closes = 0 ∧
        d₃.world.traffic.aborts = 0) ∧
      (∀ c ∈ k.depot.closings, c.isDone = true) ∧ k.returns.length = 0 ∧
        (k.depot.pool.stats e).idle = 1 := by
  decide +kernel

end Dock

end Courier
