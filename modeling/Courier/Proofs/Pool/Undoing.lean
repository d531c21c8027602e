import Courier.Proofs.Pool.Deeds
import Courier.Proofs.Pool.Dealing

/-! # Acquisitions that come to nothing

An acquisition that fails or goes away, however far it has come, leaves every site as the others
would have left it. What is shown is that going away comes to the same before and after whatever
another does, so that it can be moved back, step by step, to where the acquisition was begun.
-/

namespace Courier

variable {ω κ : Type}

/-! ## One site -/

def Deed.claims? : Deed κ → Option Nat
  | claim ticket => some ticket
  | reuse ticket _ => some ticket
  | _ => none

/-- Another one has been granted the permit that is taken up. -/
def Deed.Heeds (a : Acquisition) (p : Permits) (deed : Deed κ) : Prop :=
  ∀ u, deed.claims? = some u → u ∈ p.granted ∧ a.ticket? ≠ some u

namespace Site

/-- The acquisition is one of those at the site. -/
structure Seats (s : Site κ) (a : Acquisition) : Prop where
  spent : 0 < s.permits.free → s.permits.waiting = []
  line : ∀ t, a.ticket? = some t → t ∈ s.permits.granted ++ s.permits.waiting
  pending : a.isWaiting = true → 0 < s.pending

variable {s : Site κ} {a : Acquisition} {deed : Deed κ}

/-- What another does at the site is the same before the acquisition goes away and after. -/
theorem Seats.leaving_on (h : s.Seats a) (hd : deed.Heeds a s.permits) :
    a.leaving (deed.on s) = deed.on (a.leaving s) := by
  cases a with
  | waiting t deadline =>
    have hqueue (u : Nat) := Permits.withdraw_request h.spent (h.line t rfl) u
    have hpending : s.pending + 1 - 1 = s.pending - 1 + 1 := Nat.sub_add_comm (h.pending rfl)
    have hclaim (u : Nat) (hu : deed.claims? = some u) :
        (s.permits.claim u).withdraw t = (s.permits.withdraw t).claim u := by
      obtain ⟨hgranted, hne⟩ := hd u hu
      exact Permits.withdraw_claim h.spent hgranted fun he => hne (congrArg some he.symm)
    cases deed with
    | queue u => simp only [Deed.on, Acquisition.leaving, queued, left, hqueue, hpending]
    | leave u =>
      simp only [Deed.on, Acquisition.leaving, left, Permits.withdraw_withdraw h.spent t u]
    | claim u => simp only [Deed.on, Acquisition.leaving, claimed, left, hclaim u rfl]
    | reuse u lease =>
      simp only [Deed.on, Acquisition.leaving, claimed, reusing, left, hclaim u rfl]
    | connect lease => rfl
    | empty =>
      simp only [Deed.on, Acquisition.leaving, emptied, left, Permits.withdraw_close h.spent t]
    | count n => rfl
    | _ =>
      simp only [Deed.on, Acquisition.leaving, shelved, retired, dropped, relieved, left,
        Permits.withdraw_release h.spent t]
  | dialing lease wait =>
    have hclaim (u : Nat) (hu : deed.claims? = some u) :
        (s.permits.claim u).release = s.permits.release.claim u :=
      Permits.release_claim h.spent (hd u hu).1
    cases deed with
    | queue u =>
      simp only [Deed.on, Acquisition.leaving, queued, relieved, Permits.release_request h.spent u]
    | leave u =>
      simp only [Deed.on, Acquisition.leaving, left, relieved, Permits.withdraw_release h.spent u]
    | claim u => simp only [Deed.on, Acquisition.leaving, claimed, relieved, hclaim u rfl]
    | reuse u lease =>
      simp only [Deed.on, Acquisition.leaving, claimed, reusing, relieved, hclaim u rfl]
    | empty =>
      simp only [Deed.on, Acquisition.leaving, emptied, relieved, Permits.release_close h.spent]
    | _ => rfl

theorem left_queued {t : Nat} (hs : 0 < s.permits.free → s.permits.waiting = [])
    (ht : t ∉ s.permits.granted ++ s.permits.waiting) : (s.queued t).left t = s := by
  simp only [queued, left, Permits.withdraw_request_self hs ht, Nat.add_sub_cancel]

theorem relieved_claimed {t : Nat} (ht : s.permits.isGranted t = true) :
    (s.claimed t).relieved = s.left t := by
  simp only [claimed, relieved, left, Permits.withdraw, if_pos ht]

end Site

/-! ## What a failure tells -/

namespace Acquisition

variable {net : Network ω κ} {e : Endpoint} {p q : Pool κ} {w w' : ω} {now : Nat} {error : Error}

theorem dialError_cases (e : Endpoint) (cause : Error) :
    ∃ place message, dialError e cause = .connectionAcquisition place message ∧
      (cause = .connectionAcquisition place message ∨
        place = e.text ∧ message = cause.message) := by
  unfold dialError
  split
  · exact ⟨_, _, rfl, .inl rfl⟩
  · exact ⟨_, _, rfl, .inr ⟨rfl, rfl⟩⟩

theorem failed_cases {a : Acquisition} (h : a.poll net now e p w = (.failed error, q, w')) :
    error = .poolClosed ∧ (p.site e).permits.closed = true ∨
      ∃ place message, error = .connectionAcquisition place message := by
  cases a with
  | waiting ticket deadline =>
    dsimp only [poll, pollPermit, proceed] at h
    split at h
    · cases h
      exact .inl ⟨rfl, ‹_›⟩
    · split at h
      · split at h <;> cases h
      · split at h
        · cases h
          exact .inr ⟨_, _, rfl⟩
        · cases h
  | dialing lease wait =>
    dsimp only [poll, pollDial] at h
    split at h
    · cases h
    · cases h
      exact .inr ⟨_, _, rfl⟩
    · split at h
      · cases h
      · rename_i cause _ _
        cases h
        obtain ⟨place, message, he, -⟩ := dialError_cases e cause
        exact .inr ⟨place, message, he⟩

theorem refused_cases (h : start now e p = .error error) :
    error = .poolClosed ∧ p.closed = true := by
  unfold start at h
  split at h
  · cases h
    exact ⟨rfl, ‹_›⟩
  · cases h

theorem poll_refused {lease : Nat} {wait : Wait} {cause : Error}
    (hw : wait.status now = .ready) (hd : net.dial e w = (.error cause, w')) :
    (dialing lease wait).poll net now e p w =
      (.failed (dialError e cause), p.freePermit e, w') := by
  dsimp only [poll, pollDial]
  rw [hw]
  dsimp only
  rw [hd]

end Acquisition

namespace Depot

open Pool

variable {net : Network ω κ} {limit : Nat} {d₀ d d' : Depot ω κ} {e b : Endpoint}
  {a : Acquisition} {ds : List (Endpoint × Deed κ)} {why : Option Error}

/-! ## The others -/

theorem not_mem_tickets {before behind : List (Endpoint × Acquisition)} {t deadline : Nat}
    (h : (d.queueAt e).Orderly)
    (hd : d.acquisitions = before ++ (e, .waiting t deadline) :: behind) :
    t ∉ tickets e (before ++ behind) := by
  have hsorted := h.sorted
  rw [queueAt_waiting hd] at hsorted
  have hnodup := List.Pairwise.imp Nat.ne_of_lt hsorted
  rw [tickets_append]
  exact (List.nodup_cons.mp (List.nodup_middle.mp hnodup)).1

theorem seats (ha : d.Accounted) (h : (d.queueAt e).Orderly) (hm : (e, a) ∈ d.acquisitions) :
    (d.pool.site e).Seats a where
  spent := h.spent
  line t ht := by
    cases a with
    | waiting ticket deadline =>
      cases ht
      have hline := mem_tickets hm
      exact h.served.symm ▸ hline
    | dialing lease wait => cases ht
  pending hw := by
    rw [(ha.balanced e).pending]
    exact List.countP_pos_iff.mpr ⟨_, hm, by simp [hw]⟩

theorem Does.heeds (hd : d.Sound limit) (hq : (d.queueAt e).Orderly) (h : Does net d ds d')
    (hm : (e, a) ∈ d'.acquisitions) :
    ds = [] ∨ ∃ b deed, ds = [(b, deed)] ∧ (b = e → deed.Heeds a (d.pool.site e).permits) := by
  have hother {before behind : List (Endpoint × Acquisition)} {u deadline : Nat}
      (hl : d.acquisitions = before ++ (e, .waiting u deadline) :: behind)
      (hm : (e, a) ∈ before ++ behind) : a.ticket? ≠ some u := by
    intro ht
    cases a with
    | waiting t deadline =>
      cases ht
      exact not_mem_tickets hq hl (mem_tickets hm)
    | dialing lease wait => cases ht
  cases h with
  | begin => exact .inr ⟨_, _, rfl, fun _ => nofun⟩
  | @poll before behind now b a' r pool world hl hx =>
    have hk := Acquisition.looks_poll net now a' d.world (hd.entered hl)
    rw [hx] at hk
    cases hk with
    | waits =>
      left
      cases a' <;> rfl
    | leaves => exact .inr ⟨_, _, rfl, fun _ => nofun⟩
    | reuses hc hg =>
      refine .inr ⟨_, _, rfl, ?_⟩
      rintro rfl u ⟨⟩
      exact ⟨List.contains_iff_mem.mp hg, hother hl hm⟩
    | begins wait hc hg =>
      refine .inr ⟨_, _, rfl, ?_⟩
      rintro rfl u ⟨⟩
      refine ⟨List.contains_iff_mem.mp hg, fun ht => hother hl ?_ ht⟩
      rcases List.mem_append.mp hm with hm | hm
      · exact List.mem_append_left _ hm
      · rcases List.mem_cons.mp hm with hm | hm
        · -- it waits still, so it is not the one that has begun to dial
          cases hm
          cases ht
        · exact List.mem_append_right _ hm
    | expires => exact .inr ⟨_, _, rfl, fun _ => nofun⟩
    | fails => exact .inr ⟨_, _, rfl, fun _ => nofun⟩
    | connects => exact .inr ⟨_, _, rfl, fun _ => nofun⟩
  | @leave _ _ _ a' =>
    refine .inr ⟨_, _, rfl, fun _ => ?_⟩
    cases a' <;> exact nofun
  | use => exact .inl rfl
  | @release _ _ l =>
    refine .inr ⟨_, _, rfl, fun _ => ?_⟩
    unfold Lease.homecoming
    split <;> exact nofun
  | discard => exact .inr ⟨_, _, rfl, fun _ => nofun⟩
  | close => exact .inl rfl
  | @closeOn _ _ c =>
    unfold Closing.deeds
    split
    · exact .inr ⟨_, _, rfl, fun _ => nofun⟩
    · exact .inr ⟨_, _, rfl, fun _ => nofun⟩
    · exact .inl rfl
  | others => exact .inl rfl

/-! ## From the beginning of an acquisition to its end -/

/-- An acquisition has been begun in `d₀`, and has come as far as this. Meanwhile the others have
done these things. -/
inductive Underway (net : Network ω κ) (e : Endpoint) (d₀ : Depot ω κ) :
    List (Endpoint × Deed κ) → Depot ω κ → Acquisition → Prop

  | begun {now : Nat} {a : Acquisition} {pool : Pool κ}
      (ha : Acquisition.start now e d₀.pool = .ok (a, pool)) :
      Underway net e d₀ [] { d₀ with pool, acquisitions := d₀.acquisitions ++ [(e, a)] } a

  | looks {ds : List (Endpoint × Deed κ)} {d : Depot ω κ}
      {before behind : List (Endpoint × Acquisition)} {now : Nat} {a a' : Acquisition}
      {pool : Pool κ} {world : ω} (h : Underway net e d₀ ds d a)
      (hd : d.acquisitions = before ++ (e, a) :: behind)
      (ha : a.poll net now e d.pool d.world = (.pending a', pool, world)) :
      Underway net e d₀ ds { d with pool, world, acquisitions := before ++ (e, a') :: behind } a'

  | others {ds ds' : List (Endpoint × Deed κ)} {d d' : Depot ω κ} {a : Acquisition}
      (h : Underway net e d₀ ds d a) (hs : Does net d ds' d') (hm : (e, a) ∈ d'.acquisitions) :
      Underway net e d₀ (ds ++ ds') d' a

/-- An acquisition has come to its end without a lease: it was refused at once, it failed with an
error, or it was dropped. -/
inductive Fails (net : Network ω κ) (e : Endpoint) (d₀ : Depot ω κ) :
    List (Endpoint × Deed κ) → Depot ω κ → Option Error → Prop

  | refused {now : Nat} {error : Error} (ha : Acquisition.start now e d₀.pool = .error error) :
      Fails net e d₀ [] d₀ (some error)

  | failed {ds : List (Endpoint × Deed κ)} {d : Depot ω κ}
      {before behind : List (Endpoint × Acquisition)} {now : Nat} {a : Acquisition} {error : Error}
      {pool : Pool κ} {world : ω} (h : Underway net e d₀ ds d a)
      (hd : d.acquisitions = before ++ (e, a) :: behind)
      (ha : a.poll net now e d.pool d.world = (.failed error, pool, world)) :
      Fails net e d₀ ds { d with pool, world, acquisitions := before ++ behind } (some error)

  | dropped {ds : List (Endpoint × Deed κ)} {d : Depot ω κ}
      {before behind : List (Endpoint × Acquisition)} {a : Acquisition}
      (h : Underway net e d₀ ds d a) (hd : d.acquisitions = before ++ (e, a) :: behind) :
      Fails net e d₀ ds { d with pool := a.drop e d.pool, acquisitions := before ++ behind } none

theorem Underway.steps (h : Underway net e d₀ ds d a) : Steps net d₀ d := by
  induction h with
  | begun ha => exact (Step.begin ha).single
  | looks _ hd ha ih => exact .tail ih (.wait hd ha)
  | others _ hs _ ih => exact .tail ih hs.step

theorem Underway.mem (h : Underway net e d₀ ds d a) : (e, a) ∈ d.acquisitions := by
  cases h with
  | begun => exact List.mem_append_right _ (List.mem_singleton_self _)
  | looks => exact List.mem_append_cons_self
  | others _ _ hm => exact hm

theorem Underway.step (h : Underway net e d₀ ds d a) (hs : Step net d d')
    (hm : (e, a) ∈ d'.acquisitions) : ∃ ds', Underway net e d₀ (ds ++ ds') d' a := by
  obtain ⟨ds', hdoes⟩ := hs.does
  exact ⟨ds', h.others hdoes hm⟩

/-- Without the acquisition the sites would be as the others have left them. -/
structure Undone (e : Endpoint) (a : Acquisition) (p₀ : Pool κ) (ds : List (Endpoint × Deed κ))
    (p : Pool κ) : Prop where
  here : a.leaving (p.site e) = (p₀.site e).replay e ds
  others : ∀ b, b ≠ e → p.site b = (p₀.site b).replay b ds

theorem Undone.gone {p₀ p q : Pool κ} (h : Undone e a p₀ ds p)
    (hq : Puts e (a.leaving (p.site e)) p q) (b : Endpoint) :
    q.site b = (p₀.site b).replay b ds := by
  by_cases hb : b = e
  · subst hb
    rw [hq.here, h.here]
  · rw [hq.others b hb, h.others b hb]

section Runs

variable (hd : d₀.Sound limit) (ha : d₀.Accounted) (hq : (d₀.queueAt e).Orderly)

include hd ha hq

/-- However far it has come, going away would undo it. -/
theorem Underway.undone (h : Underway net e d₀ ds d a) : Undone e a d₀.pool ds d.pool := by
  induction h with
  | @begun now a pool hx =>
    obtain ⟨-, ticket, deadline, rfl, hputs⟩ := Acquisition.start_cases hx
    cases (Acquisition.ticket_start hx).1
    refine ⟨?_, fun b hb => hputs.others b hb⟩
    have hfresh : d₀.pool.nextTicket ∉
        (d₀.pool.site e).permits.granted ++ (d₀.pool.site e).permits.waiting := by
      intro hm
      have hline : d₀.pool.nextTicket ∈ (d₀.queueAt e).line := hq.served ▸ hm
      exact Nat.lt_irrefl _ (hq.fresh _ hline)
    rw [hputs.here]
    exact Site.left_queued hq.spent hfresh
  | @looks ds d before behind now a a' pool world h hl hx ih =>
    have hk := Acquisition.looks_poll net now a d.world ((h.steps.sound hd).entered hl)
    rw [hx] at hk
    cases hk with
    | waits => exact ih
    | begins wait hc hg hi hputs =>
      refine ⟨?_, fun b hb => (hputs.others b hb).trans (ih.others b hb)⟩
      have hleft := ih.here
      rw [← hleft, hputs.here]
      exact Site.relieved_claimed hg
  | @others ds ds' d d' a h hs hm ih =>
    have hsound := h.steps.sound hd
    have haccounted := h.steps.accounted hd ha
    have horderly := h.steps.orderly hd ha hq
    have hreplay := hs.replay hsound haccounted
    refine ⟨?_, fun b hb => ?_⟩
    · rw [hreplay, Site.replay_append, ← ih.here]
      rcases hs.heeds hsound horderly hm with rfl | ⟨b, deed, rfl, hheeds⟩
      · rfl
      · by_cases hb : b = e
        · -- going away now, or before what the other has just done
          subst hb
          rw [Site.replay_self, Site.replay_self]
          exact (seats haccounted horderly h.mem).leaving_on (hheeds rfl)
        · rw [Site.replay_ne (Ne.symm hb), Site.replay_ne (Ne.symm hb)]
    · rw [hreplay, Site.replay_append, ih.others b hb]

theorem Fails.undone (h : Fails net e d₀ ds d why) (b : Endpoint) :
    d.pool.site b = (d₀.pool.site b).replay b ds := by
  cases h with
  | refused => rfl
  | @failed _ d before behind now a error pool world h hl hx =>
    have hundone := h.undone hd ha hq
    have hk := Acquisition.looks_poll net now a d.world ((h.steps.sound hd).entered hl)
    rw [hx] at hk
    cases hk with
    | leaves _ hputs => exact hundone.gone hputs b
    | expires _ hputs => exact hundone.gone hputs b
    | fails _ hputs => exact hundone.gone hputs b
  | @dropped _ d before behind a h hl =>
    exact (h.undone hd ha hq).gone (Acquisition.puts_drop a ((h.steps.sound hd).entered hl)) b

theorem Fails.error_cases {error : Error} (h : Fails net e d₀ ds d (some error)) :
    error = .poolClosed ∧ d.pool.closed = true ∨
      ∃ place message, error = .connectionAcquisition place message := by
  generalize hwhy : some error = why at h
  cases h with
  | refused hx =>
    cases hwhy
    exact .inl (Acquisition.refused_cases hx)
  | @failed _ d before behind now a error pool world h hl hx =>
    cases hwhy
    refine (Acquisition.failed_cases hx).imp (fun ⟨he, hclosed⟩ => ⟨he, ?_⟩) id
    have hpool : d.pool.closed = true := by
      by_contra ho
      have hopen := (h.steps.orderly hd ha hq).unclosed (Bool.not_eq_true _ ▸ ho)
      cases hclosed.symm.trans hopen
    have hk := Acquisition.looks_poll net now a d.world ((h.steps.sound hd).entered hl)
    rw [hx] at hk
    cases hk with
    | leaves _ hputs => exact hputs.closed.trans hpool
    | expires _ hputs => exact hputs.closed.trans hpool
    | fails _ hputs => exact hputs.closed.trans hpool
  | dropped => cases hwhy

end Runs

/-- Take a pool however its acquisitions, leases and closings have moved, and an acquisition that is
begun there and comes to no lease: it is refused at once, the wait for a permit or the dial comes to
an error or takes too long, or it is dropped at any time. Whatever the others have done meanwhile,
and in whatever order, every site is as if they had done just that, from where it stood before the
acquisition was begun: what is idle and on lease, all that is counted, the permits that are free and
those that are with others. The error says that the pool is closed, and it is, or that no connection
was acquired; and so it does whatever a dial has failed with. -/
theorem failed_acquisition_undone {config : PoolConfig} {eventLoop : EventLoop} {p : Pool κ}
    (hp : Pool.start config eventLoop = .ok p) {w : ω} (hs : Steps net (ofPool p w) d₀)
    (hf : Fails net e d₀ ds d why) :
    (∀ b, d.pool.site b = (d₀.pool.site b).replay b ds) ∧
    (∀ error, why = some error → error = .poolClosed ∧ d.pool.closed = true ∨
      ∃ place message, error = .connectionAcquisition place message) ∧
    ∀ (p : Pool κ) (w w' : ω) now lease wait cause,
      Wait.status wait now = .ready → net.dial e w = (.error cause, w') →
        ∃ place message, ((Acquisition.dialing lease wait).poll net now e p w).1 =
            .failed (.connectionAcquisition place message) ∧
          (cause = .connectionAcquisition place message ∨
            place = e.text ∧ message = cause.message) := by
  have hd := hs.sound (sound_ofPool hp w)
  have ha := hs.accounted (sound_ofPool hp w) (accounted_ofPool hp w)
  have hq : (d₀.queueAt e).Orderly :=
    hs.orderly (sound_ofPool hp w) (accounted_ofPool hp w) (orderly_ofPool hp w e)
  refine ⟨hf.undone hd ha hq, ?_, ?_⟩
  · rintro error rfl
    exact hf.error_cases hd ha hq
  · intro p w w' now lease wait cause hw hdial
    obtain ⟨place, message, he, hcause⟩ := Acquisition.dialError_cases e cause
    refine ⟨place, message, ?_, hcause⟩
    rw [Acquisition.poll_refused hw hdial, he]

/-! ## Taking turns -/

theorem take_begin {now : Nat}
    (h : (d.take net (.begin now e)).acquisitions = d.acquisitions ++ [(e, a)]) :
    ∃ pool, Acquisition.start now e d.pool = .ok (a, pool) ∧
      d.take net (.begin now e) = { d with pool, acquisitions := d.acquisitions ++ [(e, a)] } := by
  dsimp only [take] at h ⊢
  split at h
  · rename_i a' pool hx
    cases List.append_cancel_left h
    rw [hx]
    exact ⟨pool, rfl, rfl⟩
  · simp at h

theorem underway_take_begin {now : Nat}
    (h : (d.take net (.begin now e)).acquisitions = d.acquisitions ++ [(e, a)]) :
    Underway net e d [] (d.take net (.begin now e)) a := by
  obtain ⟨pool, hx, htake⟩ := take_begin h
  exact htake ▸ .begun hx

theorem does_take_begin {now : Nat}
    (h : (d.take net (.begin now e)).acquisitions = d.acquisitions ++ [(e, a)]) :
    Does net d [(e, .queue d.pool.nextTicket)] (d.take net (.begin now e)) := by
  obtain ⟨pool, hx, htake⟩ := take_begin h
  exact htake ▸ .begin hx

theorem Underway.fails_take_leave {place : Nat} (h : Underway net e d₀ ds d a)
    (hl : d.acquisitions[place]? = some (e, a)) :
    Fails net e d₀ ds (d.take net (.leave place)) none := by
  dsimp only [take]
  rw [hl]
  dsimp only
  rw [List.eraseIdx_eq_take_drop_succ]
  exact .dropped h (parts_of_getElem? hl)

/-- One connection is on lease and two acquisitions wait for it. It is given back, and the first
goes away without having looked: the second has its permit. -/
theorem failed_acquisition_undone_granted :
    let config : PoolConfig := { PoolConfig.standard with maxConnections := 1 }
    let e : Endpoint := ⟨.http, "origin", 80⟩
    let d₀ := [Turn.begin 0 e, .poll 0 0, .poll 0 0].foldl (take Rehearsal.network)
      (ofPool ⟨config, [], false, 1, 0, .borrowed⟩ Rehearsal.Stage.empty)
    let d := [Turn.begin 0 e, .begin 0 e, .release 0, .leave 0].foldl (take Rehearsal.network) d₀
    (d.pool.site e).permits = ⟨0, [], [2], false⟩ ∧
      ∃ back, ∀ b, d.pool.site b = (d₀.pool.site b).replay b ([(e, .queue 2)] ++ back) := by
  intro config e d₀ d
  have hp : Pool.start config .borrowed =
      .ok (⟨config, [], false, 1, 0, .borrowed⟩ : Pool Rehearsal.Line) := rfl
  have hs : Steps Rehearsal.network _ d₀ := steps_foldl_take _ _
  let a := Acquisition.waiting 1 config.acquisitionMillis
  let d₁ := d₀.take Rehearsal.network (.begin 0 e)
  let d₂ := d₁.take Rehearsal.network (.begin 0 e)
  let d₃ := d₂.take Rehearsal.network (.release 0)
  have hn : d₁.acquisitions = d₀.acquisitions ++ [(e, a)] ∧
      d₂.acquisitions = d₁.acquisitions ++ [(e, .waiting 2 config.acquisitionMillis)] ∧
      d₁.pool.nextTicket = 2 ∧ (e, a) ∈ d₂.acquisitions ∧ d₂.leases[0]?.isSome = true ∧
      (e, a) ∈ d₃.acquisitions ∧ d₃.acquisitions[0]? = some (e, a) ∧
      (d.pool.site e).permits = ⟨0, [], [2], false⟩ := by
    decide +kernel
  -- what has been evaluated is not to be evaluated again
  clear_value d₀
  obtain ⟨h₁, h₂, hticket, hm₂, hlease, hm₃, hplace, hpermits⟩ := hn
  obtain ⟨l, hl⟩ := Option.isSome_iff_exists.mp hlease
  have hqueue : Does Rehearsal.network d₁ [(e, .queue 2)] d₂ := hticket ▸ does_take_begin h₂
  have hqueued := (underway_take_begin h₁).others hqueue hm₂
  obtain ⟨back, hunderway⟩ := hqueued.step (step_release hl) hm₃
  obtain ⟨hsites, -, -⟩ := failed_acquisition_undone hp hs (hunderway.fails_take_leave hplace)
  exact ⟨hpermits, back, hsites⟩

end Depot

end Courier
