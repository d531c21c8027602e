import Courier.Proofs.Pool.Limit

/-! # What the pool gets back

A lease that is discarded is out no longer and frees its permit. An acquisition that goes away frees
the permit it dials with, or leaves the queue to the others in it.
-/

namespace Courier

variable {ω κ : Type}

namespace Permits

def queue (p : Permits) : List Nat :=
  p.waiting ++ p.granted

theorem queue_release (p : Permits) : p.release.queue.Perm p.queue := by
  unfold release queue
  split
  · rename_i ticket rest hw
    rw [hw, ← List.append_assoc]
    exact List.perm_append_singleton ticket (rest ++ p.granted)
  · exact .refl _

theorem queue_withdraw (p : Permits) (ticket : Nat) :
    (p.withdraw ticket).queue.Perm (p.queue.erase ticket) := by
  unfold withdraw
  split
  · rename_i hg
    have hm : ticket ∈ p.granted := List.contains_iff_mem.mp hg
    have hq : (ticket :: (p.claim ticket).queue).Perm p.queue := by
      unfold claim queue
      refine List.perm_middle.symm.trans ?_
      exact (List.perm_cons_erase hm).symm.append_left p.waiting
    have he : (ticket :: (p.claim ticket).queue).erase ticket = (p.claim ticket).queue :=
      List.erase_cons_head ..
    exact (queue_release _).trans (he ▸ hq.erase ticket)
  · rename_i hg
    have hn : ticket ∉ p.granted := fun hm => hg (List.contains_iff_mem.mpr hm)
    have he : (p.waiting ++ p.granted).erase ticket = p.waiting.erase ticket ++ p.granted := by
      by_cases hw : ticket ∈ p.waiting
      · exact List.erase_append_left _ hw
      · rw [List.erase_append_right _ hw, List.erase_of_not_mem hn, List.erase_of_not_mem hw]
    rw [queue, queue, he]

end Permits

namespace Pool

variable {p q : Pool κ} {l : Lease κ}

/-- A lease that was out is over, its permit free, and its connection counted as discarded. -/
structure Discarded (p q : Pool κ) (l : Lease κ) : Prop where
  out : l.id ∈ (p.site l.endpoint).leased
  site : q.site l.endpoint =
    { p.site l.endpoint with
      permits := (p.site l.endpoint).permits.release
      leased := (p.site l.endpoint).leased.erase l.id
      discarded := (p.site l.endpoint).discarded + 1 }
  others : ∀ e, e ≠ l.endpoint → q.site e = p.site e

theorem discarded_discard (net : Network ω κ) (w : ω) (hl : l.id ∈ (p.site l.endpoint).leased) :
    Discarded p (p.discard net l w).1 l where
  out := hl
  site := by
    have he := isSome_of_mem_leased hl
    unfold discard freePermit onPermits
    rw [site_update_self _ ((isSome_site?_update ..).trans he), site_update_self _ he]
  others e he := by
    unfold discard freePermit onPermits
    rw [site_update_ne _ _ he, site_update_ne _ _ he]

end Pool

namespace Acquisition

variable {p : Pool κ} {e : Endpoint}

/-- The place that the acquisition took up at a site is free for the others. -/
structure Vacated (a : Acquisition) (s t : Site κ) : Prop where
  spare : t.permits.spare = s.permits.spare + a.dials
  queue : t.permits.queue.Perm
    (match a with
      | waiting ticket _ => s.permits.queue.erase ticket
      | dialing _ _ => s.permits.queue)
  pending : t.pending =
    match a with
    | waiting _ _ => s.pending - 1
    | dialing _ _ => s.pending
  leased : t.leased = s.leased
  idle : t.idle = s.idle

theorem vacated_drop (a : Acquisition) (he : (p.site? e).isSome = true) :
    a.Vacated (p.site e) ((a.drop e p).site e) := by
  cases a with
  | waiting ticket deadline =>
    have hs : ((waiting ticket deadline).drop e p).site e =
        { p.site e with
          permits := (p.site e).permits.withdraw ticket, pending := (p.site e).pending - 1 } :=
      Pool.site_update_self _ he
    rw [hs]
    exact ⟨Permits.spare_withdraw _ _, Permits.queue_withdraw _ _, rfl, rfl, rfl⟩
  | dialing lease wait =>
    have hs : ((dialing lease wait).drop e p).site e =
        { p.site e with permits := (p.site e).permits.release } :=
      Pool.site_update_self _ he
    rw [hs]
    exact ⟨Permits.spare_release _, Permits.queue_release _, rfl, rfl, rfl⟩

theorem site_drop_ne (a : Acquisition) (p : Pool κ) {d : Endpoint} (hd : d ≠ e) :
    (a.drop e p).site d = p.site d := by
  cases a with
  | waiting ticket deadline => exact Pool.site_update_ne p _ hd
  | dialing lease wait => exact Pool.site_update_ne p _ hd

end Acquisition

end Courier
