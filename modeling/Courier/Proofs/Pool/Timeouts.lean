import Courier.Proofs.Pool.Depot

/-! # The timeouts of a pool

A pool keeps the configuration that it was started with. An acquisition that has to queue up fails
when the acquisition timeout has passed since it began, and one that has to dial when the connect
timeout has passed since it began to dial; neither fails of its timeout before.
-/

namespace Courier

variable {ω κ : Type}

theorem Wait.status_start (begun : Nat) (delay : Option Nat) (limit now : Nat) :
    (Wait.start begun delay limit).status now =
      if delay.any (begun + · ≤ now) then .ready
      else if begun + limit ≤ now then .expired else .pending := by
  cases delay <;> rfl

/-! ## The configuration is kept -/

theorem Pool.config_enter (p : Pool κ) (e : Endpoint) : (p.enter e).config = p.config := by
  unfold enter
  split <;> rfl

theorem Acquisition.config_start {now : Nat} {e : Endpoint} {p q : Pool κ} {a : Acquisition}
    (ha : start now e p = .ok (a, q)) : q.config = p.config := by
  unfold start at ha
  split at ha
  · cases ha
  · cases ha
    exact p.config_enter e

theorem Closing.config_start (p : Pool κ) : (Closing.start p).2.config = p.config := by
  unfold start
  split <;> rfl

theorem Closing.config_step (net : Network ω κ) (c : Closing κ) (p : Pool κ) (w : ω) :
    (c.step net p w).2.1.config = p.config := by
  unfold step
  split <;> rfl

namespace Depot

variable {net : Network ω κ} {d d' : Depot ω κ}

theorem Step.config (hs : Step net d d') : d'.pool.config = d.pool.config := by
  cases hs with
  | begin ha => exact Acquisition.config_start ha
  | wait _ ha => exact (Acquisition.constant_poll ha).config
  | lease _ ha => exact (Acquisition.constant_poll ha).config
  | fail _ ha => exact (Acquisition.constant_poll ha).config
  | leave => exact (Acquisition.constant_drop _ _ _).config
  | use => rfl
  | release _ hl => exact (Pool.constant_release hl).config
  | discard _ hl => exact (Pool.constant_discard hl).config
  | close hc => simpa only [hc] using Closing.config_start d.pool
  | @closeOn _ _ c _ _ _ _ hc => simpa only [hc] using Closing.config_step net c d.pool d.world
  | others => rfl

theorem Steps.config {d₀ : Depot ω κ} (hs : Steps net d₀ d) :
    d.pool.config = d₀.pool.config := by
  induction hs with
  | refl => rfl
  | tail _ h ih => exact h.config.trans ih

end Depot

/-! ## Acquisitions -/

namespace Acquisition

def connected (net : Network ω κ) (e : Endpoint) (lease : Nat) (w : ω) : Acquired κ :=
  match (net.dial e w).1 with
  | .ok connection => .leased ⟨lease, e, false, connection⟩
  | .error error => .failed (dialError e error)

end Acquisition

open Acquisition

/-- Acquisitions of the pool have this long to queue up and this long to dial. -/
structure Pool.Times (net : Network ω κ) (acquisition connect : Nat) (p : Pool κ) : Prop where
  queues : ∀ {now : Nat} {e : Endpoint} {a : Acquisition} {q : Pool κ},
    Acquisition.start now e p = .ok (a, q) → ∃ ticket, a = .waiting ticket (now + acquisition)
  waits : ∀ {e : Endpoint} {ticket : Nat}, (p.site e).permits.closed = false →
    (p.site e).permits.isGranted ticket = false → ∀ begun now w,
      ((waiting ticket (begun + acquisition)).poll net now e p w).1 =
        if begun + acquisition ≤ now then .failed (permitTimeout e acquisition)
        else .pending (.waiting ticket (begun + acquisition))
  dials : ∀ {now : Nat} {e : Endpoint} {a : Acquisition} {w v : ω} {lease : Nat} {wait : Wait}
    {q : Pool κ}, a.poll net now e p w = (.pending (.dialing lease wait), q, v) →
      a = .dialing lease wait ∨ wait = .start now (net.dialDelay e w) connect
  connects : ∀ e lease delay begun now w,
    ((dialing lease (.start begun delay connect)).poll net now e p w).1 =
      if delay.any (begun + · ≤ now) then connected net e lease w
      else if begun + connect ≤ now then .failed (connectTimeout e connect)
      else .pending (.dialing lease (.start begun delay connect))

namespace Acquisition

variable {net : Network ω κ} {p q : Pool κ} {e : Endpoint} {w v : ω}

theorem eq_waiting_of_start {now : Nat} {a : Acquisition} (ha : start now e p = .ok (a, q)) :
    ∃ ticket, a = .waiting ticket (now + p.config.acquisitionMillis) := by
  unfold start at ha
  split at ha
  · cases ha
  · cases ha
    exact ⟨p.nextTicket, by rw [← p.config_enter e]⟩

theorem poll_waiting {ticket : Nat} (hc : (p.site e).permits.closed = false)
    (hg : (p.site e).permits.isGranted ticket = false) (deadline now : Nat) :
    ((waiting ticket deadline).poll net now e p w).1 =
      if deadline ≤ now then .failed (permitTimeout e p.config.acquisitionMillis)
      else .pending (.waiting ticket deadline) := by
  simp only [poll, pollPermit, hc, hg, Bool.false_eq_true, if_false]
  split <;> rfl

theorem start_of_proceed {now lease : Nat} {wait : Wait}
    (h : (proceed net now e p w).1 = .pending (.dialing lease wait)) :
    wait = .start now (net.dialDelay e w) p.config.connectMillis := by
  unfold proceed at h
  dsimp only at h
  split at h
  · cases h
  · cases h
    rfl

theorem start_of_dialing {a : Acquisition} {now lease : Nat} {wait : Wait}
    (h : a.poll net now e p w = (.pending (.dialing lease wait), q, v)) :
    a = .dialing lease wait ∨ wait = .start now (net.dialDelay e w) p.config.connectMillis := by
  cases a with
  | waiting ticket deadline =>
    refine .inr ?_
    dsimp only [poll, pollPermit] at h
    split at h
    · cases h
    · split at h
      · have hstart := start_of_proceed (congrArg Prod.fst h)
        exact hstart
      · split at h <;> cases h
  | dialing lease' wait' =>
    refine .inl ?_
    dsimp only [poll, pollDial] at h
    split at h
    · cases h
      rfl
    · cases h
    · split at h <;> cases h

theorem poll_dialing (lease begun now : Nat) (delay : Option Nat) (limit : Nat) :
    ((dialing lease (.start begun delay limit)).poll net now e p w).1 =
      if delay.any (begun + · ≤ now) then connected net e lease w
      else if begun + limit ≤ now then .failed (connectTimeout e p.config.connectMillis)
      else .pending (.dialing lease (.start begun delay limit)) := by
  have hs := Wait.status_start begun delay limit now
  split
  · rw [if_pos ‹_›] at hs
    simp only [poll, pollDial, hs, connected]
    rcases net.dial e w with ⟨_ | _, _⟩ <;> rfl
  · rw [if_neg ‹_›] at hs
    split
    · rw [if_pos ‹_›] at hs
      simp only [poll, pollDial, hs]
    · rw [if_neg ‹_›] at hs
      simp only [poll, pollDial, hs]

end Acquisition

theorem Pool.times (net : Network ω κ) (p : Pool κ) :
    p.Times net p.config.acquisitionMillis p.config.connectMillis where
  queues := eq_waiting_of_start
  waits hc hg begun now _ := poll_waiting hc hg (begun + p.config.acquisitionMillis) now
  dials := start_of_dialing
  connects _ lease delay begun now _ := poll_dialing lease begun now delay _

end Courier
