import Courier.Pool.Closing
import Courier.Proofs.Pool.Site

/-! # Pools in use

A pool with all that goes on around it: acquisitions that wait for a permit or dial, leases that are
out, and closings begun. They move one at a time and in any order. An acquisition may go away
instead of moving, and a closing may stop for good.
-/

namespace Courier

variable {ω κ : Type}

structure Depot (ω κ : Type) where
  pool : Pool κ
  world : ω
  acquisitions : List (Endpoint × Acquisition)
  leases : List (Lease κ)
  closings : List (Closing κ)

namespace Depot

def ofPool (p : Pool κ) (w : ω) : Depot ω κ := ⟨p, w, [], [], []⟩

inductive Step (net : Network ω κ) : Depot ω κ → Depot ω κ → Prop

  | begin {d : Depot ω κ} {now : Nat} {e : Endpoint} {a : Acquisition} {pool : Pool κ}
      (ha : Acquisition.start now e d.pool = .ok (a, pool)) :
      Step net d { d with pool, acquisitions := d.acquisitions ++ [(e, a)] }

  | wait {d : Depot ω κ} {before behind : List (Endpoint × Acquisition)} {now : Nat}
      {e : Endpoint} {a a' : Acquisition} {pool : Pool κ} {world : ω}
      (hd : d.acquisitions = before ++ (e, a) :: behind)
      (ha : a.poll net now e d.pool d.world = (.pending a', pool, world)) :
      Step net d { d with pool, world, acquisitions := before ++ (e, a') :: behind }

  | lease {d : Depot ω κ} {before behind : List (Endpoint × Acquisition)} {now : Nat}
      {e : Endpoint} {a : Acquisition} {l : Lease κ} {pool : Pool κ} {world : ω}
      (hd : d.acquisitions = before ++ (e, a) :: behind)
      (ha : a.poll net now e d.pool d.world = (.leased l, pool, world)) :
      Step net d
        { d with pool, world, acquisitions := before ++ behind, leases := d.leases ++ [l] }

  | fail {d : Depot ω κ} {before behind : List (Endpoint × Acquisition)} {now : Nat}
      {e : Endpoint} {a : Acquisition} {error : Error} {pool : Pool κ} {world : ω}
      (hd : d.acquisitions = before ++ (e, a) :: behind)
      (ha : a.poll net now e d.pool d.world = (.failed error, pool, world)) :
      Step net d { d with pool, world, acquisitions := before ++ behind }

  | leave {d : Depot ω κ} {before behind : List (Endpoint × Acquisition)} {e : Endpoint}
      {a : Acquisition} (hd : d.acquisitions = before ++ (e, a) :: behind) :
      Step net d { d with pool := a.drop e d.pool, acquisitions := before ++ behind }

  | use {d : Depot ω κ} {before behind : List (Lease κ)} {l : Lease κ} (connection : κ) (world : ω)
      (hd : d.leases = before ++ l :: behind) :
      Step net d { d with world, leases := before ++ { l with connection } :: behind }

  | release {d : Depot ω κ} {before behind : List (Lease κ)} {l : Lease κ}
      {result : Except Error Unit} {pool : Pool κ} {world : ω}
      (hd : d.leases = before ++ l :: behind)
      (hl : d.pool.release net l d.world = (result, pool, world)) :
      Step net d { d with pool, world, leases := before ++ behind }

  | discard {d : Depot ω κ} {before behind : List (Lease κ)} {l : Lease κ} {pool : Pool κ}
      {world : ω} (hd : d.leases = before ++ l :: behind)
      (hl : d.pool.discard net l d.world = (pool, world)) :
      Step net d { d with pool, world, leases := before ++ behind }

  | close {d : Depot ω κ} {c : Closing κ} {pool : Pool κ} (hc : Closing.start d.pool = (c, pool)) :
      Step net d { d with pool, closings := d.closings ++ [c] }

  | closeOn {d : Depot ω κ} {before behind : List (Closing κ)} {c c' : Closing κ} {pool : Pool κ}
      {world : ω} (hd : d.closings = before ++ c :: behind)
      (hc : c.step net d.pool d.world = (c', pool, world)) :
      Step net d { d with pool, world, closings := before ++ c' :: behind }

  | others {d : Depot ω κ} (world : ω) : Step net d { d with world }

inductive Steps (net : Network ω κ) (d₀ : Depot ω κ) : Depot ω κ → Prop

  | refl : Steps net d₀ d₀

  | tail {d d' : Depot ω κ} : Steps net d₀ d → Step net d d' → Steps net d₀ d'

variable {net : Network ω κ} {d d' d'' : Depot ω κ}

theorem Step.single (hs : Step net d d') : Steps net d d' :=
  .tail .refl hs

theorem Steps.trans (hs : Steps net d d') (hs' : Steps net d' d'') : Steps net d d'' := by
  induction hs' with
  | refl => exact hs
  | tail _ h ih => exact .tail ih h

/-! ## Schedules -/

/-- Who is to move next, by its place among its like, and at what time. -/
inductive Turn
  | begin (now : Nat) (e : Endpoint)
  | poll (place now : Nat)
  | leave (place : Nat)
  | release (place : Nat)
  | discard (place : Nat)
  | close
  | closeOn (place : Nat)

def polled (net : Network ω κ) (d : Depot ω κ) (place : Nat) (e : Endpoint) (a : Acquisition)
    (now : Nat) : Depot ω κ :=
  let before := d.acquisitions.take place
  let behind := d.acquisitions.drop (place + 1)
  match a.poll net now e d.pool d.world with
  | (.pending a, pool, world) =>
    { d with pool, world, acquisitions := before ++ (e, a) :: behind }
  | (.leased l, pool, world) =>
    { d with pool, world, acquisitions := before ++ behind, leases := d.leases ++ [l] }
  | (.failed _, pool, world) => { d with pool, world, acquisitions := before ++ behind }

/-- Takes a turn; it passes if there is nobody to take it. -/
def take (net : Network ω κ) (d : Depot ω κ) : Turn → Depot ω κ
  | .begin now e =>
    match Acquisition.start now e d.pool with
    | .ok (a, pool) => { d with pool, acquisitions := d.acquisitions ++ [(e, a)] }
    | .error _ => d
  | .poll place now =>
    match d.acquisitions[place]? with
    | some (e, a) => d.polled net place e a now
    | none => d
  | .leave place =>
    match d.acquisitions[place]? with
    | some (e, a) => { d with pool := a.drop e d.pool, acquisitions := d.acquisitions.eraseIdx place }
    | none => d
  | .release place =>
    match d.leases[place]? with
    | some l =>
      let (_, pool, world) := d.pool.release net l d.world
      { d with pool, world, leases := d.leases.eraseIdx place }
    | none => d
  | .discard place =>
    match d.leases[place]? with
    | some l =>
      let (pool, world) := d.pool.discard net l d.world
      { d with pool, world, leases := d.leases.eraseIdx place }
    | none => d
  | .close =>
    let (c, pool) := Closing.start d.pool
    { d with pool, closings := d.closings ++ [c] }
  | .closeOn place =>
    match d.closings[place]? with
    | some c =>
      let (c, pool, world) := c.step net d.pool d.world
      { d with
        pool, world
        closings := d.closings.take place ++ c :: d.closings.drop (place + 1) }
    | none => d

theorem parts_of_getElem? {α : Type} {l : List α} {i : Nat} {a : α} (h : l[i]? = some a) :
    l = l.take i ++ a :: l.drop (i + 1) := by
  obtain ⟨hi, rfl⟩ := List.getElem?_eq_some_iff.mp h
  rw [← List.drop_eq_getElem_cons hi, List.take_append_drop]

theorem steps_polled {place now : Nat} {e : Endpoint} {a : Acquisition}
    (h : d.acquisitions[place]? = some (e, a)) : Steps net d (d.polled net place e a now) := by
  have hd := parts_of_getElem? h
  unfold polled
  rcases ha : a.poll net now e d.pool d.world with ⟨a' | l | error, pool, world⟩
  · exact (Step.wait hd ha).single
  · exact (Step.lease hd ha).single
  · exact (Step.fail hd ha).single

theorem steps_take (t : Turn) (d : Depot ω κ) : Steps net d (d.take net t) := by
  cases t with
  | begin now e =>
    dsimp only [take]
    split
    · exact (Step.begin ‹_›).single
    · exact .refl
  | poll place now =>
    dsimp only [take]
    split
    · exact steps_polled ‹_›
    · exact .refl
  | leave place =>
    dsimp only [take]
    split
    · rename_i h
      rw [List.eraseIdx_eq_take_drop_succ]
      exact (Step.leave (parts_of_getElem? h)).single
    · exact .refl
  | release place =>
    dsimp only [take]
    split
    · rename_i h
      rw [List.eraseIdx_eq_take_drop_succ]
      exact (Step.release (parts_of_getElem? h) rfl).single
    · exact .refl
  | discard place =>
    dsimp only [take]
    split
    · rename_i h
      rw [List.eraseIdx_eq_take_drop_succ]
      exact (Step.discard (parts_of_getElem? h) rfl).single
    · exact .refl
  | close => exact (Step.close rfl).single
  | closeOn place =>
    dsimp only [take]
    split
    · rename_i h
      exact (Step.closeOn (parts_of_getElem? h) rfl).single
    · exact .refl

theorem steps_foldl_take (ts : List Turn) (d : Depot ω κ) :
    Steps net d (ts.foldl (take net) d) := by
  induction ts generalizing d with
  | nil => exact .refl
  | cons t ts ih => exact (steps_take t d).trans (ih _)

end Depot

end Courier
