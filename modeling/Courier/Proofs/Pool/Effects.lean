import Courier.Proofs.Pool.Depot
import Courier.Proofs.Pool.Leaving

/-! # What the pool's operations do

Each operation changes the site at its own endpoint and no other. For every way in which it can end
the site is given in full as it is afterwards, with what has been done outside the pool.
-/

namespace Courier

variable {ω κ : Type}

namespace Site

variable (s : Site κ)

/-! ## Changes of a site -/

def queued (ticket : Nat) : Site κ :=
  { s with permits := s.permits.request ticket, pending := s.pending + 1 }

def left (ticket : Nat) : Site κ :=
  { s with permits := s.permits.withdraw ticket, pending := s.pending - 1 }

def claimed (ticket : Nat) : Site κ :=
  { s with permits := s.permits.claim ticket, pending := s.pending - 1 }

def reusing (lease : Nat) (rest : List κ) : Site κ :=
  { s with idle := rest, reused := s.reused + 1, leased := s.leased ++ [lease] }

def connected (lease : Nat) : Site κ :=
  { s with created := s.created + 1, leased := s.leased ++ [lease] }

def relieved : Site κ :=
  { s with permits := s.permits.release }

def shelved (lease : Nat) (connection : κ) : Site κ :=
  { s with
    leased := s.leased.erase lease, released := s.released + 1, idle := connection :: s.idle }

def retired (lease : Nat) : Site κ :=
  { s with leased := s.leased.erase lease, closed := s.closed + 1 }

def dropped (lease : Nat) : Site κ :=
  { s with leased := s.leased.erase lease, discarded := s.discarded + 1 }

/-- Closed to acquisitions, with what was idle taken out. -/
def emptied : Site κ :=
  { s with permits := s.permits.close, idle := [] }

def counted (n : Nat) : Site κ :=
  { s with closed := s.closed + n }

end Site

namespace Pool

variable {p q r : Pool κ} {e : Endpoint} {s t : Site κ}

/-- The site at this endpoint has become `t`, and the others are as they were. -/
structure Puts (e : Endpoint) (t : Site κ) (p q : Pool κ) : Prop where
  here : q.site e = t
  others : ∀ d, d ≠ e → q.site d = p.site d
  entered : ∀ d, (p.site? d).isSome = true → (q.site? d).isSome = true
  closed : q.closed = p.closed
  nextLease : q.nextLease = p.nextLease

theorem Puts.trans (h : Puts e s p q) (h' : Puts e t q r) : Puts e t p r where
  here := h'.here
  others d hd := (h'.others d hd).trans (h.others d hd)
  entered d hd := h'.entered d (h.entered d hd)
  closed := h'.closed.trans h.closed
  nextLease := h'.nextLease.trans h.nextLease

theorem Puts.same {β : Type} (h : Puts e t p q) (g : Site κ → β) (ht : g t = g (p.site e))
    (d : Endpoint) : g (q.site d) = g (p.site d) := by
  by_cases hd : d = e
  · subst hd
    rw [h.here, ht]
  · rw [h.others d hd]

theorem puts_update (f : Site κ → Site κ) (he : (p.site? e).isSome = true) :
    Puts e (f (p.site e)) p (p.update e f) where
  here := site_update_self f he
  others _ hd := site_update_ne p f hd
  entered d hd := (isSome_site?_update p e d f).trans hd
  closed := rfl
  nextLease := rfl

theorem puts_update_update (f g : Site κ → Site κ) (he : (p.site? e).isSome = true) :
    Puts e (g (f (p.site e))) p ((p.update e f).update e g) := by
  have hf := puts_update f he
  have hg := puts_update (p := p.update e f) g ((isSome_site?_update p e e f).trans he)
  rw [hf.here] at hg
  exact hf.trans hg

theorem puts_freePermit (he : (p.site? e).isSome = true) :
    Puts e (p.site e).relieved p (p.freePermit e) :=
  puts_update Site.relieved he

/-! ## Giving back -/

variable {l : Lease κ}

/-- How a connection on lease is given back: it becomes idle, or it is left to be closed. -/
inductive Releases (net : Network ω κ) (l : Lease κ) (p : Pool κ) (w : ω) : Pool κ → ω → Prop

  | shelves {q : Pool κ} (hr : net.isReusable l.connection = true) (hc : p.closed = false)
      (hq : Puts l.endpoint ((p.site l.endpoint).shelved l.id l.connection).relieved p q) :
      Releases net l p w q w

  | retires {q : Pool κ} (hr : net.isReusable l.connection = false ∨ p.closed = true)
      (hq : Puts l.endpoint ((p.site l.endpoint).retired l.id).relieved p q) :
      Releases net l p w q (if p.eventLoop.isRunning then net.close l.connection w else w)

theorem releases_release (net : Network ω κ) (w : ω) (hl : l.id ∈ (p.site l.endpoint).leased) :
    Releases net l p w (p.release net l w).2.1 (p.release net l w).2.2 := by
  have he := isSome_of_mem_leased hl
  rw [release_eq, if_pos (List.contains_iff_mem.mpr hl)]
  split
  · rename_i hr
    rw [Bool.and_eq_true, Bool.not_eq_true'] at hr
    exact .shelves hr.1 hr.2
      (puts_update_update (Site.shelved · l.id l.connection) Site.relieved he)
  · rename_i hr
    refine .retires ?_ (puts_update_update (Site.retired · l.id) Site.relieved he)
    cases hu : net.isReusable l.connection with
    | true => exact .inr (by simpa [hu] using hr)
    | false => exact .inl rfl

theorem puts_discard (net : Network ω κ) (w : ω) (hl : l.id ∈ (p.site l.endpoint).leased) :
    Puts l.endpoint ((p.site l.endpoint).dropped l.id).relieved p (p.discard net l w).1 :=
  puts_update_update (Site.dropped · l.id) Site.relieved (isSome_of_mem_leased hl)

end Pool

/-! ## Acquiring -/

namespace Acquisition

open Pool

variable {p q : Pool κ} {e : Endpoint}

theorem puts_enqueue (now : Nat) (e : Endpoint) (p : Pool κ) :
    Puts e ((p.site e).queued p.nextTicket) p (enqueue now e p).2 := by
  have he : ((p.enter e).site? e).isSome = true := by simp [isSome_site?_enter]
  have hn : Puts e (p.site e) p { p.enter e with nextTicket := p.nextTicket + 1 } := by
    refine ⟨site_enter p e e, fun d _ => site_enter p e d, (Undisturbed.enter p e).1.entered,
      ?_, ?_⟩
    · dsimp only
      unfold enter
      split <;> rfl
    · dsimp only
      unfold enter
      split <;> rfl
  have hu := puts_update (p := { p.enter e with nextTicket := p.nextTicket + 1 })
    (Site.queued · p.nextTicket) he
  rw [hn.here] at hu
  exact hn.trans hu

theorem start_cases {now : Nat} {a : Acquisition} (h : start now e p = .ok (a, q)) :
    p.closed = false ∧ ∃ ticket deadline, a = waiting ticket deadline ∧
      Puts e ((p.site e).queued ticket) p q := by
  obtain ⟨hc, he⟩ := start_eq_ok h
  have hq := puts_enqueue now e p
  rw [he] at hq
  exact ⟨hc, p.nextTicket, _, (congrArg Prod.fst he).symm, hq⟩

theorem closed_start {now : Nat} {a : Acquisition} (h : start now e p = .ok (a, q)) :
    q.closed = p.closed := by
  obtain ⟨_, _, _, _, hq⟩ := start_cases h
  exact hq.closed

/-- What is left at the site when an acquisition goes away. -/
def leaving (s : Site κ) : Acquisition → Site κ
  | waiting ticket _ => s.left ticket
  | dialing _ _ => s.relieved

theorem puts_drop (a : Acquisition) (he : (p.site? e).isSome = true) :
    Puts e (a.leaving (p.site e)) p (a.drop e p) := by
  cases a with
  | waiting ticket deadline => exact puts_update (Site.left · ticket) he
  | dialing lease wait => exact puts_freePermit he

/-- What a look at an acquisition comes to, with the pool and the world after it. -/
inductive Looks (net : Network ω κ) (e : Endpoint) (p : Pool κ) (w : ω) :
    Acquisition → Acquired κ → Pool κ → ω → Prop

  | waits (a : Acquisition) : Looks net e p w a (.pending a) p w

  | leaves {ticket deadline : Nat} {q : Pool κ} (error : Error)
      (hq : Puts e ((p.site e).left ticket) p q) :
      Looks net e p w (waiting ticket deadline) (.failed error) q w

  | reuses {ticket deadline : Nat} {connection : κ} {rest : List κ} {q : Pool κ}
      (hc : (p.site e).permits.closed = false) (hg : (p.site e).permits.isGranted ticket = true)
      (hi : (p.site e).idle = connection :: rest)
      (hq : Puts e (((p.site e).claimed ticket).reusing p.nextLease rest)
        { p with nextLease := p.nextLease + 1 } q) :
      Looks net e p w (waiting ticket deadline) (.leased ⟨p.nextLease, e, true, connection⟩) q w

  | begins {ticket deadline : Nat} {q : Pool κ} (wait : Wait)
      (hc : (p.site e).permits.closed = false) (hg : (p.site e).permits.isGranted ticket = true)
      (hi : (p.site e).idle = [])
      (hq : Puts e ((p.site e).claimed ticket) { p with nextLease := p.nextLease + 1 } q) :
      Looks net e p w (waiting ticket deadline) (.pending (dialing p.nextLease wait)) q w

  | expires {lease : Nat} {wait : Wait} {q : Pool κ} (error : Error)
      (hq : Puts e (p.site e).relieved p q) :
      Looks net e p w (dialing lease wait) (.failed error) q w

  | fails {lease : Nat} {wait : Wait} {q : Pool κ} {w' : ω} {error : Error}
      (hd : net.dial e w = (.error error, w')) (hq : Puts e (p.site e).relieved p q) :
      Looks net e p w (dialing lease wait) (.failed (dialError e error)) q w'

  | connects {lease : Nat} {wait : Wait} {connection : κ} {q : Pool κ} {w' : ω}
      (hd : net.dial e w = (.ok connection, w')) (hq : Puts e ((p.site e).connected lease) p q) :
      Looks net e p w (dialing lease wait) (.leased ⟨lease, e, false, connection⟩) q w'

theorem looks_pollPermit (net : Network ω κ) (now ticket deadline : Nat) (w : ω)
    (he : (p.site? e).isSome = true) :
    Looks net e p w (waiting ticket deadline) (pollPermit net now e ticket deadline p w).1
      (pollPermit net now e ticket deadline p w).2 w := by
  have hleft : Puts e ((p.site e).left ticket) p (withdraw ticket e p) :=
    puts_update (Site.left · ticket) he
  unfold pollPermit
  dsimp only
  split
  · exact .leaves _ hleft
  · rename_i hc
    rw [Bool.not_eq_true] at hc
    split
    · rename_i hg
      have ht : Puts e ((p.site e).claimed ticket) p (p.update e (Site.claimed · ticket)) :=
        puts_update (Site.claimed · ticket) he
      change Looks net e p w _ (proceed net now e (p.update e (Site.claimed · ticket)) w).1
        (proceed net now e (p.update e (Site.claimed · ticket)) w).2 w
      unfold proceed
      dsimp only
      split
      · rename_i connection rest hr
        have hi : (p.site e).idle = connection :: rest := (congrArg Site.idle ht.here).symm.trans hr
        exact .reuses hc hg hi (puts_update_update (p := { p with nextLease := p.nextLease + 1 })
          (Site.claimed · ticket) (Site.reusing · p.nextLease rest) he)
      · rename_i hr
        have hi : (p.site e).idle = [] := (congrArg Site.idle ht.here).symm.trans hr
        exact .begins _ hc hg hi ⟨ht.here, ht.others, ht.entered, rfl, rfl⟩
    · split
      · exact .leaves _ hleft
      · exact .waits _

theorem looks_pollDial (net : Network ω κ) (now lease : Nat) (wait : Wait) (w : ω)
    (he : (p.site? e).isSome = true) :
    Looks net e p w (dialing lease wait) (pollDial net now e lease wait p w).1
      (pollDial net now e lease wait p w).2.1 (pollDial net now e lease wait p w).2.2 := by
  unfold pollDial
  split
  · exact .waits _
  · exact .expires _ (puts_freePermit he)
  · rcases hd : net.dial e w with ⟨error | connection, w'⟩
    · exact .fails hd (puts_freePermit he)
    · exact .connects hd (puts_update (Site.connected · lease) he)

theorem looks_poll (net : Network ω κ) (now : Nat) (a : Acquisition) (w : ω)
    (he : (p.site? e).isSome = true) :
    Looks net e p w a (a.poll net now e p w).1 (a.poll net now e p w).2.1
      (a.poll net now e p w).2.2 := by
  cases a with
  | waiting ticket deadline => exact looks_pollPermit net now ticket deadline w he
  | dialing lease wait => exact looks_pollDial net now lease wait w he

end Acquisition

/-! ## Closing -/

namespace Closing

open Pool

variable {p q : Pool κ}

def endpoints : Closing κ → List Endpoint
  | sites es => es
  | connections e _ _ es => e :: es
  | done => []

inductive Moves (net : Network ω κ) (p : Pool κ) (w : ω) :
    Closing κ → Closing κ → Pool κ → ω → Prop

  | rests : Moves net p w done done p w

  | ends : Moves net p w (sites []) done { p with eventLoop := p.eventLoop.shutdown } w

  | empties {e : Endpoint} {es : List Endpoint} {q : Pool κ}
      (hq : Puts e (p.site e).emptied p q) :
      Moves net p w (sites (e :: es))
        (connections e (p.site e).idle (p.site e).idle.length es) q w

  | closes (e : Endpoint) (connection : κ) (rest : List κ) (count : Nat) (es : List Endpoint) :
      Moves net p w (connections e (connection :: rest) count es) (connections e rest count es) p
        (net.close connection w)

  | counts {e : Endpoint} {count : Nat} {es : List Endpoint} {q : Pool κ}
      (hq : Puts e ((p.site e).counted count) p q) :
      Moves net p w (connections e [] count es) (sites es) q w

theorem moves_step (net : Network ω κ) (w : ω) {c : Closing κ}
    (he : ∀ e ∈ c.endpoints, (p.site? e).isSome = true) :
    Moves net p w c (c.step net p w).1 (c.step net p w).2.1 (c.step net p w).2.2 := by
  match c with
  | done => exact .rests
  | sites [] => exact .ends
  | sites (e :: es) => exact .empties (puts_update Site.emptied (he e List.mem_cons_self))
  | connections e [] count es =>
    exact .counts (puts_update (Site.counted · count) (he e List.mem_cons_self))
  | connections e (connection :: rest) count es => exact .closes e connection rest count es

theorem nextLease_step (net : Network ω κ) (c : Closing κ) (p : Pool κ) (w : ω) :
    (c.step net p w).2.1.nextLease = p.nextLease := by
  match c with
  | done => rfl
  | sites [] => rfl
  | sites (_ :: _) => rfl
  | connections _ [] _ _ => rfl
  | connections _ (_ :: _) _ _ => rfl

theorem start_cases {c : Closing κ} (h : start p = (c, q)) :
    p.closed = true ∧ c = done ∧ q = p ∨
      p.closed = false ∧ c = sites (p.sites.map (·.1)) ∧ q = { p with closed := true } := by
  unfold start at h
  split at h
  · cases h
    exact .inl ⟨‹_›, rfl, rfl⟩
  · cases h
    exact .inr ⟨Bool.not_eq_true _ ▸ ‹¬_›, rfl, rfl⟩

end Closing

end Courier
