import Courier.Client.Polling
import Courier.Integrity.Interceptor
import Courier.Proofs.Client.Step
import Courier.Rehearsal.Stage

/-! # Runs of an execution

An execution goes by its own steps. In between its body may pass the turn to either party, it may
be aborted or taken away with its event loop, and others may change the world. A poll is such a run,
and takes nothing away.
-/

namespace Courier

namespace Execution

variable {ω κ ξ η α : Type}

structure Unbegun (x : Execution κ η α) : Prop where
  phase : x.phase = .ready
  history : x.history = []

/-- Can anything come between this and the next step? A body that both parties have come to the end
of is settled in the same poll. -/
def isAtRest (x : Execution κ η α) : Bool :=
  match x.phase with
  | .streaming s => s.outcome?.isNone
  | _ => true

/-- What can happen to an execution, where others change the world only as `R` allows. -/
inductive Move (c : Client ω κ ξ) (h : Handler η α)
    (R : Execution κ η α → World ω κ ξ → World ω κ ξ → Prop) :
    Execution κ η α × World ω κ ξ → Execution κ η α × World ω κ ξ → Prop

  | step {x : Execution κ η α} {w : World ω κ ξ} {r : Execution κ η α × World ω κ ξ}
      (hs : x.step c h w = some r) : Move c h R (x, w) r

  | turn (x : Execution κ η α) (w : World ω κ ξ) (p : Party) : Move c h R (x, w) (x.withTurn p, w)

  | abort {x : Execution κ η α} (w : World ω κ ξ) (reason : String) (hr : x.isAtRest = true) :
      Move c h R (x, w) ((x.abort reason).2, w)

  | kill {x : Execution κ η α} (w : World ω κ ξ) (hr : x.isAtRest = true) :
      Move c h R (x, w) (x.kill c.network w)

  | others {x : Execution κ η α} {w w' : World ω κ ξ} (hr : R x w w') : Move c h R (x, w) (x, w')

inductive Moves (c : Client ω κ ξ) (h : Handler η α)
    (R : Execution κ η α → World ω κ ξ → World ω κ ξ → Prop)
    (r₀ : Execution κ η α × World ω κ ξ) : Execution κ η α × World ω κ ξ → Prop

  | refl : Moves c h R r₀ r₀

  | tail {r r' : Execution κ η α × World ω κ ξ} :
      Moves c h R r₀ r → Move c h R r r' → Moves c h R r₀ r'

variable {c : Client ω κ ξ} {h : Handler η α}
  {R : Execution κ η α → World ω κ ξ → World ω κ ξ → Prop}
  {r r' r'' : Execution κ η α × World ω κ ξ}

/-- Any number of moves of an execution that keeps its event loop. -/
inductive Runs (c : Client ω κ ξ) (h : Handler η α)
    (R : Execution κ η α → World ω κ ξ → World ω κ ξ → Prop)
    (r₀ : Execution κ η α × World ω κ ξ) : Execution κ η α × World ω κ ξ → Prop

  | refl : Runs c h R r₀ r₀

  | step {x : Execution κ η α} {w : World ω κ ξ} {r : Execution κ η α × World ω κ ξ} :
      Runs c h R r₀ (x, w) → x.step c h w = some r → Runs c h R r₀ r

  | turn {x : Execution κ η α} {w : World ω κ ξ} (p : Party) :
      Runs c h R r₀ (x, w) → Runs c h R r₀ (x.withTurn p, w)

  | abort {x : Execution κ η α} {w : World ω κ ξ} (reason : String) :
      Runs c h R r₀ (x, w) → x.isAtRest = true → Runs c h R r₀ ((x.abort reason).2, w)

  | others {x : Execution κ η α} {w w' : World ω κ ξ} :
      Runs c h R r₀ (x, w) → R x w w' → Runs c h R r₀ (x, w')

theorem Runs.trans (hr : Runs c h R r r') (hr' : Runs c h R r' r'') : Runs c h R r r'' := by
  induction hr' with
  | refl => exact hr
  | step _ hs ih => exact .step ih hs
  | turn p _ ih => exact .turn p ih
  | abort reason _ hq ih => exact .abort reason ih hq
  | others _ ho ih => exact .others ih ho

theorem Runs.moves (hr : Runs c h R r r') : Moves c h R r r' := by
  induction hr with
  | refl => exact .refl
  | step _ hs ih => exact .tail ih (.step hs)
  | turn p _ ih => exact .tail ih (.turn _ _ p)
  | abort reason _ hq ih => exact .tail ih (.abort _ reason hq)
  | others _ ho ih => exact .tail ih (.others ho)

def walk (c : Client ω κ ξ) (h : Handler η α) :
    Nat → Execution κ η α × World ω κ ξ → Execution κ η α × World ω κ ξ
  | 0, r => r
  | steps + 1, r =>
    match r.1.step c h r.2 with
    | none => r
    | some r' => walk c h steps r'

theorem runs_walk (steps : Nat) (r : Execution κ η α × World ω κ ξ) :
    Runs c h R r (walk c h steps r) := by
  induction steps generalizing r with
  | zero => exact .refl
  | succ steps ih =>
    unfold walk
    split
    · exact .refl
    · exact (Runs.step .refl ‹_›).trans (ih _)

theorem moves_walk (steps : Nat) (r : Execution κ η α × World ω κ ξ) :
    Moves c h R r (walk c h steps r) :=
  (runs_walk steps r).moves

theorem withTurn_cases (x : Execution κ η α) (p : Party) :
    x.withTurn p = x ∨ ∃ s, x.phase = .streaming s ∧
      x.withTurn p = { x with phase := .streaming { s with turn := p } } := by
  unfold withTurn
  split
  · exact .inr ⟨_, ‹_›, rfl⟩
  · exact .inl rfl

end Execution

/-! ## Polls -/

namespace Poll

open Execution

variable {ω κ ξ η α : Type} {c : Client ω κ ξ} {h : Handler η α}
  {R : Execution κ η α → World ω κ ξ → World ω κ ξ → Prop} {p p' : Poll ω κ ξ η α}

def scene (p : Poll ω κ ξ η α) : Execution κ η α × World ω κ ξ :=
  (p.execution, p.shift.world)

theorem runs_step (hs : p.step c h = some p') : Runs c h R p.scene p'.scene := by
  unfold Poll.step at hs
  cases hx : p.execution.step c h p.shift.world with
  | none => simp [hx] at hs
  | some r =>
    simp only [hx, Option.map_some, Option.some.injEq] at hs
    subst hs
    exact .step .refl hx

theorem runs_withTurn (p : Poll ω κ ξ η α) (who : Party) :
    Runs c h R p.scene (p.withTurn who).scene :=
  .turn who .refl

theorem runs_party (who : Party) (steps : Nat) (p : Poll ω κ ξ η α) :
    Runs c h R p.scene (p.party c h who steps).scene := by
  induction steps generalizing p with
  | zero => exact .refl
  | succ steps ih =>
    unfold party
    split
    · exact .refl
    · split
      · exact .refl
      · split
        · exact .refl
        · split
          · exact .refl
          · exact (p.runs_withTurn who).trans ((runs_step ‹_›).trans (ih _))

theorem runs_round (lead : Party) (steps : Nat) (p : Poll ω κ ξ η α) :
    Runs c h R p.scene (p.round c h lead steps).scene :=
  ((runs_party lead steps p).trans (runs_party lead.other steps _)).trans (runs_withTurn _ _)

theorem runs_run (steps : Nat) (p : Poll ω κ ξ η α) :
    Runs c h R p.scene (p.run c h steps).scene := by
  induction steps generalizing p with
  | zero => exact .refl
  | succ steps ih =>
    unfold run
    split
    · exact .refl
    · split
      · dsimp only
        split
        · exact runs_round _ _ _
        · exact (runs_round _ _ _).trans (ih _)
      · split
        · exact .refl
        · exact (runs_step ‹_›).trans (ih _)

theorem scene_setAlarm (p : Poll ω κ ξ η α) : p.setAlarm.scene = p.scene := by
  unfold setAlarm scene
  split
  · rfl
  · split
    · rfl
    · split <;> rfl

theorem runs_poll (steps : Nat) (alarm : Option Alarm) (x : Execution κ η α)
    (shift : Shift ω κ ξ) :
    Runs c h R (x, shift.world) (x.poll c h steps alarm shift).scene := by
  unfold Execution.poll
  split
  · exact .refl
  · rw [scene_setAlarm]
    exact runs_run steps (Poll.start x alarm shift)

end Poll

/-! ## Runs from a script -/

namespace Rehearsal

def origin : Endpoint := ⟨.http, "origin", 80⟩

def plainGet : Request := ⟨.get, ⟨origin, "/"⟩, .empty, .empty⟩

/-- A client of the scripted network that gives up at the first failure. -/
def scriptedClient (chain : InterceptorChain Unit) : Client Stage Line Unit :=
  ⟨network, chain, .never⟩

def scripted (replies : List Reply) : World Stage Line Unit :=
  ⟨0, ⟨.standard, [], false, 1, 0, .borrowed⟩, { Stage.empty with script := replies }, default, (),
    default⟩

def bufferedGet (chain : InterceptorChain Unit) (replies : List Reply) (attributes : Attributes)
    (steps : Nat) : Execution Line Buffering BufferedResponse × World Stage Line Unit :=
  Execution.walk (scriptedClient chain) Buffering.handler steps
    (.start plainGet .start attributes, scripted replies)

/-- A reply that is marked, with its payload and the digest in two chunks. -/
def markedReply (payload : Bytes) (n : Nat) : Reply :=
  let whole := payload ++ md5 payload
  ((Reply.ofStatus 200 "OK").withHeader Integrity.trailingMarker Integrity.appendMd5).withChunks
    [whole.take n, whole.drop n]

/-- A download, with the integrity hooks in the chain, that is answered so. -/
def markedGet (payload : Bytes) (n : Nat) :
    Execution Line Buffering BufferedResponse × World Stage Line Unit :=
  bufferedGet ⟨[Integrity.interceptor .enabled]⟩ [markedReply payload n]
    (Attributes.empty.put .operationKind .download) 60

end Rehearsal

end Courier
