import Courier.Rehearsal.Scene

/-! # Playing in virtual time

The callers' task is polled first, and then the others in the order in which they were woken. The
clock stands still while anyone is to be polled, and otherwise jumps to the next alarm.
-/

namespace Courier.Rehearsal

namespace Scene

variable {ω κ ξ η α : Type}

/-! ## Polls -/

def pollExecution (c : Client ω κ ξ) (h : Handler η α) (steps seat : Nat) (t : Caller κ η α)
    (s : Scene ω κ ξ η α) : Scene ω κ ξ η α × List Call :=
  let p := t.execution.poll c h steps t.alarm s.shift
  let s := s.put seat { t with execution := p.execution, alarm := p.alarm }
  let s := { s with shift := p.shift }
  (if p.tired then s.defer (s.owner seat t) else s, p.calls)

def pollInline (c : Client ω κ ξ) (h : Handler η α) (steps seat : Nat) (s : Scene ω κ ξ η α) :
    Scene ω κ ξ η α :=
  match s.callers[seat]? with
  | none => s
  | some t =>
    if t.isRunning .inline then
      let (s, calls) := s.pollExecution c h steps seat t
      s.hear (s.actor seat) calls
    else s

/-- The caller's part of a poll: its acts and the execution that runs inline go by turns first. -/
def turn (c : Client ω κ ξ) (h : Handler η α) (steps seat : Nat) (s : Scene ω κ ξ η α) :
    Scene ω κ ξ η α :=
  match s.callers[seat]? with
  | none => s
  | some t =>
    if t.isRunning .inline then
      let s := s.put seat { t with actsFirst := !t.actsFirst }
      if t.actsFirst then
        let s := (s.perform c seat steps).pollInline c h steps seat
        if s.callers[seat]?.any (·.acts.head? = some .join) then s.perform c seat steps else s
      else (s.pollInline c h steps seat).perform c seat steps
    else
      let s := s.perform c seat steps
      match s.callers[seat]? with
      | none => s
      | some t =>
        match t.acts with
        | .launch .inline :: acts =>
          let t := { t.launch .inline s.shift.now with acts, actsFirst := true }
          ((s.put seat t).pollInline c h steps seat).perform c seat steps
        | _ => s

/-- Turns of one caller after the other until one of them is not done. -/
def turnsInOrder (c : Client ω κ ξ) (h : Handler η α) (steps : Nat) : List Nat →
    Scene ω κ ξ η α → Scene ω κ ξ η α
  | [], s => s
  | seat :: seats, s =>
    let s := s.turn c h steps seat
    if s.isDone seat then turnsInOrder c h steps seats s else s

/-- How far a crowd has been served since a caller was last done. -/
structure Tally where
  served : Nat
  woken : Nat
  limit : Nat

/-- Nobody has been served; each of those who are not done may be. -/
def tally (s : Scene ω κ ξ η α) : Tally :=
  ⟨0, 0, (s.callers.filter fun t => !t.isDone).length⟩

/-- Two callers that woke themselves, or a turn for everyone, are enough for one poll. -/
def Tally.isFull (t : Tally) : Bool :=
  2 ≤ t.woken || t.limit ≤ t.served

def serve (c : Client ω κ ξ) (h : Handler η α) (steps : Nat) : Nat → Tally →
    Scene ω κ ξ η α → Scene ω κ ξ η α
  | 0, _, s => s
  | turns + 1, tally, s =>
    match s.ready with
    | [] => s
    | seat :: ready =>
      let s := { s with ready }
      if s.isDone seat then serve c h steps turns tally s
      else
        let s := s.turn c h steps seat
        if s.isDone seat then serve c h steps turns s.tally s
        else
          let woken := tally.woken + if s.ready.contains seat then 1 else 0
          let tally := { tally with woken, served := tally.served + 1 }
          if tally.isFull then s.wake .main else serve c h steps turns tally s

def pollMain (c : Client ω κ ξ) (h : Handler η α) (steps : Nat) (s : Scene ω κ ξ η α) :
    Scene ω κ ξ η α :=
  let s := { s.refreshed with isMainDue := false }
  let seats := List.range s.callers.length
  match s.company with
  | .solo => s.turnsInOrder c h steps (seats.filter (!s.isDone ·))
  | .together => seats.foldl (fun s seat => s.turn c h steps seat) s
  | .crowd => s.serve c h steps steps s.tally

/-- A caller hears that its task has ended, or that the execution is in the state it waits for. -/
def report (seat : Nat) (s : Scene ω κ ξ η α) : Scene ω κ ξ η α :=
  match s.callers[seat]? with
  | none => s
  | some t =>
    let isAwaited :=
      match t.acts with
      | .awaitState _ :: _ => t.canPass s.shift.now
      | _ => t.listening && t.execution.isFinished
    if isAwaited then s.wake (s.actor seat) else s

/-- A poll of the task of a caller; an event loop that has stopped takes it along. Whom it has
woken go before it. -/
def pollTask (c : Client ω κ ξ) (h : Handler η α) (steps seat : Nat) (s : Scene ω κ ξ η α) :
    Scene ω κ ξ η α :=
  match s.callers[seat]? with
  | none => s
  | some t =>
    let w := s.shift.world
    if !t.isRunning .loop then s
    else if w.pool.eventLoop.isRunning then
      let (s, calls) := s.refreshed.pollExecution c h steps seat t
      let (own, others) := calls.partition (· = .own)
      (s.hear (.task seat) (others ++ own)).report seat
    else
      let (execution, world) := t.execution.kill c.network w
      let s := { s.put seat { t with execution } with shift := { s.shift with world } }
      (s.hear (.task seat) (w.pool.calls world.pool)).report seat

/-- Polls of the next tasks in the queue. -/
def pollTasks (c : Client ω κ ξ) (h : Handler η α) (steps : Nat) : Nat → Scene ω κ ξ η α →
    Scene ω κ ξ η α
  | 0, s => s
  | polls + 1, s =>
    match s.queue with
    | [] => s
    | none :: queue => pollTasks c h steps polls { s with queue }
    | some seat :: queue => pollTasks c h steps polls ({ s with queue }.pollTask c h steps seat)

/-- How many tasks are polled before the callers' task is looked at again. -/
def burst : Nat := 61

/-! ## The clock -/

/-- The alarms that are set, and whom they wake. -/
def bells (s : Scene ω κ ξ η α) : List (Bell × Sleeper) :=
  s.callers.zipIdx.flatMap fun (t, seat) =>
    (t.bell.map (·, s.actor seat)).toList ++
      (t.alarm.bind fun a =>
        t.execution.wakeAt?.map fun due => (⟨due, a.order⟩, s.owner seat t)).toList

/-- The first alarm after now. -/
def nextDue? (s : Scene ω κ ξ η α) : Option Nat :=
  ((s.bells.map (·.1.due)).filter (s.shift.now < ·)).min?

/-- The alarms of an instant go off in the order in which they were set. -/
def jump (now : Nat) (s : Scene ω κ ξ η α) : Scene ω κ ξ η α :=
  let due := (s.bells.filter (·.1.due = now)).mergeSort fun a b => a.1.order ≤ b.1.order
  let world := { s.shift.world with now }
  { s with shift := { s.shift with world } }.wakeAll (due.map Prod.snd)

/-- Plays until all callers are done; the tasks already woken are still polled then. -/
def play (c : Client ω κ ξ) (h : Handler η α) : Nat → Scene ω κ ξ η α → Scene ω κ ξ η α
  | 0, s => s
  | steps + 1, s =>
    let s := if s.isMainDue then s.pollMain c h steps else s
    if s.callers.all Caller.isDone then s.pollTasks c h steps steps
    else
      let s := s.pollTasks c h steps burst
      if !s.deferred.isEmpty then play c h steps s.wakeDeferred
      else if !s.queue.isEmpty || s.isMainDue then play c h steps s
      else
        match s.nextDue? with
        | some now => play c h steps (s.jump now)
        | none => s

end Scene

def play {ω κ ξ η α : Type} (c : Client ω κ ξ) (h : Handler η α) (steps : Nat) (together : Bool)
    (ts : List (Caller κ η α)) (w : World ω κ ξ) : List (Caller κ η α) × World ω κ ξ :=
  let s := (Scene.start (.ofCount together ts.length) ts w).play c h steps
  (s.callers, s.shift.world)

end Courier.Rehearsal
