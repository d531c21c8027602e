import Courier.Proofs.Client.History
import Courier.Proofs.Client.Run

/-! # Attempts

An execution makes one attempt after another. Each step begins an attempt, goes on with it, shows
the handler its response, ends it, or goes on to the next one after a wait. The handler is told of
the beginning, of the response and of the end, and the error it is told is that of the attempt.
-/

namespace Courier

variable {ω κ ξ η α : Type}

/-! ## What the policy makes of an error -/

namespace RetryCondition

mutual

theorem holds_elapsed (ctx : RetryContext) (d : Duration) :
    ∀ c : RetryCondition, holds { ctx with elapsed := d } c = holds ctx c
  | never => rfl
  | always => rfl
  | maxAttempts _ => rfl
  | errorKinds _ => rfl
  | statusCodes _ => rfl
  | and cs => allHold_elapsed ctx d cs
  | or cs => someHolds_elapsed ctx d cs
  | not c => congrArg Bool.not (holds_elapsed ctx d c)

theorem allHold_elapsed (ctx : RetryContext) (d : Duration) :
    ∀ cs : List RetryCondition, allHold { ctx with elapsed := d } cs = allHold ctx cs
  | [] => rfl
  | c :: cs => by simp only [allHold, holds_elapsed ctx d c, allHold_elapsed ctx d cs]

theorem someHolds_elapsed (ctx : RetryContext) (d : Duration) :
    ∀ cs : List RetryCondition, someHolds { ctx with elapsed := d } cs = someHolds ctx cs
  | [] => rfl
  | c :: cs => by simp only [someHolds, holds_elapsed ctx d c, someHolds_elapsed ctx d cs]

end

end RetryCondition

namespace RetryPolicy

/-- Does the condition match the error after so many retries? How much time has gone by does not
matter. -/
def admits (p : RetryPolicy) (retries : Nat) (e : Error) : Bool :=
  p.isRetryable (.ofError retries (some e) .zero)

theorem isRetryable_ofError (p : RetryPolicy) (retries : Nat) (e : Error) (d : Duration) :
    p.isRetryable (.ofError retries (some e) d) = p.admits retries e :=
  RetryCondition.holds_elapsed (.ofError retries (some e) .zero) d p.condition

end RetryPolicy

/-! ## What the handler hears -/

namespace Callback

def error? : Callback → Option Error
  | exceptionOccurred e => some e
  | _ => none

end Callback

def callbacks (t : List Event) : List Callback :=
  t.filterMap Event.callback?

/-- An attempt as the handler hears of it: completed after its response was shown, or failed, with
or without a response. -/
inductive Attempt
  | completed (head : ResponseHead) (declared : Option Nat)
  | failed (response : Option (ResponseHead × Option Nat)) (e : Error)

namespace Attempt

def error? : Attempt → Option Error
  | completed _ _ => none
  | failed _ e => some e

/-- What is told before the end of an attempt. -/
def opening : Option (ResponseHead × Option Nat) → List Callback
  | none => [.prepare]
  | some (head, declared) => [.prepare, .headersReceived head, .onStream declared]

def callbacks : Attempt → List Callback
  | completed head declared => opening (some (head, declared)) ++ [.complete]
  | failed response e => opening response ++ [.exceptionOccurred e]

end Attempt

namespace Phase

def isAnswered : Phase κ α → Bool
  | streaming _ => true
  | _ => false

def isWaiting : Phase κ α → Bool
  | waiting _ => true
  | _ => false

end Phase

/-! ## How an attempt can fail -/

def errorOf {β : Type} : Except Error β → Option Error
  | .error e => some e
  | .ok _ => none

namespace Execution

/-- The error that ends the attempt under way at its next step, if none has aborted it. -/
def fault? (c : Client ω κ ξ) (x : Execution κ η α) (w : World ω κ ξ) : Option Error :=
  match x.phase with
  | .prepared =>
    match (c.chain.onRequest x.request (x.opened.hookState w)).1 with
    | .error e => some e
    | .ok request => errorOf (Acquisition.start w.now request.endpoint w.pool)
  | .acquiring request a =>
    match (a.poll c.network w.now request.endpoint w.pool w.outside).1 with
    | .failed e => some e
    | _ => none
  | .sending head body lease _ =>
    errorOf (c.network.send head body lease.connection w.outside w.cells).result
  | .awaiting lease wait =>
    match wait.status w.now with
    | .pending => none
    | .expired => some (.socketTimeout w.pool.config.socketMillis duringHead)
    | .ready =>
      match (c.network.readHead lease.connection w.outside).1 with
      | .error e => some e
      | .ok head =>
        match x.withheld? c.policy head w.now with
        | some e => some e
        | none => errorOf (c.chain.onResponse (responseOf head) (x.hookState w)).1
  | .streaming s =>
    match s.outcome? with
    | some (.error e) => some e
    | some (.ok .drained) => errorOf (w.pool.release c.network s.lease w.outside).1
    | _ => none
  | _ => none

/-- The error that ends the attempt under way at its next step. -/
def failure? (c : Client ω κ ξ) (x : Execution κ η α) (w : World ω κ ξ) : Option Error :=
  if x.signal.aborted then
    if x.phase.inAttempt then some (.cancelled x.abortReason) else none
  else x.fault? c w

/-! ## Within an attempt -/

section Told

variable (x : Execution κ η α)

@[simp] theorem callbacks_note (e : Event) :
    callbacks (x.note e).history = callbacks x.history ++ e.callback?.toList := by
  cases h : e.callback? <;> simp [note, callbacks, h]

@[simp] theorem callbacks_moveTo (next : ExecutionState) :
    callbacks (x.moveTo next).history = callbacks x.history := by
  unfold moveTo
  split
  · rfl
  · exact (callbacks_note x _).trans (List.append_nil _)

@[simp] theorem retries_moveTo (next : ExecutionState) :
    (x.moveTo next).retries = x.retries := by
  unfold moveTo
  split <;> rfl

theorem state_moveTo {x : Execution κ η α} (next : ExecutionState)
    (hx : x.state.isTerminal = false) : (x.moveTo next).state = next := by
  unfold moveTo
  split
  · simp_all
  · rfl

end Told

/-- The second goes on from the first, and the handler has been told this meanwhile. -/
structure Tells (cs : List Callback) (x y : Execution κ η α) : Prop where
  callbacks : callbacks y.history = callbacks x.history ++ cs
  request : y.request = x.request
  signal : y.signal = x.signal
  retries : y.retries = x.retries
  live : x.state.isTerminal = false → y.state.isTerminal = false

variable {c : Client ω κ ξ} {h : Handler η α} {x y z : Execution κ η α} {w v : World ω κ ξ}
  {r : Execution κ η α × World ω κ ξ} {cs cs' : List Callback} {e : Error}

theorem Tells.refl (x : Execution κ η α) : Tells [] x x :=
  ⟨(List.append_nil _).symm, rfl, rfl, rfl, id⟩

theorem Tells.trans (hx : Tells cs x y) (hy : Tells cs' y z) : Tells (cs ++ cs') x z where
  callbacks := by rw [hy.callbacks, hx.callbacks, List.append_assoc]
  request := hy.request.trans hx.request
  signal := hy.signal.trans hx.signal
  retries := hy.retries.trans hx.retries
  live hl := hy.live (hx.live hl)

theorem tells_note (x : Execution κ η α) (e : Event) : Tells e.callback?.toList x (x.note e) :=
  ⟨callbacks_note x e, rfl, rfl, rfl, id⟩

theorem tells_moveTo (x : Execution κ η α) (next : ExecutionState)
    (hn : next.isTerminal = false) : Tells [] x (x.moveTo next) where
  callbacks := by simp
  request := by simp
  signal := by simp
  retries := by simp
  live hx := by rw [state_moveTo next hx, hn]

theorem Tells.congr (hx : Tells cs x y) (hh : z.history = y.history) (hq : z.request = y.request)
    (hs : z.signal = y.signal) (hr : z.retries = y.retries) (ht : z.state = y.state) :
    Tells cs x z :=
  ⟨hh ▸ hx.callbacks, hq.trans hx.request, hs.trans hx.signal, hr.trans hx.retries,
    fun hl => ht ▸ hx.live hl⟩

theorem tells_handed (net : Network ω κ) (h : Handler η α) (x : Execution κ η α) (l : Lease κ)
    (r : Response) (w : World ω κ ξ) :
    Tells [.headersReceived r.head, .onStream r.body.declared] x (x.handed net h l r w) := by
  have hh : Tells [.headersReceived r.head] x (x.tellHeaders h r.head) :=
    (tells_note x (.told (.headersReceived r.head))).congr rfl rfl rfl rfl rfl
  have hm := hh.trans (tells_moveTo (x.tellHeaders h r.head) .streamingBody rfl)
  exact (hm.trans (tells_note _ (.told (.onStream r.body.declared)))).congr rfl rfl rfl rfl rfl

theorem tells_pumped (x : Execution κ η α) (read : Option (Except Error (Option Bytes)))
    (s : Streaming κ) : Tells [] x (x.pumped read s) := by
  cases read with
  | none => exact (Tells.refl x).congr rfl rfl rfl rfl rfl
  | some result => exact (tells_note x (.read result)).congr rfl rfl rfl rfl rfl

theorem tells_letGo (net : Network ω κ) (x : Execution κ η α) (w : World ω κ ξ) :
    Tells [] x (x.letGo net w).1 := by
  unfold letGo
  split
  · exact .refl x
  · split
    · exact tells_note x (.discarded _)
    · exact .refl x

theorem callbacks_letGo (net : Network ω κ) (x : Execution κ η α) (w : World ω κ ξ) :
    callbacks (x.letGo net w).1.history = callbacks x.history := by
  rw [(tells_letGo net x w).callbacks, List.append_nil]

/-! ## What a step is to its attempt -/

/-- A step of an execution that has not been aborted, seen from its attempts. -/
inductive Passage (c : Client ω κ ξ) (h : Handler η α) (x : Execution κ η α) (w : World ω κ ξ) :
    Execution κ η α × World ω κ ξ → Prop

  | begins (hp : x.phase = .ready) : Passage c h x w (x.prepare h, w)

  | goes {y : Execution κ η α} {v : World ω κ ξ} (hx : x.phase.inAttempt = true)
      (hy : y.phase.inAttempt = true) (ha : y.phase.isAnswered = x.phase.isAnswered)
      (ht : Tells [] x y) (hf : x.fault? c w = none) : Passage c h x w (y, v)

  | answered {y : Execution κ η α} {v : World ω κ ξ} {head : ResponseHead}
      {declared : Option Nat} (hx : x.phase.inAttempt = true) (ha : x.phase.isAnswered = false)
      (hy : y.phase.isAnswered = true)
      (ht : Tells [.headersReceived head, .onStream declared] x y)
      (hf : x.fault? c w = none) : Passage c h x w (y, v)

  | fails {y : Execution κ η α} {v : World ω κ ξ} {e : Error} (hx : x.phase.inAttempt = true)
      (ht : Tells [] x y) (hf : x.fault? c w = some e) : Passage c h x w (y.fail c h e v)

  | succeeds {y : Execution κ η α} {v : World ω κ ξ} {s : Streaming κ} {e : BodyEnd}
      (hp : x.phase = .streaming s) (ho : s.outcome? = some (.ok e)) (ht : Tells [] x y)
      (hh : y.handler = x.handler) (hf : x.fault? c w = none) : Passage c h x w (y.succeed h, v)

  | resumes {due : Nat} (hp : x.phase = .waiting due) :
      Passage c h x w ({ x with retries := x.retries + 1, phase := .ready }, w)

theorem passage_settle {s : Streaming κ} {result : Except Error BodyEnd}
    (hp : x.phase = .streaming s) (ho : s.outcome? = some result) :
    Passage c h x w (x.settle c h s.lease result w) := by
  have hx : x.phase.inAttempt = true := by simp [hp, Phase.inAttempt]
  unfold settle
  rcases result with e | _ | _
  · exact .fails hx (tells_note x (.discarded _)) (by simp [fault?, hp, ho])
  · rcases hr : w.pool.release c.network s.lease w.outside with ⟨e | ⟨⟩, pool, outside⟩
    · exact .fails hx (tells_note x (.released _)) (by simp [fault?, hp, ho, hr, errorOf])
    · exact .succeeds hp ho (tells_note x (.released _)) rfl
        (by simp [fault?, hp, ho, hr, errorOf])
  · exact .succeeds hp ho (tells_note x (.discarded _)) rfl (by simp [fault?, hp, ho])

theorem Advance.passage (ha : Advance c h x w r) : Passage c h x w r := by
  have hopened (s : HookState ξ) : Tells [] x (x.opened.afterHooks s) :=
    (tells_moveTo x .acquiringConnection rfl).congr rfl rfl rfl rfl rfl
  cases ha with
  | prepare hp => exact .begins hp
  | refused hp hk =>
    exact .fails (by simp [hp, Phase.inAttempt]) (hopened _) (by simp [fault?, hp, hk])
  | unqueued hp hk ha =>
    exact .fails (by simp [hp, Phase.inAttempt]) (hopened _)
      (by simp [fault?, hp, hk, ha, errorOf])
  | @queued _ s _ _ hp hk ha =>
    refine .goes (by simp [hp, Phase.inAttempt]) rfl (by simp [hp, Phase.isAnswered]) ?_
      (by simp [fault?, hp, hk, ha, errorOf])
    exact (hopened s).congr rfl rfl rfl rfl rfl
  | acquiring hp _ ha =>
    refine .goes (by simp [hp, Phase.inAttempt]) rfl (by simp [hp, Phase.isAnswered]) ?_
      (by simp [fault?, hp, ha])
    exact (Tells.refl x).congr rfl rfl rfl rfl rfl
  | unacquired hp _ ha =>
    exact .fails (by simp [hp, Phase.inAttempt]) (.refl x) (by simp [fault?, hp, ha])
  | @leased request _ lease _ _ hp _ ha =>
    refine .goes (by simp [hp, Phase.inAttempt]) rfl
      (by simp [hp, transmitting, Phase.isAnswered]) ?_ (by simp [fault?, hp, ha])
    have hm := (tells_note x (.leased lease.id)).trans
      (tells_moveTo (x.note (.leased lease.id)) .transmitting rfl)
    exact (hm.trans (tells_note _ (.sent request.head _))).congr rfl rfl rfl rfl rfl
  | unsent hp _ hs =>
    exact .fails (by simp [hp, Phase.inAttempt]) (tells_note x (.discarded _))
      (by simp [fault?, hp, hs, errorOf])
  | sent hp _ hs =>
    refine .goes (by simp [hp, Phase.inAttempt]) rfl (by simp [hp, awaitingHead, Phase.isAnswered])
      ?_ (by simp [fault?, hp, hs, errorOf])
    exact (tells_moveTo x .awaitingResponse rfl).congr rfl rfl rfl rfl rfl
  | expired hp hd =>
    exact .fails (by simp [hp, Phase.inAttempt]) (tells_note x (.discarded _))
      (by simp [fault?, hp, hd])
  | headless hp hd hr =>
    exact .fails (by simp [hp, Phase.inAttempt]) (tells_note x (.discarded _))
      (by simp [fault?, hp, hd, hr])
  | @withheld _ _ head _ _ _ hp hd hr hw =>
    have hw' : x.withheld? c.policy head w.now = some _ := hw
    refine .fails (by simp [hp, Phase.inAttempt]) ?_ (by simp [fault?, hp, hd, hr, hw'])
    exact (tells_note x (.answered head)).trans (tells_note _ (.discarded _))
  | @rejected _ _ head _ _ _ s hp hd hr hw hk =>
    have hw' : x.withheld? c.policy head w.now = none := hw
    refine .fails (by simp [hp, Phase.inAttempt]) ?_
      (by simp [fault?, hp, hd, hr, hw', hk, errorOf])
    have hn : Tells [] x ((x.note (.answered head)).afterHooks s) :=
      (tells_note x (.answered head)).congr rfl rfl rfl rfl rfl
    exact hn.trans (tells_note _ (.discarded _))
  | @responded _ _ head r _ _ s hp hd hr hw hk =>
    have hw' : x.withheld? c.policy head w.now = none := hw
    have hn : Tells [] x ((x.note (.answered head)).afterHooks s) :=
      (tells_note x (.answered head)).congr rfl rfl rfl rfl rfl
    have ht (l : Lease κ) (v : World ω κ ξ) := hn.trans (tells_handed c.network h _ l r v)
    exact .answered (by simp [hp, Phase.inAttempt]) (by simp [hp, Phase.isAnswered]) rfl (ht _ _)
      (by simp [fault?, hp, hd, hr, hw', hk, errorOf])
  | settled hp ho => exact passage_settle hp ho
  | pumped hp ho _ _ =>
    exact .goes (by simp [hp, Phase.inAttempt]) rfl
      (by simp [hp, Execution.pumped, Phase.isAnswered]) (tells_pumped x _ _)
      (by simp [fault?, hp, ho])
  | handled hp ho _ _ =>
    refine .goes (by simp [hp, Phase.inAttempt]) rfl (by simp [hp, Phase.isAnswered]) ?_
      (by simp [fault?, hp, ho])
    exact (Tells.refl x).congr rfl rfl rfl rfl rfl
  | resume hp _ => exact .resumes hp

end Execution

end Courier
