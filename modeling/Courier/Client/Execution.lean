import Courier.AbortSignal
import Courier.Client.Event
import Courier.Client.Streaming
import Courier.Interceptor
import Courier.Pool.Acquisition

/-! # Executions

An execution drives one request through its attempts: it acquires a connection, sends the request,
awaits the head, streams the body, and after a failure asks the retry policy what to do. It goes by
small steps; between two of them it may be aborted.
-/

namespace Courier

/-- What every execution of a client shares. -/
structure Client (ω κ ξ : Type) where
  network : Network ω κ
  chain : InterceptorChain ξ
  policy : RetryPolicy

/-- What executions change: the pool, what lies outside the client, cells, the memory of the hooks,
and the source of random delays. -/
structure World (ω κ ξ : Type) where
  now : Nat
  pool : Pool κ
  outside : ω
  cells : Cells
  memory : ξ
  entropy : Generator

/-- Where an execution stands. The body of a request is opened when it is about to be sent. -/
inductive Phase (κ α : Type)
  | ready
  | prepared
  | acquiring (request : Request) (acquisition : Acquisition)
  | sending (head : RequestHead) (body : Option ByteStream) (lease : Lease κ) (due : Option Nat)
  | awaiting (lease : Lease κ) (wait : Wait)
  | streaming (s : Streaming κ)
  | waiting (due : Nat)
  | finished (outcome : Except Error α)

namespace Phase

variable {κ α : Type}

def lease? : Phase κ α → Option (Lease κ)
  | sending _ _ lease _ => some lease
  | awaiting lease _ => some lease
  | streaming s => some s.lease
  | _ => none

/-- Is an attempt under way? -/
def inAttempt : Phase κ α → Bool
  | prepared => true
  | acquiring _ _ => true
  | sending _ _ _ _ => true
  | awaiting _ _ => true
  | streaming _ => true
  | _ => false

def isFinished : Phase κ α → Bool
  | finished _ => true
  | _ => false

def wakeAt? : Phase κ α → Option Nat
  | acquiring _ a => some a.wakeAt
  | sending _ _ _ due => due
  | awaiting _ wait => some wait.wakeAt
  | streaming s => s.wakeAt?
  | waiting due => some due
  | _ => none

end Phase

/-- One request with a handler of state `η` for its response. -/
structure Execution (κ η α : Type) where
  request : Request
  handler : η
  attributes : Attributes
  signal : AbortSignal
  state : ExecutionState
  retries : Nat
  started : Nat
  phase : Phase κ α
  history : List Event

namespace Execution

variable {ω κ ξ η α : Type}

def start (request : Request) (handler : η) (attributes : Attributes) : Execution κ η α where
  request
  handler
  attributes
  signal := .start
  state := .initial
  retries := 0
  started := 0
  phase := .ready
  history := []

def note (x : Execution κ η α) (e : Event) : Execution κ η α :=
  { x with history := x.history ++ [e] }

/-- A terminal state is kept, and a move to the same state is none. -/
def moveTo (x : Execution κ η α) (next : ExecutionState) : Execution κ η α :=
  if x.state.isTerminal || x.state = next then x
  else { x.note (.moved x.state next) with state := next }

def isFinished (x : Execution κ η α) : Bool :=
  x.phase.isFinished

def outcome? (x : Execution κ η α) : Option (Except Error α) :=
  match x.phase with
  | .finished outcome => some outcome
  | _ => none

def transitions (x : Execution κ η α) : List (ExecutionState × ExecutionState) :=
  x.history.filterMap Event.transition?

def wakeAt? (x : Execution κ η α) : Option Nat :=
  x.phase.wakeAt?

def abort (x : Execution κ η α) (reason : String) : Bool × Execution κ η α :=
  let (first, signal) := x.signal.abort reason
  (first, { x with signal })

def finish (x : Execution κ η α) (outcome : Except Error α) : Execution κ η α :=
  { x with phase := .finished outcome }

def hookState (x : Execution κ η α) (w : World ω κ ξ) : HookState ξ :=
  ⟨x.attributes, w.cells, w.memory⟩

def afterHooks (x : Execution κ η α) (s : HookState ξ) : Execution κ η α :=
  { x with attributes := s.attributes }

def context (x : Execution κ η α) (e : Error) (now : Nat) : RetryContext :=
  .ofError x.retries (some e) (.ofMillis (now - x.started))

/-! ## What the handler is told -/

def tellPrepare (h : Handler η α) (x : Execution κ η α) : Execution κ η α :=
  { x.note (.told .prepare) with handler := h.prepare x.handler }

def tellHeaders (h : Handler η α) (head : ResponseHead) (x : Execution κ η α) : Execution κ η α :=
  { x.note (.told (.headersReceived head)) with handler := h.headersReceived head x.handler }

def tellStream (h : Handler η α) (declared : Option Nat) (x : Execution κ η α) :
    Execution κ η α :=
  { x.note (.told (.onStream declared)) with handler := h.openBody declared x.handler }

def tellException (h : Handler η α) (e : Error) (x : Execution κ η α) : Execution κ η α :=
  { x.note (.told (.exceptionOccurred e)) with handler := h.exceptionOccurred e x.handler }

/-- The handler makes the outcome of what it was told. -/
def tellComplete (h : Handler η α) (x : Execution κ η α) : Execution κ η α :=
  let (outcome, handler) := h.complete x.handler
  { (x.note (.told .complete)).finish outcome with handler }

/-! ## Ends of attempts -/

def discard (net : Network ω κ) (lease : Lease κ) (x : Execution κ η α) (w : World ω κ ξ) :
    Execution κ η α × World ω κ ξ :=
  let (pool, outside) := w.pool.discard net lease w.outside
  (x.note (.discarded lease.id), { w with pool, outside })

def decide (policy : RetryPolicy) (e : Error) (x : Execution κ η α) (w : World ω κ ξ) :
    RetryDecision × World ω κ ξ :=
  if x.request.body.isReplayable w.cells then
    let (decision, entropy) := policy.decide (x.context e w.now) w.entropy
    (decision, { w with entropy })
  else (.notRetryable, w)

/-- An attempt has failed, and whatever it had leased is settled. -/
def fail (c : Client ω κ ξ) (h : Handler η α) (e : Error) (x : Execution κ η α)
    (w : World ω κ ξ) : Execution κ η α × World ω κ ξ :=
  let x := x.tellException h e
  let (decision, w) := x.decide c.policy e w
  let x := x.note (.decided (x.context e w.now) decision)
  match decision with
  | .retry delay => ({ x.moveTo .retrying with phase := .waiting (w.now + delay) }, w)
  | .giveUp => ((x.moveTo .failed).finish (.error (.retryExhausted (x.retries + 1) e)), w)
  | .notRetryable => ((x.moveTo .failed).finish (.error e), w)

/-- An attempt has failed with a connection in hand. -/
def failWith (c : Client ω κ ξ) (h : Handler η α) (lease : Lease κ) (e : Error)
    (x : Execution κ η α) (w : World ω κ ξ) : Execution κ η α × World ω κ ξ :=
  let (x, w) := x.discard c.network lease w
  x.fail c h e w

def succeed (h : Handler η α) (x : Execution κ η α) : Execution κ η α :=
  (x.moveTo .complete).tellComplete h

/-- The body has been read: a drained connection goes back to the pool, any other is discarded. -/
def settle (c : Client ω κ ξ) (h : Handler η α) (lease : Lease κ)
    (result : Except Error BodyEnd) (x : Execution κ η α) (w : World ω κ ξ) :
    Execution κ η α × World ω κ ξ :=
  match result with
  | .error e => x.failWith c h lease e w
  | .ok .abandoned =>
    let (x, w) := x.discard c.network lease w
    (x.succeed h, w)
  | .ok .drained =>
    let (result, pool, outside) := w.pool.release c.network lease w.outside
    let x := x.note (.released lease.id)
    let w := { w with pool, outside }
    match result with
    | .ok () => (x.succeed h, w)
    | .error e => x.fail c h e w

/-! ## Aborts -/

def abortReason (x : Execution κ η α) : String :=
  x.signal.reason.getD "aborted"

/-- Lets go of the connection or of the place in the queue for one. -/
def letGo (net : Network ω κ) (x : Execution κ η α) (w : World ω κ ξ) :
    Execution κ η α × World ω κ ξ :=
  match x.phase with
  | .acquiring request acquisition =>
    (x, { w with pool := acquisition.drop request.endpoint w.pool })
  | phase =>
    match phase.lease? with
    | some lease => x.discard net lease w
    | none => (x, w)

/-- The handler hears of an abort only if it fell into an attempt. -/
def interrupt (c : Client ω κ ξ) (h : Handler η α) (x : Execution κ η α) (w : World ω κ ξ) :
    Execution κ η α × World ω κ ξ :=
  let e := .cancelled x.abortReason
  let inAttempt := x.phase.inAttempt
  let (x, w) := x.letGo c.network w
  let x := x.moveTo .failed
  ((if inAttempt then x.tellException h e else x).finish (.error e), w)

def loopStopped : Error :=
  .cancelled "event loop shut down"

/-- The event loop stops and takes the execution with it, without a word to anyone. -/
def kill (net : Network ω κ) (x : Execution κ η α) (w : World ω κ ξ) :
    Execution κ η α × World ω κ ξ :=
  if x.isFinished then (x, w)
  else
    let (x, w) := x.letGo net w
    (x.finish (.error loopStopped), w)

/-! ## Steps -/

def prepare (h : Handler η α) (x : Execution κ η α) : Execution κ η α :=
  { x.tellPrepare h with phase := .prepared }

def beginAttempt (c : Client ω κ ξ) (h : Handler η α) (x : Execution κ η α) (w : World ω κ ξ) :
    Execution κ η α × World ω κ ξ :=
  let x := x.moveTo .acquiringConnection
  let (result, s) := c.chain.onRequest x.request (x.hookState w)
  let x := x.afterHooks s
  let w := { w with cells := s.cells, memory := s.memory }
  match result with
  | .error e => x.fail c h e w
  | .ok request =>
    match Acquisition.start w.now request.endpoint w.pool with
    | .error e => x.fail c h e w
    | .ok (acquisition, pool) =>
      ({ x with phase := .acquiring request acquisition }, { w with pool })

/-- Goes on to acquire; none while it has to wait. -/
def acquire (c : Client ω κ ξ) (h : Handler η α) (request : Request) (a : Acquisition)
    (x : Execution κ η α) (w : World ω κ ξ) : Option (Execution κ η α × World ω κ ξ) :=
  if a.isReady w.now request.endpoint w.pool then
    let (acquired, pool, outside) := a.poll c.network w.now request.endpoint w.pool w.outside
    let w := { w with pool, outside }
    match acquired with
    | .pending a => some ({ x with phase := .acquiring request a }, w)
    | .failed e => some (x.fail c h e w)
    | .leased lease =>
      let x := (x.note (.leased lease.id)).moveTo .transmitting
      let head := request.head
      let (body, cells) := request.body.openStream w.cells
      let due := (c.network.sendDelay lease.connection w.outside).map (w.now + ·)
      some ({ x.note (.sent head body) with phase := .sending head body lease due },
        { w with cells })
  else none

def duringHead : String := "awaiting the response head"

def transmit (c : Client ω κ ξ) (h : Handler η α) (head : RequestHead)
    (body : Option ByteStream) (lease : Lease κ) (x : Execution κ η α) (w : World ω κ ξ) :
    Execution κ η α × World ω κ ξ :=
  let sent := c.network.send head body lease.connection w.outside w.cells
  let lease := { lease with connection := sent.connection }
  let w := { w with outside := sent.world, cells := sent.cells }
  match sent.result with
  | .error e => x.failWith c h lease e w
  | .ok () =>
    let delay := c.network.headDelay lease.connection w.outside
    ({ x.moveTo .awaitingResponse with
        phase := .awaiting lease (.start w.now delay w.pool.config.socketMillis) }, w)

/-- A response with an error status is kept from the handler if the policy may retry it. -/
def withheld? (policy : RetryPolicy) (head : ResponseHead) (x : Execution κ η α) (now : Nat) :
    Option Error :=
  let e := .status head.status head.reason
  if !head.isSuccess && policy.isRetryable (x.context e now) then some e else none

/-- The response passes the hooks and goes to the handler. -/
def respond (c : Client ω κ ξ) (h : Handler η α) (lease : Lease κ) (head : ResponseHead)
    (x : Execution κ η α) (w : World ω κ ξ) : Execution κ η α × World ω κ ξ :=
  let outlet := Outlet.start.withLength head.headers.declaredLength?
  let (result, s) := c.chain.onResponse ⟨head, .wire outlet⟩ (x.hookState w)
  let x := x.afterHooks s
  let w := { w with cells := s.cells, memory := s.memory }
  match result with
  | .error e => x.failWith c h lease e w
  | .ok response =>
    let streaming :=
      Streaming.start c.network w.now w.pool.config.socketMillis lease response.body w.outside
    let x := (x.tellHeaders h response.head).moveTo .streamingBody
    ({ x.tellStream h response.body.declared with phase := .streaming streaming }, w)

def readHead (c : Client ω κ ξ) (h : Handler η α) (lease : Lease κ) (x : Execution κ η α)
    (w : World ω κ ξ) : Execution κ η α × World ω κ ξ :=
  let (result, connection, outside) := c.network.readHead lease.connection w.outside
  let lease := { lease with connection }
  let w := { w with outside }
  match result with
  | .error e => x.failWith c h lease e w
  | .ok head =>
    let x := x.note (.answered head)
    match x.withheld? c.policy head w.now with
    | some e => x.failWith c h lease e w
    | none => x.respond c h lease head w

def stream (c : Client ω κ ξ) (h : Handler η α) (s : Streaming κ) (x : Execution κ η α)
    (w : World ω κ ξ) : Option (Execution κ η α × World ω κ ξ) :=
  match s.outcome? with
  | some result => some (x.settle c h s.lease result w)
  | none =>
    match s.next? h x.handler w.now with
    | none => none
    | some .pump =>
      let (read, s, outside) :=
        { s with turn := .pump }.stepPump c.network w.now w.pool.config.socketMillis w.outside
      let x := (read.map fun result => x.note (.read result)).getD x
      some ({ x with phase := .streaming s }, { w with outside })
    | some .handler =>
      let (s, handler, cells) := { s with turn := .handler }.stepHandler h x.handler w.cells
      some ({ x with phase := .streaming s, handler }, { w with cells })

/-- The next step: none when the execution has to wait or is finished. -/
def step (c : Client ω κ ξ) (h : Handler η α) (x : Execution κ η α) (w : World ω κ ξ) :
    Option (Execution κ η α × World ω κ ξ) :=
  if x.isFinished then none
  else if x.signal.aborted then some (x.interrupt c h w)
  else
    match x.phase with
    | .finished _ => none
    | .ready => some (x.prepare h, w)
    | .prepared => some (x.beginAttempt c h w)
    | .acquiring request a => x.acquire c h request a w
    | .sending head body lease due =>
      if due.any (· ≤ w.now) then some (x.transmit c h head body lease w) else none
    | .awaiting lease wait =>
      match wait.status w.now with
      | .pending => none
      | .ready => some (x.readHead c h lease w)
      | .expired =>
        some (x.failWith c h lease (.socketTimeout w.pool.config.socketMillis duringHead) w)
    | .streaming s => x.stream c h s w
    | .waiting due =>
      if due ≤ w.now then some ({ x with retries := x.retries + 1, phase := .ready }, w)
      else none

end Execution

end Courier
