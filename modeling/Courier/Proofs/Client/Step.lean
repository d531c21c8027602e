import Courier.Client.Execution

/-! # What a step of an execution can be

Every step is an abort or one of the rules below, which name the condition that leads to them and
say all that the step does. Later arguments go by these rules and never open the step itself.
-/

namespace Courier

variable {ω κ ξ η α : Type}

def World.afterHooks (w : World ω κ ξ) (s : HookState ξ) : World ω κ ξ :=
  { w with cells := s.cells, memory := s.memory }

def World.withPool (w : World ω κ ξ) (pool : Pool κ) (outside : ω) : World ω κ ξ :=
  { w with pool, outside }

namespace Execution

variable {c : Client ω κ ξ} {h : Handler η α} {x : Execution κ η α} {w : World ω κ ξ}

section MoveTo

variable (x : Execution κ η α) (next : ExecutionState)

@[simp] theorem request_moveTo : (x.moveTo next).request = x.request := by
  unfold moveTo
  split <;> rfl

@[simp] theorem handler_moveTo : (x.moveTo next).handler = x.handler := by
  unfold moveTo
  split <;> rfl

@[simp] theorem attributes_moveTo : (x.moveTo next).attributes = x.attributes := by
  unfold moveTo
  split <;> rfl

@[simp] theorem signal_moveTo : (x.moveTo next).signal = x.signal := by
  unfold moveTo
  split <;> rfl

end MoveTo

section Outcome

variable {outcome : Except Error α}

theorem phase_of_outcome? (ho : x.outcome? = some outcome) : x.phase = .finished outcome := by
  unfold outcome? at ho
  split at ho
  · rename_i hp
    cases ho
    exact hp
  · cases ho

theorem outcome?_of_phase (hp : x.phase = .finished outcome) : x.outcome? = some outcome := by
  simp [outcome?, hp]

theorem isFinished_of_phase (hp : x.phase = .finished outcome) : x.isFinished = true := by
  simp [isFinished, hp, Phase.isFinished]

end Outcome

def opened (x : Execution κ η α) : Execution κ η α :=
  x.moveTo .acquiringConnection

def transmitting (x : Execution κ η α) (net : Network ω κ) (request : Request) (lease : Lease κ)
    (w : World ω κ ξ) : Execution κ η α :=
  let body := (request.body.openStream w.cells).1
  let due := (net.sendDelay lease.connection w.outside).map (w.now + ·)
  { ((x.note (.leased lease.id)).moveTo .transmitting).note (.sent request.head body) with
    phase := .sending request.head body lease due }

def awaitingHead (x : Execution κ η α) (net : Network ω κ) (lease : Lease κ)
    (w : World ω κ ξ) : Execution κ η α :=
  let delay := net.headDelay lease.connection w.outside
  { x.moveTo .awaitingResponse with
    phase := .awaiting lease (.start w.now delay w.pool.config.socketMillis) }

def responseOf (head : ResponseHead) : Response :=
  ⟨head, .wire (Outlet.start.withLength head.headers.declaredLength?)⟩

def handed (x : Execution κ η α) (net : Network ω κ) (h : Handler η α) (lease : Lease κ)
    (r : Response) (w : World ω κ ξ) : Execution κ η α :=
  { ((x.tellHeaders h r.head).moveTo .streamingBody).tellStream h r.body.declared with
    phase := .streaming
      (Streaming.start net w.now w.pool.config.socketMillis lease r.body w.outside) }

def pumped (x : Execution κ η α) (read : Option (Except Error (Option Bytes)))
    (s : Streaming κ) : Execution κ η α :=
  { (read.map fun result => x.note (.read result)).getD x with phase := .streaming s }

/-- A step of an execution that has not been aborted. -/
inductive Advance (c : Client ω κ ξ) (h : Handler η α) (x : Execution κ η α) (w : World ω κ ξ) :
    Execution κ η α × World ω κ ξ → Prop

  | prepare (hp : x.phase = .ready) : Advance c h x w (x.prepare h, w)

  | refused {e : Error} {s : HookState ξ} (hp : x.phase = .prepared)
      (hk : c.chain.onRequest x.request (x.opened.hookState w) = (.error e, s)) :
      Advance c h x w ((x.opened.afterHooks s).fail c h e (w.afterHooks s))

  | unqueued {request : Request} {s : HookState ξ} {e : Error} (hp : x.phase = .prepared)
      (hk : c.chain.onRequest x.request (x.opened.hookState w) = (.ok request, s))
      (ha : Acquisition.start w.now request.endpoint w.pool = .error e) :
      Advance c h x w ((x.opened.afterHooks s).fail c h e (w.afterHooks s))

  | queued {request : Request} {s : HookState ξ} {a : Acquisition} {pool : Pool κ}
      (hp : x.phase = .prepared)
      (hk : c.chain.onRequest x.request (x.opened.hookState w) = (.ok request, s))
      (ha : Acquisition.start w.now request.endpoint w.pool = .ok (a, pool)) :
      Advance c h x w ({ x.opened.afterHooks s with phase := .acquiring request a },
        (w.afterHooks s).withPool pool w.outside)

  | acquiring {request : Request} {a a' : Acquisition} {pool : Pool κ} {outside : ω}
      (hp : x.phase = .acquiring request a)
      (hr : a.isReady w.now request.endpoint w.pool = true)
      (ha : a.poll c.network w.now request.endpoint w.pool w.outside =
        (.pending a', pool, outside)) :
      Advance c h x w ({ x with phase := .acquiring request a' }, w.withPool pool outside)

  | unacquired {request : Request} {a : Acquisition} {e : Error} {pool : Pool κ} {outside : ω}
      (hp : x.phase = .acquiring request a)
      (hr : a.isReady w.now request.endpoint w.pool = true)
      (ha : a.poll c.network w.now request.endpoint w.pool w.outside =
        (.failed e, pool, outside)) :
      Advance c h x w (x.fail c h e (w.withPool pool outside))

  | leased {request : Request} {a : Acquisition} {lease : Lease κ} {pool : Pool κ} {outside : ω}
      (hp : x.phase = .acquiring request a)
      (hr : a.isReady w.now request.endpoint w.pool = true)
      (ha : a.poll c.network w.now request.endpoint w.pool w.outside =
        (.leased lease, pool, outside)) :
      Advance c h x w (x.transmitting c.network request lease (w.withPool pool outside),
        { w.withPool pool outside with cells := (request.body.openStream w.cells).2 })

  | unsent {head : RequestHead} {body : Option ByteStream} {lease : Lease κ} {due : Option Nat}
      {e : Error} {connection : κ} {outside : ω} {cells : Cells}
      (hp : x.phase = .sending head body lease due) (hd : due.any (· ≤ w.now) = true)
      (hs : c.network.send head body lease.connection w.outside w.cells =
        ⟨.error e, connection, outside, cells⟩) :
      Advance c h x w
        (x.failWith c h { lease with connection } e { w with outside, cells })

  | sent {head : RequestHead} {body : Option ByteStream} {lease : Lease κ} {due : Option Nat}
      {connection : κ} {outside : ω} {cells : Cells}
      (hp : x.phase = .sending head body lease due) (hd : due.any (· ≤ w.now) = true)
      (hs : c.network.send head body lease.connection w.outside w.cells =
        ⟨.ok (), connection, outside, cells⟩) :
      Advance c h x w
        (x.awaitingHead c.network { lease with connection } { w with outside, cells },
          { w with outside, cells })

  | expired {lease : Lease κ} {wait : Wait} (hp : x.phase = .awaiting lease wait)
      (hd : wait.status w.now = .expired) :
      Advance c h x w
        (x.failWith c h lease (.socketTimeout w.pool.config.socketMillis duringHead) w)

  | headless {lease : Lease κ} {wait : Wait} {e : Error} {connection : κ} {outside : ω}
      (hp : x.phase = .awaiting lease wait) (hd : wait.status w.now = .ready)
      (hr : c.network.readHead lease.connection w.outside = (.error e, connection, outside)) :
      Advance c h x w (x.failWith c h { lease with connection } e { w with outside })

  | withheld {lease : Lease κ} {wait : Wait} {head : ResponseHead} {e : Error} {connection : κ}
      {outside : ω} (hp : x.phase = .awaiting lease wait) (hd : wait.status w.now = .ready)
      (hr : c.network.readHead lease.connection w.outside = (.ok head, connection, outside))
      (hw : (x.note (.answered head)).withheld? c.policy head w.now = some e) :
      Advance c h x w
        ((x.note (.answered head)).failWith c h { lease with connection } e { w with outside })

  | rejected {lease : Lease κ} {wait : Wait} {head : ResponseHead} {e : Error} {connection : κ}
      {outside : ω} {s : HookState ξ} (hp : x.phase = .awaiting lease wait)
      (hd : wait.status w.now = .ready)
      (hr : c.network.readHead lease.connection w.outside = (.ok head, connection, outside))
      (hw : (x.note (.answered head)).withheld? c.policy head w.now = none)
      (hk : c.chain.onResponse (responseOf head) (x.hookState w) = (.error e, s)) :
      Advance c h x w
        (((x.note (.answered head)).afterHooks s).failWith c h { lease with connection } e
          ({ w with outside }.afterHooks s))

  | responded {lease : Lease κ} {wait : Wait} {head : ResponseHead} {r : Response}
      {connection : κ} {outside : ω} {s : HookState ξ} (hp : x.phase = .awaiting lease wait)
      (hd : wait.status w.now = .ready)
      (hr : c.network.readHead lease.connection w.outside = (.ok head, connection, outside))
      (hw : (x.note (.answered head)).withheld? c.policy head w.now = none)
      (hk : c.chain.onResponse (responseOf head) (x.hookState w) = (.ok r, s)) :
      Advance c h x w
        (((x.note (.answered head)).afterHooks s).handed c.network h { lease with connection } r
          ({ w with outside }.afterHooks s), { w with outside }.afterHooks s)

  | settled {s : Streaming κ} {result : Except Error BodyEnd} (hp : x.phase = .streaming s)
      (ho : s.outcome? = some result) : Advance c h x w (x.settle c h s.lease result w)

  | pumped {s s' : Streaming κ} {read : Option (Except Error (Option Bytes))} {outside : ω}
      (hp : x.phase = .streaming s) (ho : s.outcome? = none)
      (ht : s.next? h x.handler w.now = some .pump)
      (hs : { s with turn := .pump }.stepPump c.network w.now w.pool.config.socketMillis
        w.outside = (read, s', outside)) :
      Advance c h x w (x.pumped read s', { w with outside })

  | handled {s s' : Streaming κ} {state : η} {cells : Cells} (hp : x.phase = .streaming s)
      (ho : s.outcome? = none) (ht : s.next? h x.handler w.now = some .handler)
      (hs : { s with turn := .handler }.stepHandler h x.handler w.cells = (s', state, cells)) :
      Advance c h x w ({ x with phase := .streaming s', handler := state }, { w with cells })

  | resume {due : Nat} (hp : x.phase = .waiting due) (hd : due ≤ w.now) :
      Advance c h x w ({ x with retries := x.retries + 1, phase := .ready }, w)

section

variable {r : Execution κ η α × World ω κ ξ}

theorem advance_beginAttempt (hp : x.phase = .prepared) :
    Advance c h x w (x.beginAttempt c h w) := by
  rcases hk : c.chain.onRequest x.request (x.opened.hookState w) with ⟨e | request, s⟩
  · have he : x.beginAttempt c h w = (x.opened.afterHooks s).fail c h e (w.afterHooks s) := by
      simp only [beginAttempt, request_moveTo]
      unfold opened at hk ⊢
      rw [hk]
      rfl
    rw [he]
    exact .refused hp hk
  · cases ha : Acquisition.start w.now request.endpoint w.pool with
    | error e =>
      have he : x.beginAttempt c h w = (x.opened.afterHooks s).fail c h e (w.afterHooks s) := by
        simp only [beginAttempt, request_moveTo]
        unfold opened at hk ⊢
        simp only [hk, ha]
        rfl
      rw [he]
      exact .unqueued hp hk ha
    | ok q =>
      have he : x.beginAttempt c h w =
          ({ x.opened.afterHooks s with phase := .acquiring request q.1 },
            (w.afterHooks s).withPool q.2 w.outside) := by
        simp only [beginAttempt, request_moveTo]
        unfold opened at hk ⊢
        simp only [hk, ha]
        rfl
      rw [he]
      exact .queued hp hk ha

theorem advance_acquire {request : Request} {a : Acquisition} (hp : x.phase = .acquiring request a)
    (hs : x.acquire c h request a w = some r) : Advance c h x w r := by
  unfold acquire at hs
  split at hs
  · rename_i hr
    rcases ha : a.poll c.network w.now request.endpoint w.pool w.outside with
      ⟨a' | lease | e, pool, outside⟩
    all_goals
      simp only [ha, Option.some.injEq] at hs
      subst hs
    · exact .acquiring hp hr ha
    · exact .leased hp hr ha
    · exact .unacquired hp hr ha
  · cases hs

theorem advance_transmit {head : RequestHead} {body : Option ByteStream} {lease : Lease κ}
    {due : Option Nat} (hp : x.phase = .sending head body lease due)
    (hd : due.any (· ≤ w.now) = true) :
    Advance c h x w (x.transmit c h head body lease w) := by
  unfold transmit
  rcases hs : c.network.send head body lease.connection w.outside w.cells with
    ⟨e | ⟨⟩, connection, outside, cells⟩
  · exact .unsent hp hd hs
  · exact .sent hp hd hs

theorem advance_readHead {lease : Lease κ} {wait : Wait} (hp : x.phase = .awaiting lease wait)
    (hd : wait.status w.now = .ready) : Advance c h x w (x.readHead c h lease w) := by
  unfold readHead
  rcases hr : c.network.readHead lease.connection w.outside with ⟨e | head, connection, outside⟩
  · exact .headless hp hd hr
  · cases hw : (x.note (.answered head)).withheld? c.policy head w.now with
    | some e =>
      simp only [hw]
      exact .withheld hp hd hr hw
    | none =>
      simp only [hw, respond]
      rcases hk : c.chain.onResponse (responseOf head) (x.hookState w) with ⟨e | response, s⟩
      · have hk' := hk
        unfold responseOf hookState at hk'
        simp only [hookState, note, hk']
        exact .rejected hp hd hr hw hk
      · have hk' := hk
        unfold responseOf hookState at hk'
        simp only [hookState, note, hk']
        exact .responded hp hd hr hw hk

theorem advance_stream {s : Streaming κ} (hp : x.phase = .streaming s)
    (hs : x.stream c h s w = some r) : Advance c h x w r := by
  unfold stream at hs
  cases ho : s.outcome? with
  | some result =>
    simp only [ho, Option.some.injEq] at hs
    subst hs
    exact .settled hp ho
  | none =>
    simp only [ho] at hs
    cases ht : s.next? h x.handler w.now with
    | none => simp [ht] at hs
    | some p =>
      cases p with
      | pump =>
        simp only [ht, Option.some.injEq] at hs
        subst hs
        exact .pumped hp ho ht rfl
      | handler =>
        simp only [ht, Option.some.injEq] at hs
        subst hs
        exact .handled hp ho ht rfl

theorem step_cases (hs : x.step c h w = some r) :
    x.isFinished = false ∧
      (x.signal.aborted = true ∧ r = x.interrupt c h w ∨
        x.signal.aborted = false ∧ Advance c h x w r) := by
  unfold step at hs
  cases hf : x.isFinished with
  | true => simp [hf] at hs
  | false =>
    refine ⟨rfl, ?_⟩
    cases ha : x.signal.aborted with
    | true =>
      simp only [hf, ha, Bool.false_eq_true, if_false, if_true, Option.some.injEq] at hs
      exact .inl ⟨rfl, hs.symm⟩
    | false =>
      refine .inr ⟨rfl, ?_⟩
      simp only [hf, ha, Bool.false_eq_true, if_false] at hs
      split at hs
      · cases hs
      · cases hs
        exact .prepare ‹_›
      · cases hs
        exact advance_beginAttempt ‹_›
      · exact advance_acquire ‹_› hs
      · split at hs
        · cases hs
          exact advance_transmit ‹_› ‹_›
        · cases hs
      · split at hs
        · cases hs
        · cases hs
          exact advance_readHead ‹_› ‹_›
        · cases hs
          exact .expired ‹_› ‹_›
      · exact advance_stream ‹_› hs
      · split at hs
        · cases hs
          exact .resume ‹_› ‹_›
        · cases hs

end

end Execution

end Courier
