import Courier.Client.Build
import Courier.Config.Json
import Courier.Proofs.Client.Timeouts
import Courier.Proofs.Pool.Capacity

/-! # From a configuration to a client

What is read from a text can be used but for the threads of the event loop, which are looked at only
when the client starts. With at least one thread a client comes of every configuration that has been
read. Its timeouts are those configured, and its pool stays within the limit, if that is one for
which permits can be made: whether it is nobody looks at before an endpoint is used.
-/

namespace Courier

variable {ω κ ξ : Type}

/-! ## What has been validated -/

/-- There is room for a connection, and no timeout is below zero. -/
structure PoolConfig.Usable (c : PoolConfig) : Prop where
  room : 0 < c.maxConnections
  acquisition : (c.acquisitionMillis : Int) = c.acquisitionTimeout
  connect : (c.connectMillis : Int) = c.connectTimeout
  socket : (c.socketMillis : Int) = c.socketTimeout

theorem PoolConfig.usable_of_validate {c : PoolConfig} (h : c.validate = .ok ()) : c.Usable := by
  unfold validate at h
  split at h
  · cases h
  · split at h
    · cases h
    · split at h
      · cases h
      · split at h
        · cases h
        · exact ⟨by omega, Int.toNat_of_nonneg (by omega), Int.toNat_of_nonneg (by omega),
            Int.toNat_of_nonneg (by omega)⟩

theorem Backoff.toNat_of_nonNegative {field : String} {value : Int} {n : Nat}
    (h : nonNegative field value = .ok n) : (n : Int) = value := by
  unfold nonNegative at h
  split at h
  · cases h
  · cases h
    exact Int.toNat_of_nonneg (by omega)

theorem Backoff.nonneg_of_ofMillis {kind : BackoffKind} {base limit maxRetries : Int}
    {b : Backoff} (h : ofMillis kind base limit maxRetries = .ok b) : 0 ≤ maxRetries := by
  unfold ofMillis at h
  cases hbase : nonNegative "base_delay_ms" base with
  | error e => simp [hbase, bind, Except.bind] at h
  | ok n =>
    cases hlimit : nonNegative "max_delay_ms" limit with
    | error e => simp [hbase, hlimit, bind, Except.bind] at h
    | ok m =>
      cases hretries : nonNegative "max_retries" maxRetries with
      | error e => simp [hbase, hlimit, hretries, bind, Except.bind] at h
      | ok k => exact toNat_of_nonNegative hretries ▸ Int.natCast_nonneg k

theorem RetryConfig.maxRetries_of_build {c : RetryConfig} {p : RetryPolicy} (h : c.build = .ok p) :
    (p.maxRetries : Int) = c.maxRetries := by
  unfold build at h
  split at h
  · cases h
  · rename_i b hb
    cases h
    exact Int.toNat_of_nonneg (Backoff.nonneg_of_ofMillis hb)

namespace ClientConfig

theorem build_of_validate {c : ClientConfig} (h : c.validate = .ok ()) :
    c.pool.validate = .ok () ∧ ∃ p, c.retry.build = .ok p := by
  unfold validate at h
  split at h
  · cases h
  · refine ⟨‹_›, ?_⟩
    cases hb : c.retry.build with
    | error e => simp [hb, Except.map] at h
    | ok p => exact ⟨p, rfl⟩

theorem validate_of_parse {text : String} {c : ClientConfig} (h : parse text = .ok c) :
    c.validate = .ok () := by
  unfold parse at h
  split at h
  · cases h
  · split at h
    · cases h
      assumption
    · cases h

end ClientConfig

namespace Client

/-- However the pool and an execution move, the connections at an endpoint stay within the limit of
the configuration, and nothing is waited for longer than it says. -/
structure KeepsTo (client : Client ω κ ξ) (pool : Pool κ) (c : PoolConfig) : Prop where
  limit : ∀ {w : ω} {d : Depot ω κ}, Depot.Steps client.network (.ofPool pool w) d → ∀ e,
    (d.pool.stats e).idle + (d.leasedAt e).length + d.dialsAt e ≤ c.maxConnections
  acquisitions : ∀ {w : ω} {d : Depot ω κ}, Depot.Steps client.network (.ofPool pool w) d →
    d.pool.Times client.network c.acquisitionMillis c.connectMillis
  executions : ∀ {η α : Type} (h : Handler η α) {x₀ : Execution κ η α} {w₀ : World ω κ ξ}
    {r : Execution κ η α × World ω κ ξ}, w₀.pool = pool →
      Execution.Moves client h (fun _ => World.Shared client.network) (x₀, w₀) r →
        r.1.Times client h c.socketMillis r.2

theorem keepsTo_start {config : PoolConfig} {eventLoop : EventLoop} {pool : Pool κ}
    (hp : Pool.start config eventLoop = .ok pool) (client : Client ω κ ξ) :
    client.KeepsTo pool config := by
  have hconfig : pool.config = config := by
    unfold Pool.start at hp
    split at hp <;> cases hp
    rfl
  refine ⟨fun {w d} hs e => ?_, fun {w d} hs => ?_, fun h x₀ w₀ r hw hr => ?_⟩
  · have hwithin := (hs.sound (Depot.sound_ofPool hp w)).within e
    rw [Pool.idle_stats]
    exact hwithin.idle
  · have hkept : d.pool.config = config := hs.config.trans hconfig
    rw [← hkept]
    exact d.pool.times client.network
  · have hkept : r.2.pool.config = config := by rw [hr.config, hw, hconfig]
    rw [← hkept]
    exact r.1.times client h r.2

variable {c : ClientConfig} {p : RetryPolicy}

theorem build_no_threads (hv : c.validate = .ok ()) (ht : c.pool.eventLoopThreads = 0)
    (net : Network ω κ) (interceptors : List (Interceptor ξ)) :
    build c net none none interceptors =
      .error (.configuration "event_loop_threads" "must be at least 1") := by
  obtain ⟨-, p, hp⟩ := ClientConfig.build_of_validate hv
  simp [build, hv, hp, EventLoop.start, ht, bind, Except.bind]

theorem build_threads (hv : c.validate = .ok ()) (hp : c.retry.build = .ok p)
    (ht : 0 < c.pool.eventLoopThreads) (net : Network ω κ) (interceptors : List (Interceptor ξ)) :
    ∃ chain pool, Pool.start c.pool (.owned c.pool.eventLoopThreads) = .ok pool ∧
      build c net none none interceptors = .ok (⟨net, chain, p⟩, pool) := by
  have hpool := (ClientConfig.build_of_validate hv).1
  refine ⟨.ofList (Integrity.interceptor c.integrity :: interceptors), _,
    by rw [Pool.start, hpool], ?_⟩
  simp [build, hv, hp, EventLoop.start, Nat.ne_of_gt ht, Pool.start, hpool, bind, Except.bind, pure,
    Except.pure]

/-- Of a configuration that has been read a client comes if the event loop is to have a thread, and
it keeps to the configuration if there can be permits for the limit. If the event loop is to have no
thread, the configuration is refused only now. -/
theorem build_of_parse {text : String} (h : ClientConfig.parse text = .ok c) (net : Network ω κ)
    (interceptors : List (Interceptor ξ)) :
    (c.pool.eventLoopThreads = 0 → build c net none none interceptors =
      .error (.configuration "event_loop_threads" "must be at least 1")) ∧
    (0 < c.pool.eventLoopThreads → ∃ client pool,
      build c net none none interceptors = .ok (client, pool) ∧ client.network = net ∧
        (client.policy.maxRetries : Int) = c.retry.maxRetries ∧ c.pool.Usable ∧
        (c.pool.maxConnections ≤ Permits.capacity → client.KeepsTo pool c.pool)) := by
  have hv := ClientConfig.validate_of_parse h
  refine ⟨fun ht => build_no_threads hv ht net interceptors, fun ht => ?_⟩
  obtain ⟨hpool, p, hp⟩ := ClientConfig.build_of_validate hv
  obtain ⟨chain, pool, hs, hb⟩ := build_threads hv hp ht net interceptors
  exact ⟨_, pool, hb, rfl, RetryConfig.maxRetries_of_build hp,
    PoolConfig.usable_of_validate hpool, fun _ => keepsTo_start hs _⟩

theorem exists_of_toOption {ε α β : Type} {r : Except ε α} {f : α → β} {b : β}
    (h : r.toOption.map f = some b) : ∃ a, r = .ok a ∧ f a = b := by
  cases r with
  | error e => cases h
  | ok a => exact ⟨a, rfl, Option.some.inj h⟩

/-- A pool for one connection and a budget of no retries, read from a text. -/
theorem build_of_parse_single_connection :
    let text := "\x7b\"pool\":\x7b\"max_connections_per_endpoint\":1\x7d," ++
      "\"retry\":\x7b\"max_retries\":0\x7d\x7d"
    ∃ c, ClientConfig.parse text = .ok c ∧ 0 < c.pool.eventLoopThreads ∧
      ∃ client pool,
        build c Rehearsal.network none none ([] : List (Interceptor Unit)) = .ok (client, pool) ∧
          client.policy.maxRetries = 0 ∧
          client.KeepsTo pool { PoolConfig.standard with maxConnections := 1 } := by
  intro text
  have hread : (ClientConfig.parse text).toOption.map (fun c => (c.pool, c.retry.maxRetries)) =
      some ({ PoolConfig.standard with maxConnections := 1 }, 0) := by decide +kernel
  obtain ⟨c, hc, heq⟩ := exists_of_toOption hread
  obtain ⟨hpool, hretries⟩ := Prod.mk.inj heq
  have ht : 0 < c.pool.eventLoopThreads := by
    rw [hpool]
    decide
  obtain ⟨client, pool, hb, -, hmax, -, hk⟩ :=
    (build_of_parse hc Rehearsal.network ([] : List (Interceptor Unit))).2 ht
  rw [hretries] at hmax
  rw [hpool] at hk
  exact ⟨c, hc, ht, client, pool, hb, Int.natCast_eq_zero.mp hmax, hk (by decide)⟩

/-- A text that is read and of which no client comes. -/
theorem no_client_without_threads :
    let text := "\x7b\"pool\":\x7b\"event_loop_threads\":0\x7d\x7d"
    ∃ c, ClientConfig.parse text = .ok c ∧
      build c Rehearsal.network none none ([] : List (Interceptor Unit)) =
        .error (.configuration "event_loop_threads" "must be at least 1") := by
  intro text
  have hread : (ClientConfig.parse text).toOption.map (·.pool) =
      some { PoolConfig.standard with eventLoopThreads := 0 } := by decide +kernel
  obtain ⟨c, hc, hpool⟩ := exists_of_toOption hread
  have ht : c.pool.eventLoopThreads = 0 := by rw [hpool]
  exact ⟨c, hc, build_no_threads (ClientConfig.validate_of_parse hc) ht _ _⟩

end Client

end Courier
