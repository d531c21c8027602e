import Courier.Config.Json
import Courier.Proofs.Json.Records

/-! # Configurations read back

A configuration whose figures fit their words is written as JSON and read from it again: each field
is written under its name, and one that is left out is read as what it was left out for. Conditions
are trees, and read back as deep as a text may be nested.
-/

namespace Courier

open Json

theorem ErrorKind.named?_name (k : ErrorKind) :
    named? ErrorKind.all ErrorKind.name k.name = some k := by
  cases k <;> decide

theorem BackoffKind.named?_name (k : BackoffKind) :
    named? BackoffKind.all BackoffKind.name k.name = some k := by
  cases k <;> decide

/-! ## Conditions -/

namespace RetryCondition

mutual

/-- Retries fit 32 bits and status codes fit 16, throughout the tree. -/
def Fits : RetryCondition → Prop
  | maxAttempts n => n < wordSize 32
  | statusCodes codes => ∀ code ∈ codes, code < wordSize 16
  | and conditions => AllFit conditions
  | or conditions => AllFit conditions
  | not condition => Fits condition
  | _ => True

def AllFit : List RetryCondition → Prop
  | [] => True
  | c :: cs => Fits c ∧ AllFit cs

end

theorem errorKind?_ofText (k : ErrorKind) : errorKind? (.ofText k.name) = some k :=
  k.named?_name

variable {tag name : String} {value : Json} {fuel : Nat} {nested : Bool} {c : RetryCondition}

theorem decode?_tagged {fields : List (String × Json)} (htag : tags.contains tag = true)
    (hfields : ∀ m ∈ fields, m.1 ≠ "type") :
    decode? (fuel + 1) nested (toJson.tagged tag fields) =
      ofTag? tag true
        (fun name =>
          match valuesOf ((("type", ofText tag) :: fields).map fun (name, value) =>
              (some name, value)) name with
          | [value] => some value
          | _ => none)
        (decode? fuel true) := by
  have htype : valuesOf ((("type", ofText tag) :: fields).map fun (name, value) =>
      (some name, value)) "type" = [ofText tag] := by
    rw [List.map_cons, valuesOf_cons_self, valuesOf_eq_nil hfields]
  have hread : tag? nested (ofText tag) = some tag := by
    rw [ofText, tag?, Option.filter_some, if_pos htag]
  rw [toJson.tagged, record, decode?, htype]
  dsimp only
  rw [hread]
  rfl

theorem decode?_bare (htag : tags.contains tag = true)
    (h : ∀ field?, ofTag? tag true field? (decode? fuel true) = some c) :
    decode? (fuel + 1) nested (toJson.tagged tag []) = some c := by
  rw [decode?_tagged htag fun _ hm => absurd hm List.not_mem_nil]
  exact h _

theorem decode?_field (htag : tags.contains tag = true) (hname : "type" ≠ name)
    (h : ∀ field?, field? name = some value →
      ofTag? tag true field? (decode? fuel true) = some c) :
    decode? (fuel + 1) nested (toJson.tagged tag [(name, value)]) = some c := by
  rw [decode?_tagged htag fun m hm => List.mem_singleton.mp hm ▸ hname.symm]
  refine h _ ?_
  rw [List.map_cons, List.map_cons, valuesOf_cons_of_ne hname, valuesOf_cons_self]
  rfl

theorem depth_tagged : (toJson.tagged tag [(name, value)]).depth = value.depth + 1 := by
  simp [toJson.tagged, record, depth, depthMembers, ofText]

mutual

/-- A condition is read from what it was written as, at the top and inside another. -/
theorem decode?_toJson : ∀ (c : RetryCondition) (_ : c.Fits) {fuel : Nat} (nested : Bool)
    (_ : c.toJson.depth < fuel), decode? fuel nested c.toJson = some c
  | _, _, 0, _, h => absurd h (Nat.not_lt_zero _)
  | never, _, fuel + 1, nested, _ => decode?_bare (by decide) fun _ => rfl
  | always, _, fuel + 1, nested, _ => decode?_bare (by decide) fun _ => rfl
  | maxAttempts n, hfits, fuel + 1, nested, _ => by
    refine decode?_field (by decide) (by decide) fun field? hfield => ?_
    simp only [ofTag?, hfield, Option.bind_some, natural?_ofNat hfits, Option.map_some]
  | errorKinds kinds, _, fuel + 1, nested, _ => by
    have hkinds : list? errorKind? (.array (kinds.map fun k => .ofText k.name)) = some kinds :=
      list?_array fun k _ => errorKind?_ofText k
    refine decode?_field (by decide) (by decide) fun field? hfield => ?_
    simp only [ofTag?, hfield, Option.bind_some, hkinds, Option.map_some]
  | statusCodes codes, hfits, fuel + 1, nested, _ => by
    have hcodes : list? (natural? 65536) (.array (codes.map .ofNat)) = some codes :=
      list?_array fun code hc => natural?_ofNat (hfits code hc)
    refine decode?_field (by decide) (by decide) fun field? hfield => ?_
    simp only [ofTag?, hfield, Option.bind_some, hcodes, Option.map_some]
  | and conditions, hfits, fuel + 1, nested, hdepth => by
    rw [toJson, depth_tagged, depth] at hdepth
    have hroom : depthItems (listToJson conditions) < fuel := by omega
    have hconditions := mapM_listToJson conditions hfits hroom
    refine decode?_field (by decide) (by decide) fun field? hfield => ?_
    simp only [ofTag?, hfield, Option.bind_some, list?, hconditions, Option.map_some]
  | or conditions, hfits, fuel + 1, nested, hdepth => by
    rw [toJson, depth_tagged, depth] at hdepth
    have hroom : depthItems (listToJson conditions) < fuel := by omega
    have hconditions := mapM_listToJson conditions hfits hroom
    refine decode?_field (by decide) (by decide) fun field? hfield => ?_
    simp only [ofTag?, hfield, Option.bind_some, list?, hconditions, Option.map_some]
  | not condition, hfits, fuel + 1, nested, hdepth => by
    rw [toJson, depth_tagged] at hdepth
    have hcondition := decode?_toJson condition hfits true (Nat.lt_of_succ_lt_succ hdepth)
    refine decode?_field (by decide) (by decide) fun field? hfield => ?_
    simp only [ofTag?, hfield, Option.bind_some, hcondition, Option.map_some]

theorem mapM_listToJson : ∀ (cs : List RetryCondition) (_ : AllFit cs) {fuel : Nat}
    (_ : depthItems (listToJson cs) < fuel), (listToJson cs).mapM (decode? fuel true) = some cs
  | [], _, _, _ => rfl
  | c :: cs, hfits, fuel, hdepth => by
    rw [listToJson, depthItems] at hdepth
    rw [listToJson, List.mapM_cons, decode?_toJson c hfits.1 true (by omega),
      mapM_listToJson cs hfits.2 (by omega)]
    rfl

end

theorem isExact_tagged (h : value.isExact = true) :
    (toJson.tagged tag [(name, value)]).isExact = true := by
  refine isExact_record ?_
  simp [h]
  rfl

mutual

theorem isExact_toJson : ∀ (c : RetryCondition) (_ : c.Fits), c.toJson.isExact = true
  | never, _ => rfl
  | always, _ => rfl
  | maxAttempts n, hfits => by
    have hn : n < wordSize 64 := Nat.lt_trans hfits (by decide)
    exact isExact_tagged (isExact_ofNat hn)
  | errorKinds kinds, _ => isExact_tagged (itemsExact_map fun _ _ => rfl)
  | statusCodes codes, hfits => by
    have hcodes : ∀ code ∈ codes, code < wordSize 64 := fun code hc =>
      Nat.lt_trans (hfits code hc) (by decide)
    exact isExact_tagged (itemsExact_map fun code hc => isExact_ofNat (hcodes code hc))
  | and conditions, hfits => isExact_tagged (itemsExact_listToJson conditions hfits)
  | or conditions, hfits => isExact_tagged (itemsExact_listToJson conditions hfits)
  | not condition, hfits => isExact_tagged (isExact_toJson condition hfits)

theorem itemsExact_listToJson : ∀ (cs : List RetryCondition) (_ : AllFit cs),
    itemsExact (listToJson cs) = true
  | [], _ => rfl
  | c :: cs, hfits => by
    rw [listToJson, itemsExact, isExact_toJson c hfits.1, itemsExact_listToJson cs hfits.2]
    rfl

end

theorem ofJson?_toJson (hfits : c.Fits) {room : Nat}
    (hdepth : c.toJson.depth ≤ room) : ofJson? room c.toJson = some c := by
  have hreadable := isReadable_of_isExact _ (isExact_toJson c hfits)
  rw [ofJson?, if_pos (by simp [hdepth, hreadable]),
    decode?_toJson c hfits false (Nat.lt_succ_self _)]

end RetryCondition

/-! ## Sections -/

structure PoolConfig.Fits (c : PoolConfig) : Prop where
  maxConnections : c.maxConnections < wordSize 64
  acquisitionTimeout : IsLong c.acquisitionTimeout
  connectTimeout : IsLong c.connectTimeout
  socketTimeout : IsLong c.socketTimeout
  eventLoopThreads : c.eventLoopThreads < wordSize 64

/-- The figures of the retries fit their words, those of a condition included. -/
structure RetryConfig.Fits (c : RetryConfig) : Prop where
  maxRetries : IsLong c.maxRetries
  baseDelay : IsLong c.baseDelay
  maxDelay : IsLong c.maxDelay
  onStatus : ∀ status ∈ c.onStatus, status < wordSize 16
  condition : ∀ d, c.condition = some d → d.Fits

structure ClientConfig.Fits (c : ClientConfig) : Prop where
  pool : c.pool.Fits
  retry : c.retry.Fits

namespace PoolConfig

variable {c : PoolConfig}

theorem ofJson?_toJson (h : c.Fits) : ofJson? c.toJson = some c := by
  rw [ofJson?, toJson, fields?_record (by decide) (by exact Nat.le_refl 5)]
  simp only [List.map_cons, List.map_nil, List.length_cons, List.length_nil, fieldNames,
    Nat.sub_self, List.replicate_zero, List.append_nil, orElse, natural?_ofNat h.maxConnections,
    integer?_ofInt h.acquisitionTimeout, integer?_ofInt h.connectTimeout,
    integer?_ofInt h.socketTimeout, natural?_ofNat h.eventLoopThreads]
  rfl

theorem isExact_toJson (h : c.Fits) : c.toJson.isExact = true := by
  refine isExact_record ?_
  simp [fieldNames, isExact_ofNat h.maxConnections, isExact_ofInt h.acquisitionTimeout,
    isExact_ofInt h.connectTimeout, isExact_ofInt h.socketTimeout, isExact_ofNat h.eventLoopThreads]

end PoolConfig

namespace RetryConfig

variable {c : RetryConfig}

theorem condition?_toJson {d : RetryCondition} (h : d.Fits)
    (hdepth : d.toJson.depth ≤ maxDepth - 2) : condition? d.toJson = some (some d) := by
  have hnull : d.toJson.isNull = false := by cases d <;> rfl
  rw [condition?, hnull, if_neg Bool.false_ne_true, RetryCondition.ofJson?_toJson h hdepth]
  rfl

theorem ofJson?_toJson (h : c.Fits)
    (hdepth : ∀ d, c.condition = some d → d.toJson.depth ≤ maxDepth - 2) :
    ofJson? c.toJson = some c := by
  have hbackoff : choice? BackoffKind.all BackoffKind.name (.ofText c.backoff.name) =
      some c.backoff :=
    c.backoff.named?_name
  have hstatus : list? (natural? 65536) (.array (c.onStatus.map .ofNat)) = some c.onStatus :=
    list?_array fun status hs => natural?_ofNat (h.onStatus status hs)
  have herrors : list? (choice? ErrorKind.all ErrorKind.name)
      (.array (c.onErrors.map fun k => .ofText k.name)) = some c.onErrors :=
    list?_array fun k _ => k.named?_name
  obtain ⟨maxRetries, baseDelay, maxDelay, backoff, onStatus, onErrors, condition⟩ := c
  cases condition with
  | none =>
    rw [ofJson?, toJson, fields?_record (by decide) (by exact Nat.le_succ 6)]
    simp only [fieldNames, Option.map_none, Option.toList_none, List.append_nil, List.map_cons,
      List.map_nil, List.length_cons, List.length_nil, Nat.reduceAdd, Nat.reduceSub,
      List.replicate_succ, List.replicate_zero, List.cons_append, List.nil_append, orElse,
      integer?_ofInt h.maxRetries, integer?_ofInt h.baseDelay, integer?_ofInt h.maxDelay, hbackoff,
      hstatus, herrors]
    rfl
  | some d =>
    have hcondition := condition?_toJson (h.condition d rfl) (hdepth d rfl)
    rw [ofJson?, toJson, fields?_record (by decide) (by exact Nat.le_refl 7)]
    simp only [fieldNames, Option.map_some, Option.toList_some, List.cons_append, List.nil_append,
      List.map_cons, List.map_nil, List.length_cons, List.length_nil, Nat.sub_self,
      List.replicate_zero, List.append_nil, orElse, integer?_ofInt h.maxRetries,
      integer?_ofInt h.baseDelay, integer?_ofInt h.maxDelay, hbackoff, hstatus, herrors,
      hcondition]
    rfl

theorem isExact_toJson (h : c.Fits) : c.toJson.isExact = true := by
  have hstatus : (Json.array (c.onStatus.map .ofNat)).isExact = true :=
    itemsExact_map fun status hs =>
      isExact_ofNat (Nat.lt_trans (h.onStatus status hs) (by decide))
  have herrors : (Json.array (c.onErrors.map fun k => .ofText k.name)).isExact = true :=
    itemsExact_map fun _ _ => rfl
  have hbackoff : (Json.ofText c.backoff.name).isExact = true := rfl
  have hcondition : ∀ j ∈ (c.condition.map RetryCondition.toJson).toList, j.isExact = true := by
    intro j hj
    obtain ⟨d, hd, rfl⟩ := Option.map_eq_some_iff.mp (Option.mem_toList.mp hj)
    exact RetryCondition.isExact_toJson d (h.condition d hd)
  refine isExact_record fun m hm => ?_
  have hvalue := (List.of_mem_zip hm).2
  simp only [List.mem_append, List.mem_cons, List.not_mem_nil, or_false] at hvalue
  obtain (hv | hv | hv | hv | hv | hv) | hv := hvalue
  · rw [hv]
    exact isExact_ofInt h.maxRetries
  · rw [hv]
    exact isExact_ofInt h.baseDelay
  · rw [hv]
    exact isExact_ofInt h.maxDelay
  · rw [hv]
    exact hbackoff
  · rw [hv]
    exact hstatus
  · rw [hv]
    exact herrors
  · exact hcondition _ hv

end RetryConfig

theorem Integrity.Settings.ofJson?_toJson (s : Integrity.Settings) :
    ofJson? s.toJson = some s := by
  rw [ofJson?, toJson, fields?_record (by decide) (by exact Nat.le_refl 2)]
  rfl

/-! ## Configurations -/

namespace ClientConfig

variable {c : ClientConfig}

/-- Two levels of nesting lie around the condition. -/
theorem depth_condition {d : RetryCondition} (h : c.retry.condition = some d) :
    d.toJson.depth + 2 ≤ c.toJson.depth := by
  have hretry : ("condition", d.toJson) ∈ RetryConfig.fieldNames.zip
      ([.ofInt c.retry.maxRetries, .ofInt c.retry.baseDelay, .ofInt c.retry.maxDelay,
        .ofText c.retry.backoff.name, .array (c.retry.onStatus.map .ofNat),
        .array (c.retry.onErrors.map fun k => .ofText k.name)] ++
        (c.retry.condition.map RetryCondition.toJson).toList) := by
    rw [h]
    simp [RetryConfig.fieldNames]
  have hclient : ("retry", c.retry.toJson) ∈
      fieldNames.zip [c.pool.toJson, c.retry.toJson, c.integrity.toJson] := by
    simp [fieldNames]
  exact Nat.le_trans (Nat.succ_le_succ (depth_lt_record hretry)) (depth_lt_record hclient)

theorem ofJson?_toJson (h : c.Fits) (hdepth : c.toJson.depth ≤ maxDepth) :
    ofJson? c.toJson = some c := by
  have hcondition : ∀ d, c.retry.condition = some d → d.toJson.depth ≤ maxDepth - 2 :=
    fun d hd => Nat.le_sub_of_add_le (Nat.le_trans (depth_condition hd) hdepth)
  rw [ofJson?, toJson, fields?_record (by decide) (by exact Nat.le_refl 3)]
  simp only [fieldNames, List.map_cons, List.map_nil, List.length_cons, List.length_nil,
    Nat.sub_self, List.replicate_zero, List.append_nil, orElse, PoolConfig.ofJson?_toJson h.pool,
    RetryConfig.ofJson?_toJson h.retry hcondition, Integrity.Settings.ofJson?_toJson]
  rfl

theorem isExact_toJson (h : c.Fits) : c.toJson.isExact = true := by
  have hintegrity : c.integrity.toJson.isExact = true := rfl
  refine isExact_record ?_
  simp [fieldNames, PoolConfig.isExact_toJson h.pool, RetryConfig.isExact_toJson h.retry,
    hintegrity]

/-- A configuration that can be used, whose figures fit their words, is read from its own text if
that nests no deeper than a text may. -/
theorem parse_render (hfits : c.Fits) (hvalid : c.validate = .ok ())
    (hdepth : c.toJson.depth ≤ maxDepth) : parse c.toJson.render = .ok c := by
  rw [parse, parse?_render (isExact_toJson hfits), Option.bind_some, ofJson?_toJson hfits hdepth]
  dsimp only
  rw [hvalid]

/-- The largest figures, and a condition nested as deep as it may be. -/
theorem parse_render_extremes :
    let nested : Nat → RetryCondition := fun n =>
      .and [.statusCodes [0, 65535], .errorKinds ErrorKind.all, .maxAttempts 4294967295,
        Nat.repeat .not n (.or [])]
    let c : ClientConfig :=
      { pool := ⟨wordSize 64 - 1, 9223372036854775807, 0, 9223372036854775807, 0⟩
        retry := ⟨4294967295, 0, 9223372036854775807, .fixed, [], [], some (nested 121)⟩
        integrity := ⟨true, false⟩ }
    c.toJson.depth = maxDepth ∧ parse c.toJson.render = .ok c := by
  intro nested c
  have hdepth : c.toJson.depth = maxDepth := by decide +kernel
  have hnested : ∀ n, (Nat.repeat RetryCondition.not n (.or [])).Fits := by
    intro n
    induction n with
    | zero => trivial
    | succ n ih => exact ih
  have hcondition : (nested 121).Fits := by
    have hcodes : ∀ code ∈ [0, 65535], code < wordSize 16 := by decide
    have hretries : 4294967295 < wordSize 32 := by decide
    exact ⟨hcodes, trivial, hretries, hnested 121, trivial⟩
  have hfits : c.Fits :=
    ⟨⟨by decide, by decide, by decide, by decide, by decide⟩,
      ⟨by decide, by decide, by decide, by simp [c],
        fun d hd => Option.some.inj hd ▸ hcondition⟩⟩
  exact ⟨hdepth, parse_render hfits (by decide +kernel) (Nat.le_of_eq hdepth)⟩

end ClientConfig

end Courier
