import Courier.Config.Basic
import Courier.Json.Decode
import Courier.Json.Parser
import Courier.Json.Printer

/-! # Configuration as JSON

Every field may be left out for its standard value. Conditions are trees tagged with their type;
what stands in them is read whole, so its nesting and its unknown members count too.
-/

namespace Courier

open Json

namespace RetryCondition

def tags : List String :=
  ["never", "always", "max_attempts", "error_kinds", "status_codes", "and", "or", "not"]

mutual

def toJson : RetryCondition → Json
  | never => tagged "never" []
  | always => tagged "always" []
  | maxAttempts n => tagged "max_attempts" [("max_retries", .ofNat n)]
  | errorKinds kinds => tagged "error_kinds" [("kinds", .array (kinds.map fun k => .ofText k.name))]
  | statusCodes codes => tagged "status_codes" [("codes", .array (codes.map .ofNat))]
  | and conditions => tagged "and" [("conditions", .array (listToJson conditions))]
  | or conditions => tagged "or" [("conditions", .array (listToJson conditions))]
  | not condition => tagged "not" [("condition", toJson condition)]
where
  tagged (tag : String) (fields : List (String × Json)) : Json :=
    .record (("type", .ofText tag) :: fields)

def listToJson : List RetryCondition → List Json
  | [] => []
  | c :: cs => toJson c :: listToJson cs

end

/-- Inside another condition a type may also be given by its place in the list. -/
def tag? (nested : Bool) : Json → Option String
  | .string s => s.filter tags.contains
  | j => if nested then (j.natural? tags.length).bind (tags[·]?) else none

/-- The kind of an error as it stands in a condition: an empty object will do for nothing. -/
def errorKind? : Json → Option ErrorKind
  | .object [(some s, .object [])] => named? ErrorKind.all ErrorKind.name s
  | j => choice? ErrorKind.all ErrorKind.name j

/-- Builds the condition of a type from a way to look up its one field. Types without a field do
not look. -/
def ofTag? (tag : String) (bare : Bool) (field? : String → Option Json)
    (condition? : Json → Option RetryCondition) : Option RetryCondition :=
  match tag with
  | "never" => if bare then some never else none
  | "always" => if bare then some always else none
  | "max_attempts" =>
    ((field? "max_retries").bind (natural? (wordSize 32))).map maxAttempts
  | "error_kinds" => ((field? "kinds").bind (list? errorKind?)).map errorKinds
  | "status_codes" => ((field? "codes").bind (list? (natural? 65536))).map statusCodes
  | "and" => ((field? "conditions").bind (list? condition?)).map and
  | "or" => ((field? "conditions").bind (list? condition?)).map or
  | "not" => ((field? "condition").bind condition?).map not
  | _ => none

def decode? : Nat → Bool → Json → Option RetryCondition
  | 0, _, _ => none
  | fuel + 1, nested, j =>
    match j with
    | .object members =>
      match valuesOf members "type" with
      | [type] =>
        (tag? nested type).bind fun tag =>
          ofTag? tag true
            (fun name => match valuesOf members name with
              | [value] => some value
              | _ => none)
            (decode? fuel true)
      | _ => none
    | .array (type :: rest) =>
      (tag? nested type).bind fun tag =>
        ofTag? tag rest.isEmpty
          (fun _ => match rest with
            | [value] => some value
            | _ => none)
          (decode? fuel true)
    | _ => none

/-- The condition a value spells where so many more arrays and objects may be nested. -/
def ofJson? (room : Nat) (j : Json) : Option RetryCondition :=
  if j.depth ≤ room && j.isReadable then decode? (j.depth + 1) false j else none

end RetryCondition

namespace PoolConfig

def fieldNames : List String :=
  ["max_connections_per_endpoint", "connection_acquisition_timeout_ms", "connect_timeout_ms",
   "socket_timeout_ms", "event_loop_threads"]

def toJson (c : PoolConfig) : Json :=
  .record (fieldNames.zip
    [.ofNat c.maxConnections, .ofInt c.acquisitionTimeout, .ofInt c.connectTimeout,
     .ofInt c.socketTimeout, .ofNat c.eventLoopThreads])

def ofJson? (j : Json) : Option PoolConfig :=
  match j.fields? fieldNames with
  | some [maxConnections, acquisition, connect, socket, threads] => do
    return {
      maxConnections := ← orElse maxConnections (natural? (wordSize 64)) standard.maxConnections
      acquisitionTimeout := ← orElse acquisition integer? standard.acquisitionTimeout
      connectTimeout := ← orElse connect integer? standard.connectTimeout
      socketTimeout := ← orElse socket integer? standard.socketTimeout
      eventLoopThreads := ← orElse threads (natural? (wordSize 64)) standard.eventLoopThreads }
  | _ => none

end PoolConfig

namespace RetryConfig

def fieldNames : List String :=
  ["max_retries", "base_delay_ms", "max_delay_ms", "backoff", "retry_on_status",
   "retry_on_errors", "condition"]

/-- A condition that was not given is not written. -/
def toJson (c : RetryConfig) : Json :=
  .record (fieldNames.zip
    ([.ofInt c.maxRetries, .ofInt c.baseDelay, .ofInt c.maxDelay, .ofText c.backoff.name,
      .array (c.onStatus.map .ofNat), .array (c.onErrors.map fun k => .ofText k.name)] ++
      (c.condition.map RetryCondition.toJson).toList))

/-- Two levels of nesting lie around the condition. -/
def condition? (j : Json) : Option (Option RetryCondition) :=
  if j.isNull then some none else (RetryCondition.ofJson? (maxDepth - 2) j).map some

def ofJson? (j : Json) : Option RetryConfig :=
  match j.fields? fieldNames with
  | some [maxRetries, baseDelay, maxDelay, backoff, onStatus, onErrors, condition] => do
    return {
      maxRetries := ← orElse maxRetries integer? standard.maxRetries
      baseDelay := ← orElse baseDelay integer? standard.baseDelay
      maxDelay := ← orElse maxDelay integer? standard.maxDelay
      backoff := ← orElse backoff (choice? BackoffKind.all BackoffKind.name) standard.backoff
      onStatus := ← orElse onStatus (list? (natural? 65536)) standard.onStatus
      onErrors :=
        ← orElse onErrors (list? (choice? ErrorKind.all ErrorKind.name)) standard.onErrors
      condition := ← orElse condition condition? none }
  | _ => none

end RetryConfig

namespace Integrity.Settings

def fieldNames : List String :=
  ["client_side_validation", "server_side_validation"]

def toJson (s : Settings) : Json :=
  .record (fieldNames.zip [.bool s.clientSide, .bool s.serverSide])

def ofJson? (j : Json) : Option Settings :=
  match j.fields? fieldNames with
  | some [client, server] => do
    return ⟨← orElse client flag? true, ← orElse server flag? true⟩
  | _ => none

end Integrity.Settings

namespace ClientConfig

def fieldNames : List String := ["pool", "retry", "integrity"]

def toJson (c : ClientConfig) : Json :=
  .record (fieldNames.zip [c.pool.toJson, c.retry.toJson, c.integrity.toJson])

def ofJson? (j : Json) : Option ClientConfig :=
  match j.fields? fieldNames with
  | some [pool, retry, integrity] => do
    return {
      pool := ← orElse pool PoolConfig.ofJson? .standard
      retry := ← orElse retry RetryConfig.ofJson? .standard
      integrity := ← orElse integrity Integrity.Settings.ofJson? .enabled }
  | _ => none

inductive TextError
  | unreadable
  | invalid (error : Error)
  deriving DecidableEq, Repr

/-- Reads a configuration that can be used. -/
def parse (text : String) : Except TextError ClientConfig :=
  match (Json.parse? text).bind ofJson? with
  | none => .error .unreadable
  | some c =>
    match c.validate with
    | .ok () => .ok c
    | .error e => .error (.invalid e)

end ClientConfig

end Courier
