import Courier.Config.Json
import Courier.Digest.EntityTag
import Courier.Http.Json
import Courier.Http.Request
import Courier.Json.Field
import Courier.Stream.Rules

/-! # Descriptions

The values a rehearsal is given, described in JSON: bytes, errors, filters, streams, requests, and
retry policies.
-/

namespace Courier.Rehearsal

open Json

def kindOf (j : Json) : OperationKind :=
  choiceOr OperationKind.all OperationKind.name .other j

def methodOf (j : Json) : Method :=
  choiceOr Method.all Method.name .get j

def errorKindOf (j : Json) : ErrorKind :=
  choiceOr ErrorKind.all ErrorKind.name .stream j

def backoffKindOf (j : Json) : BackoffKind :=
  choiceOr BackoffKind.all BackoffKind.name .none j

def directionOf (j : Json) : Direction :=
  choiceOr [.upload, .download] Direction.name .upload j

def settingsOf (j : Json) : Integrity.Settings :=
  (Integrity.Settings.ofJson? j).getD .enabled

def headersOf (j : Json) : Headers :=
  .ofList (j.pairs "headers")

/-! ## Bytes -/

/-- So many bytes of a block repeated. -/
def fill (block : Bytes) (n : Nat) : Bytes :=
  if block.isEmpty then []
  else ((List.replicate (n / block.length + 1) block).flatten).take n

/-- Text, hexadecimal digits, a repeated block, or such parts joined, nested so deep. -/
def bytesWithin : Nat → Json → Bytes
  | 0, _ => []
  | depth + 1, j =>
    match j with
    | .string _ => .ofText j.toText
    | _ =>
      if j.has "hex" then (EntityTag.ofHex? (j.str "hex").toList).getD []
      else if j.has "fill" then fill (.ofText (j.str "fill")) (j.nat "len")
      else ((j.list "cat").map (bytesWithin depth)).flatten

def bytesOf (j : Json) : Bytes :=
  bytesWithin (j.depth + 1) j

/-! ## Errors -/

def errorWithin : Nat → Json → Error
  | 0, _ => .poolClosed
  | depth + 1, j =>
    let message := j.str "message"
    match j.str "type" with
    | "connection_acquisition" => .connectionAcquisition (j.str "endpoint") message
    | "transmission" => .transmission message
    | "response_decode" => .responseDecode message
    | "socket_timeout" => .socketTimeout (j.nat "millis") (j.str "during")
    | "integrity_mismatch" =>
      .integrityMismatch
        ⟨directionOf (j.field "direction"), bytesOf (j.field "expected"),
          bytesOf (j.field "computed")⟩
    | "status" => .status (j.nat "code") (j.str "text")
    | "retry_exhausted" =>
      .retryExhausted (j.nat "attempts") (errorWithin depth (j.field "source"))
    | "cancelled" => .cancelled message
    | "pool_closed" => .poolClosed
    | "double_release" => .doubleRelease (j.nat "id")
    | "configuration" => .configuration (j.str "field") message
    | "configuration_negative" => .negative (j.str "field")
    | "already_subscribed" => .alreadySubscribed
    | "end_of_pages" => .endOfPages
    | "end_of_items" => .endOfItems
    | _ => .device message

def errorOf (j : Json) : Error :=
  errorWithin (j.depth + 1) j

def error? (j : Json) (k : String) : Option Error :=
  (j.field? k).map errorOf

/-! ## Streams -/

def rejectedChunk : Error :=
  .responseDecode "filter rejected a chunk"

def rejectedEnd : Error :=
  .responseDecode "filter rejected completion"

/-- A filter; a digest goes to the slot given. -/
def filterOf (slot : Slot) (j : Json) : Except Error Filter :=
  match j.str "filter" with
  | "upper" => .ok (.ofRule .upper)
  | "drop_even" => .ok (.ofRule (.everyOther "drop-even"))
  | "fail_chunk" => .ok (.ofRule (.failingAfter "fail-chunk" (j.nat "after") rejectedChunk))
  | "fail_complete" => .ok (.ofRule (.failingAtEnd "fail-complete" rejectedEnd))
  | "trailing" => Filter.trailing? (j.nat "content_length")
  | _ => .ok (.digestInto slot)

def sourceOf (j : Json) : ByteStream :=
  if j.has "failed" then .failed (errorOf (j.field "failed"))
  else if j.has "bytes" then .ofBytes (bytesOf (j.field "bytes"))
  else if j.flag "empty" then .empty
  else if j.flag "dropped_producer" then .abandoned
  else .ofChunks ((j.list "chunks").map bytesOf)

/-- Takes the one subscription of a stream and drops it. -/
def subscribed (s : ByteStream) : ByteStream :=
  match s.subscribe with
  | .ok (subscription, s) => { s with channel := subscription.drop s.channel }
  | .error _ => s

def streamOf (slot : Slot) (j : Json) : Except Error ByteStream :=
  ((j.list "filters").mapM (filterOf slot)).map fun filters =>
    let s := filters.foldl .withFilter (sourceOf j)
    let s := if j.names "content_length" then s.withLength (j.nat? "content_length") else s
    if j.flag "subscribed" then subscribed s else s

/-! ## Requests -/

def bodyOf (slot : Slot) (j : Json) (cells : Cells) : Except Error (RequestBody × Cells) :=
  if j.has "buffered" then .ok (.buffered (bytesOf (j.field "buffered")), cells)
  else
    let (counter, cells) := cells.newCounter
    if j.has "one_shot" then
      (streamOf slot (j.field "one_shot")).map fun s => (.streaming (.oneShot counter s), cells)
    else
      let description := j.field "stream"
      (streamOf slot description).map fun s =>
        (.streaming
          (.reopening counter s (description.nat? "content_length") (j.flagOrTrue "replayable")),
          cells)

/-- A request without a body of its own kind; some ways to make one bring a body along. -/
def bareRequestOf (j : Json) : Except Error Request :=
  let uri := j.str "uri"
  match j.str "via" with
  | "" => Request.parse (methodOf (j.field "method")) uri
  | "get" => Request.parse .get uri
  | _ => (Request.parse .put uri).map (·.withBody (.buffered (bytesOf (j.field "data"))))

def requestOf (slot : Slot) (j : Json) (cells : Cells) : Except Error (Request × Cells) := do
  let r ← bareRequestOf j
  let r := (j.pairs "headers").foldl (fun r (name, value) => r.withHeader name value) r
  match j.field? "body" with
  | none => return (r, cells)
  | some description =>
    let (body, cells) ← bodyOf slot description cells
    return (r.withBody body, cells)

/-! ## Retry policies -/

def conditionWithin : Nat → Json → RetryCondition
  | 0, _ => .never
  | depth + 1, j =>
    let both (k : String) (join : RetryCondition → RetryCondition → RetryCondition) :=
      match (j.list k).map (conditionWithin depth) with
      | [a, b] => join a b
      | _ => .never
    match j with
    | .string (some "always") => .always
    | .string (some "default") => .standard
    | .string _ => .never
    | _ =>
      if j.has "and" then both "and" .conj
      else if j.has "or" then both "or" .disj
      else if j.has "not" then .not (conditionWithin depth (j.field "not"))
      else if j.has "max_attempts" then .maxAttempts (j.nat "max_attempts")
      else if j.has "error_kinds" then .errorKinds ((j.list "error_kinds").map errorKindOf)
      else if j.has "status_codes" then .statusCodes ((j.list "status_codes").map toNat)
      else (RetryCondition.ofJson? maxDepth (j.field "raw")).getD .never

def conditionOf (j : Json) : RetryCondition :=
  conditionWithin (j.depth + 1) j

def jitterOf (make : Duration → Duration → Nat → Backoff) (j : Json) : Backoff :=
  match j.items.map toNat with
  | [base, limit, maxRetries] => make (.ofMillis base) (.ofMillis limit) maxRetries
  | _ => .none

def backoffOf (j : Json) : Except Error Backoff :=
  match j with
  | .string (some "default") => .ok .standard
  | .string _ => .ok .none
  | _ =>
    if j.has "fixed" then .ok (.fixed (.ofMillis (j.nat "fixed")))
    else if j.has "fixed_micros" then .ok (.fixed (.ofMicros (j.nat "fixed_micros")))
    else if j.has "fixed_secs" then .ok (.fixed (.ofSeconds (j.nat "fixed_secs")))
    else if j.has "full" then .ok (jitterOf .fullJitter (j.field "full"))
    else if j.has "equal" then .ok (jitterOf .equalJitter (j.field "equal"))
    else
      match j.list "millis" with
      | [kind, base, limit, maxRetries] =>
        Backoff.ofMillis (backoffKindOf kind) base.toInt limit.toInt maxRetries.toInt
      | _ => .ok .none

def policyOf (j : Json) : Except Error RetryPolicy :=
  let p := if j.str "base" = "none" then RetryPolicy.never else .standard
  ((j.field? "backoff").mapM backoffOf).map fun backoff =>
    ⟨((j.field? "condition").map conditionOf).getD p.condition, backoff.getD p.backoff,
      (j.nat? "max_retries").getD p.maxRetries⟩

def contextOf (j : Json) : RetryContext :=
  let elapsed := .ofMillis (j.nat "elapsed_ms")
  let c := RetryContext.ofError (j.nat "retries") (error? j "error") elapsed
  ((j.nat? "status").map c.withStatus).getD c

end Courier.Rehearsal
