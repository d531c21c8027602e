import Courier.Client.Build
import Courier.Rehearsal.Description
import Courier.Rehearsal.Hooks
import Courier.Rehearsal.Play
import Courier.Rehearsal.Sampling
import Courier.Rehearsal.Stage

/-! # Casting

The parts of a rehearsal described in JSON: replies, the stage, interceptors, handlers, and callers
with their acts.
-/

namespace Courier.Rehearsal

open Json

def replyOf (j : Json) : Reply :=
  let r : Reply :=
    if j.has "ok" then .ok (bytesOf (j.field "ok"))
    else
      let status := j.nat "status"
      .ofStatus status ((j.str? "text").getD (Reply.reasonOf status))
  let r := if j.has "chunks" then r.withChunks ((j.list "chunks").map bytesOf) else r
  let r := (j.pairs "headers").foldl (fun r (name, value) => r.withHeader name value) r
  { r with
    keepAlive := j.flagOrTrue "keep_alive"
    breaksAfter := j.nat? "fail_after"
    headDelay := j.nat "head_delay_ms"
    chunkDelay := j.nat "chunk_delay_ms"
    stalls := j.flag "stall" }

def stageOf (j : Json) : Stage :=
  { Stage.empty with
    script := (j.list "script").map replyOf
    fallback := (j.field? "fallback").map replyOf
    dialDelay := j.nat "connect_delay_ms"
    dialErrors := (j.list "connect_errors").map errorOf
    refusals := j.nat "fail_connects"
    secure := !j.flag "tcp" }

/-! ## Interceptors -/

def interceptorOf (slot : Slot) (index : Nat) (j : Json) : Interceptor Memory :=
  let name := j.str "name"
  if j.flag "integrity" then Integrity.interceptor .enabled
  else if !j.has "priority" then .passive name
  else
    Hooks.interceptor
      { index, name
        priority := j.int "priority"
        requestHeader := (j.field? "request_header").map toPair
        responseHeader := (j.field? "response_header").map toPair
        refuseRequest := error? j "reject_request"
        refuseResponse := error? j "reject_response"
        times := j.nat? "times"
        filter := (j.field? "filter").map (filterOf slot) }

def interceptorsOf (slot : Slot) (js : List Json) : List (Interceptor Memory) :=
  js.mapIdx (interceptorOf slot)

/-! ## Handlers -/

abbrev Listener := Recording ⊕ Buffering ⊕ Sampling

abbrev Output := Bytes ⊕ BufferedResponse ⊕ Unit

def listening : Handler Listener Output :=
  Recording.handler.sum (Buffering.handler.sum Sampling.handler)

def endingOf (j : Json) : Ending :=
  match j.str "then" with
  | "cancel" => .cancel
  | "error" => .fail (errorOf (j.field "error"))
  | "drain" => .drain
  | _ => .leave

def sampleOf (j : Json) : Sample where
  take := j.nat? "take"
  ending := endingOf j
  completion :=
    match error? j "complete_error" with
    | some e => .error e
    | none => .ok ()

/-- One who records unless something else is asked for. -/
def listenerOf (handler : Option Json) : Listener :=
  match handler with
  | none => .inl .start
  | some (.string _) => .inr (.inl .start)
  | some j => .inr (.inr (.ofSample (sampleOf j)))

/-! ## Callers -/

def callerDropped : String := "caller dropped the execution"

/-- What a caller waits for before it begins. -/
def delayOf (j : Json) : List Act :=
  ((j.nat? "start_ms").map .sleep).toList

def actsOf (j : Json) : List Act :=
  let reason := j.str "reason"
  let onAbort (acts : Nat → List Act) : List Act := ((j.nat? "abort_ms").map acts).getD []
  let onward : List Act :=
    match j.str "mode" with
    | "run" => .launch .inline :: onAbort (fun ms => [.sleep ms, .abort reason]) ++ [.join]
    | "spawn" =>
      .launch .loop ::
        onAbort (fun ms => [.sleep ms, .look, .abort reason, .abort "too late"]) ++
        (if j.flag "close_while_streaming" then
          .awaitState .streamingBody :: ((j.nat? "settle_ms").map .sleep).toList ++ [.close]
        else []) ++ [.join]
    | _ => [.launch .loop, ((j.nat? "drop_ms").map (.joinFor · callerDropped)).getD .join]
  delayOf j ++ onward ++ (if j.flag "then_close" then [.closeAlone] else [])

def attributesOf (j : Json) : Attributes :=
  let a : Attributes := .empty
  let a := ((j.field? "kind").map fun k => a.put .operationKind (kindOf k)).getD a
  ((j.field? "integrity").map fun s => a.put .settings (settingsOf s)).getD a

abbrev Part := Caller Line Listener Output

/-- A caller, and the error that kept its request from being made. -/
structure Role where
  part : Part
  fault : Option Error

/-- Stands for a request that could not be made; it is never launched. -/
def blankRequest : Request :=
  ⟨.get, ⟨⟨.http, "", 0⟩, ""⟩, .empty, .empty⟩

/-- One whose request cannot be made finds it out after the delay. -/
def roleOf (slot : Slot) (j : Json) (cells : Cells) : Role × Cells :=
  let listener := listenerOf (j.field? "handler")
  match requestOf slot (j.field "request") cells with
  | .error e => (⟨.start (delayOf j ++ [.look]) (.start blankRequest listener .empty), e⟩, cells)
  | .ok (request, cells) =>
    let attributes := if j.str "mode" = "execute" then .empty else attributesOf j
    let x : Execution Line Listener Output := .start request listener attributes
    let x := ((j.str? "abort_before").map fun reason => (x.abort reason).2).getD x
    (⟨.start (actsOf j) x, none⟩, cells)

def rolesOf (slot : Slot) : List Json → Cells → List Role × Cells
  | [], cells => ([], cells)
  | j :: js, cells =>
    let (role, cells) := roleOf slot j cells
    let (roles, cells) := rolesOf slot js cells
    (role :: roles, cells)

end Courier.Rehearsal
