import Courier.Http.Message
import Courier.Wire.Fault
import Courier.Wire.Line

/-! # Response heads

A status line and header lines. The head also tells how the body is framed and whether the
connection stays open after it.
-/

namespace Courier.Wire

structure Head where
  head : ResponseHead
  chunked : Bool
  keepAlive : Bool
  deriving DecidableEq, Repr

namespace Head

def statusBound : Nat := 65536

/-- Cuts at the first space. -/
def word (cs : List Char) : List Char × Option (List Char) :=
  match cutAt? [' '] cs with
  | some (before, behind) => (before, some behind)
  | none => (cs, none)

/-- Protocol version, status and reason. -/
def statusLine? (line : List Char) : Option (List Char × Nat × List Char) :=
  let (version, rest) := word line
  if "HTTP/1.".toList.isPrefixOf version then
    match rest.map word with
    | some (code, reason) =>
      (Text.decimal? statusBound (String.ofList code)).map fun status =>
        (version, status, reason.getD [])
    | none => none
  else none

def headerLine (line : List Char) : Except Fault (String × String) :=
  match cutAt? [':'] line with
  | some (name, value) =>
    .ok (Text.trim (String.ofList name), Text.trim (String.ofList value))
  | none => .error (.headerLine (String.ofList line))

def headers (lines : List (List Char)) : Except Fault Headers :=
  (lines.mapM headerLine).map Headers.ofList

def isChunked (h : Headers) : Bool :=
  (h.all Headers.transferEncoding).any fun v => Text.mentions v "chunked"

/-- The Connection header decides, else the version: only 1.1 keeps the connection by itself. -/
def keepsAlive (version : List Char) (h : Headers) : Bool :=
  let connection := (h.first? Headers.connection).getD ""
  if Text.mentions connection "close" then false
  else if Text.mentions connection "keep-alive" then true
  else version = "HTTP/1.1".toList

def ofText (cs : List Char) : Except Fault Head :=
  match lines cs with
  | [] => .error (.statusLine "")
  | line :: rest =>
    match statusLine? line with
    | none => .error (.statusLine (String.ofList line))
    | some (version, status, reason) =>
      match headers rest with
      | .error f => .error f
      | .ok h => .ok ⟨⟨status, String.ofList reason, h⟩, isChunked h, keepsAlive version h⟩

def parse (raw : Bytes) : Except Fault Head :=
  match raw.text? with
  | some text => ofText text.toList
  | none => .error .headNotText

/-- Responses that come before the one awaited; a switch of protocols is none of them. -/
def isInterim (h : Head) : Bool :=
  100 ≤ h.head.status && h.head.status < 200 && h.head.status != 101

end Head

end Courier.Wire
