import Courier.Error
import Courier.Text.Numeral
import Courier.Text.Inspect

/-! # Endpoints and addresses

An address is a scheme, an authority and a path. Its endpoint is what a connection is made to.
-/

namespace Courier

inductive Scheme
  | http
  | https
  deriving DecidableEq, Repr

namespace Scheme

def all : List Scheme := [http, https]

def name : Scheme → String
  | http => "http"
  | https => "https"

def defaultPort : Scheme → Nat
  | http => 80
  | https => 443

def inspect : Scheme → String
  | http => "Http"
  | https => "Https"

end Scheme

structure Endpoint where
  scheme : Scheme
  host : String
  port : Nat
  deriving DecidableEq, Repr

namespace Endpoint

/-- Host and port as a Host header gives them: the scheme's own port goes without saying. -/
def authority (e : Endpoint) : String :=
  if e.port = e.scheme.defaultPort then e.host else e.host ++ ":" ++ toString e.port

def text (e : Endpoint) : String :=
  e.scheme.name ++ "://" ++ e.host ++ ":" ++ toString e.port

def inspect (e : Endpoint) : String :=
  Inspect.record "Endpoint"
    [("scheme", e.scheme.inspect), ("host", Inspect.text e.host), ("port", toString e.port)]

end Endpoint

/-- Where a request goes: an endpoint and a path on it. -/
structure Address where
  endpoint : Endpoint
  path : String
  deriving DecidableEq, Repr

namespace Address

inductive Fault
  | scheme
  | host
  | port
  deriving DecidableEq, Repr

def Fault.message : Fault → String
  | scheme => "unsupported scheme"
  | host => "missing host"
  | port => "invalid port"

/-- What is left of the list after a block at its start. -/
def after? [BEq α] : List α → List α → Option (List α)
  | [], l => some l
  | a :: block, b :: l => if a == b then after? block l else none
  | _ :: _, [] => none

def scheme? (cs : List Char) : Option (Scheme × List Char) :=
  match after? "http://".toList cs with
  | some rest => some (.http, rest)
  | none => (after? "https://".toList cs).map (.https, ·)

def inAuthority (c : Char) : Bool :=
  c != '/' && c != '?'

/-- The two sides of the last colon. -/
def splitLastColon : List Char → Option (List Char × List Char)
  | [] => none
  | c :: r =>
    match splitLastColon r with
    | some (before, behind) => some (c :: before, behind)
    | none => if c = ':' then some ([], r) else none

def endpoint? (scheme : Scheme) (authority : List Char) : Except Fault Endpoint :=
  if authority.isEmpty then .error .host
  else
    match splitLastColon authority with
    | none => .ok ⟨scheme, String.ofList authority, scheme.defaultPort⟩
    | some (host, port) =>
      match Text.decimal? 65536 (String.ofList port) with
      | some n => .ok ⟨scheme, String.ofList host, n⟩
      | none => .error .port

/-- A path starts with a slash, also before a query that stands alone. -/
def rooted : List Char → List Char
  | '/' :: r => '/' :: r
  | r => '/' :: r

def ofChars (cs : List Char) : Except Fault Address :=
  match scheme? cs with
  | none => .error .scheme
  | some (scheme, rest) =>
    match endpoint? scheme (rest.takeWhile inAuthority) with
    | .error fault => .error fault
    | .ok endpoint => .ok ⟨endpoint, String.ofList (rooted (rest.dropWhile inAuthority))⟩

def parse (uri : String) : Except Error Address :=
  match ofChars uri.toList with
  | .ok address => .ok address
  | .error fault => .error (.configuration "uri" (fault.message ++ ": " ++ uri))

def text (a : Address) : String :=
  a.endpoint.text ++ a.path

end Address

end Courier
