import Courier.Integrity.Trailing.Splitter

/-! # Reading a body with a trailing checksum

The reader pulls from an inner source that answers with short reads and now and then a fault. It
hands payload on as it is read and compares the digest when the last of the payload has come.
-/

namespace Courier.Trailing

inductive FaultKind
  | invalidData
  | interrupted
  | unexpectedEof
  | brokenPipe
  | other
  deriving DecidableEq, Repr

def FaultKind.title : FaultKind → String
  | invalidData => "InvalidData"
  | interrupted => "Interrupted"
  | unexpectedEof => "UnexpectedEof"
  | brokenPipe => "BrokenPipe"
  | other => "Other"

structure DeviceFault where
  kind : FaultKind
  message : String
  deriving DecidableEq, Repr

/-- One answer of a source: some bytes, read in one or more parts, or a fault. -/
inductive SourceItem
  | data (bytes : Bytes)
  | fault (fault : DeviceFault)
  deriving DecidableEq, Repr

/-- What a source has yet to answer; after that it is at its end. -/
abbrev Source := List SourceItem

/-- Reads at most `n` bytes; none at the end. -/
def Source.read (n : Nat) : Source → Except DeviceFault Bytes × Source
  | [] => (.ok [], [])
  | .fault f :: r => (.error f, r)
  | .data bytes :: r =>
    let rest := bytes.drop n
    (.ok (bytes.take n), if rest.isEmpty then r else .data rest :: r)

/-- The bytes yet to be read, with one more for each item. -/
def Source.size : Source → Nat
  | [] => 0
  | .data bytes :: r => bytes.length + 1 + Source.size r
  | .fault _ :: r => 1 + Source.size r

inductive ReadError
  | device (fault : DeviceFault)
  | invalid (error : Error)
  deriving DecidableEq, Repr

namespace ReadError

def kind : ReadError → FaultKind
  | device f => f.kind
  | invalid _ => .invalidData

def message : ReadError → String
  | device f => f.message
  | invalid e => e.message

end ReadError

/-- Reads exactly `n` bytes, again after each interruption, within the given number of reads. -/
def Source.readExact (n : Nat) : Nat → Source → Except DeviceFault Bytes × Source
  | 0, s => (.error ⟨.unexpectedEof, "failed to fill whole buffer"⟩, s)
  | reads + 1, s =>
    if n = 0 then (.ok [], s)
    else
      match s.read n with
      | (.error f, s') => if f.kind = .interrupted then readExact n reads s' else (.error f, s')
      | (.ok bytes, s') =>
        if bytes.isEmpty then (.error ⟨.unexpectedEof, "failed to fill whole buffer"⟩, s')
        else
          match readExact (n - bytes.length) reads s' with
          | (.ok more, s'') => (.ok (bytes ++ more), s'')
          | (.error f, s'') => (.error f, s'')

structure Reader where
  inner : Source
  remaining : Nat
  hasher : Md5.Hasher
  verified : Bool
  deriving DecidableEq, Repr

namespace Reader

def ofSource? (inner : Source) (contentLength : Nat) : Except Fault Reader :=
  match Splitter.ofLength? contentLength with
  | .error f => .error f
  | .ok s => .ok ⟨inner, s.payloadLength, .start, false⟩

def truncatedDigest : Error :=
  .responseDecode "body truncated inside trailing checksum"

def missing (payload : Nat) : Error :=
  .responseDecode ("body truncated: " ++ toString payload ++ " payload bytes missing")

def overlong : Error :=
  .responseDecode "body exceeds declared content length"

/-- The sixteen bytes behind the payload, with every end of the source told as a short digest. -/
def readDigest (s : Source) : Except ReadError Bytes × Source :=
  match s.readExact digestLength (s.size + 1) with
  | (.ok bytes, s') => (.ok bytes, s')
  | (.error f, s') =>
    (.error (if f.kind = .unexpectedEof then .invalid truncatedDigest else .device f), s')

/-- Compares the digest and makes sure that nothing follows it. -/
def verify (r : Reader) : Except ReadError Unit × Reader :=
  match readDigest r.inner with
  | (.error e, s) => (.error e, { r with inner := s })
  | (.ok expected, s) =>
    let computed := r.hasher.finish
    let r := { r with inner := s, hasher := .start }
    if computed = expected then
      match s.read 1 with
      | (.error f, s') => (.error (.device f), { r with inner := s' })
      | (.ok probe, s') =>
        if probe.isEmpty then (.ok (), { r with inner := s', verified := true })
        else (.error (.invalid overlong), { r with inner := s' })
    else (.error (.invalid (.integrityMismatch ⟨.download, expected, computed⟩)), r)

/-- Fills at most `n` bytes; none once the body has been read and verified. -/
def read (r : Reader) (n : Nat) : Except ReadError Bytes × Reader :=
  if r.remaining = 0 then
    if r.verified then (.ok [], r)
    else
      match r.verify with
      | (.error e, r') => (.error e, r')
      | (.ok (), r') => (.ok [], r')
  else if n = 0 then (.ok [], r)
  else
    match r.inner.read (min r.remaining n) with
    | (.error f, s) => (.error (.device f), { r with inner := s })
    | (.ok bytes, s) =>
      let r := { r with inner := s }
      if bytes.isEmpty then (.error (.invalid (missing r.remaining)), r)
      else
        let r := { r with
          hasher := r.hasher.update bytes, remaining := r.remaining - bytes.length }
        if r.remaining = 0 then
          match r.verify with
          | (.error e, r') => (.error e, r')
          | (.ok (), r') => (.ok bytes, r')
        else (.ok bytes, r)

end Reader

end Courier.Trailing
