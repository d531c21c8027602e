import Courier.Digest.Md5
import Courier.Error

/-! # Trailing checksums

A body may carry the MD5 of its payload as its last sixteen bytes. The splitter parts the two,
releases payload as it comes, and holds back the chunk that reaches the end of the payload until
the digest has been compared.
-/

namespace Courier.Trailing

def digestLength : Nat := 16

inductive Fault
  | short (contentLength : Nat)
  | truncated (expected received : Nat)
  | overlong (contentLength : Nat)
  | mismatch (expected computed : Bytes)
  deriving DecidableEq, Repr

def Fault.error : Fault → Error
  | short n =>
    .responseDecode ("content length " ++ toString n ++ " is shorter than the trailing checksum")
  | truncated expected received =>
    .responseDecode ("body truncated: expected " ++ toString expected ++ " bytes, received " ++
      toString received)
  | overlong n => .responseDecode ("body exceeds declared content length " ++ toString n)
  | mismatch expected computed => .integrityMismatch ⟨.download, expected, computed⟩

structure Splitter where
  contentLength : Nat
  position : Nat
  hasher : Md5.Hasher
  held : Bytes
  expected : Bytes
  verified : Bool
  deriving DecidableEq, Repr

namespace Splitter

def ofLength? (contentLength : Nat) : Except Fault Splitter :=
  if contentLength < digestLength then .error (.short contentLength)
  else .ok ⟨contentLength, 0, .start, [], [], false⟩

def payloadLength (s : Splitter) : Nat :=
  s.contentLength - digestLength

/-- Takes what belongs to the payload from the front of a chunk. -/
def absorb (s : Splitter) (chunk : Bytes) : Bytes × Bytes × Splitter :=
  let (payload, rest) := chunk.splitAt (s.payloadLength - s.position)
  (payload, rest,
    { s with position := s.position + payload.length, hasher := s.hasher.update payload })

/-- Compares the digests once the expected one is whole. -/
def settle (s : Splitter) : Except Fault (Option Bytes) × Splitter :=
  if s.expected.length < digestLength then (.ok none, s)
  else
    let computed := s.hasher.finish
    let s' := { s with hasher := .start, held := [] }
    if computed = s.expected then
      (.ok (if s.held.isEmpty then none else some s.held), { s' with verified := true })
    else (.error (.mismatch s.expected computed), s')

/-- What a chunk sets free, if anything. -/
def push (s : Splitter) (chunk : Bytes) : Except Fault (Option Bytes) × Splitter :=
  if chunk.isEmpty then (.ok none, s)
  else if s.verified then (.error (.overlong s.contentLength), s)
  else
    let (payload, rest, s) := s.absorb chunk
    if s.position < s.payloadLength then (.ok (some payload), s)
    else
      let s := { s with held := s.held ++ payload }
      if digestLength - s.expected.length < rest.length then
        (.error (.overlong s.contentLength), s)
      else
        settle { s with position := s.position + rest.length, expected := s.expected ++ rest }

/-- A body is whole only once its digest has been found right. -/
def finish (s : Splitter) : Except Fault Unit :=
  if s.verified then .ok () else .error (.truncated s.contentLength s.position)

end Splitter

end Courier.Trailing
