import Courier.Stream.ByteStream

/-! # Request bodies

A body is absent, held in memory, or opened anew by a provider for each attempt.
-/

namespace Courier

/-- What each opening of a body gives, by how often it has been opened before. A provider may also
note the digest of what is read from the latest opening in slots that it clears first. -/
structure BodyProvider where
  counter : Counter
  stream : Nat → ByteStream
  declared : Option Nat
  replayable : Nat → Bool
  digests : List Slot

namespace BodyProvider

def spent : Error :=
  .transmission "request body cannot be replayed"

/-- A stream that can be opened once. -/
def oneShot (counter : Counter) (s : ByteStream) : BodyProvider :=
  { counter
    stream := fun
      | 0 => s
      | _ + 1 => .failed spent
    declared := s.outlet.declared
    replayable := fun openings => openings = 0
    digests := [] }

/-- A stream that starts afresh at each opening. -/
def reopening (counter : Counter) (s : ByteStream) (declared : Option Nat) (replayable : Bool) :
    BodyProvider :=
  { counter, stream := fun _ => s, declared, replayable := fun _ => replayable, digests := [] }

def digestingInto (p : BodyProvider) (slot : Slot) : BodyProvider :=
  { p with digests := p.digests ++ [slot] }

def openings (p : BodyProvider) (cells : Cells) : Nat :=
  cells.count p.counter

def isReplayable (p : BodyProvider) (cells : Cells) : Bool :=
  p.replayable (p.openings cells)

def openStream (p : BodyProvider) (cells : Cells) : ByteStream × Cells :=
  (p.digests.foldl (fun s slot => s.withFilter (.digestInto slot)) (p.stream (p.openings cells)),
    p.digests.foldl (fun c slot => c.setDigest slot none) (cells.increment p.counter))

end BodyProvider

inductive RequestBody
  | empty
  | buffered (bytes : Bytes)
  | streaming (provider : BodyProvider)

namespace RequestBody

instance : Inhabited RequestBody := ⟨empty⟩

def openStream (b : RequestBody) (cells : Cells) : Option ByteStream × Cells :=
  match b with
  | empty => (none, cells)
  | buffered bytes => (some (.ofBytes bytes), cells)
  | streaming p =>
    let (s, cells) := p.openStream cells
    (some s, cells)

def isReplayable (b : RequestBody) (cells : Cells) : Bool :=
  match b with
  | empty => true
  | buffered _ => true
  | streaming p => p.isReplayable cells

def declared : RequestBody → Option Nat
  | empty => some 0
  | buffered bytes => some bytes.length
  | streaming p => p.declared

def isPresent : RequestBody → Bool
  | empty => false
  | _ => true

def buffered? : RequestBody → Option Bytes
  | buffered bytes => some bytes
  | _ => none

def inspect : RequestBody → String
  | empty => "Empty"
  | buffered bytes => "Buffered(" ++ toString bytes.length ++ " bytes)"
  | streaming p =>
    "Streaming(content_length=" ++ Inspect.option (p.declared.map toString) ++ ")"

end RequestBody

end Courier
