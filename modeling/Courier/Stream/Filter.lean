import Courier.Integrity.Trailing.Splitter
import Courier.Stream.Cells

/-! # Chunk filters

A filter sees the chunks of a stream in order and passes each on, changes it, withholds it or
fails; at the end it may fail once more. A stack of filters feeds each one what the one before it
passed on.
-/

namespace Courier

/-- A filter given by what it does to a chunk after the chunks it has seen. -/
structure Filter.Rule where
  name : String
  onChunk : List Bytes → Bytes → Except Error (Option Bytes)
  onComplete : List Bytes → Except Error Unit

inductive Filter
  | trailing (splitter : Trailing.Splitter)
  | uploadDigest (slot : Slot) (hasher : Md5.Hasher)
  | custom (rule : Filter.Rule) (seen : List Bytes)

namespace Filter

def name : Filter → String
  | trailing _ => "trailing-checksum"
  | uploadDigest _ _ => "upload-digest"
  | custom rule _ => rule.name

def trailing? (contentLength : Nat) : Except Error Filter :=
  match Trailing.Splitter.ofLength? contentLength with
  | .ok s => .ok (.trailing s)
  | .error f => .error f.error

def digestInto (slot : Slot) : Filter :=
  .uploadDigest slot .start

def ofRule (rule : Rule) : Filter :=
  .custom rule []

def push : Filter → Bytes → Except Error (Option Bytes) × Filter
  | trailing s, chunk =>
    match s.push chunk with
    | (.ok out, s') => (.ok out, trailing s')
    | (.error f, s') => (.error f.error, trailing s')
  | uploadDigest slot h, chunk => (.ok (some chunk), uploadDigest slot (h.update chunk))
  | custom rule seen, chunk => (rule.onChunk seen chunk, custom rule (seen ++ [chunk]))

def complete : Filter → Cells → Except Error Unit × Filter × Cells
  | trailing s, cells =>
    match s.finish with
    | .ok () => (.ok (), trailing s, cells)
    | .error f => (.error f.error, trailing s, cells)
  | uploadDigest slot h, cells =>
    (.ok (), uploadDigest slot .start, cells.setDigest slot (some h.finish))
  | custom rule seen, cells => (rule.onComplete seen, custom rule seen, cells)

/-- Passes a chunk down the stack until a filter withholds it or fails. -/
def pushAll : List Filter → Bytes → Except Error (Option Bytes) × List Filter
  | [], chunk => (.ok (some chunk), [])
  | f :: fs, chunk =>
    match f.push chunk with
    | (.ok (some next), f') =>
      let (result, fs') := pushAll fs next
      (result, f' :: fs')
    | (.ok none, f') => (.ok none, f' :: fs)
    | (.error e, f') => (.error e, f' :: fs)

/-- Completes the filters in order up to the first failure. -/
def completeAll : List Filter → Cells → Except Error Unit × List Filter × Cells
  | [], cells => (.ok (), [], cells)
  | f :: fs, cells =>
    match f.complete cells with
    | (.ok (), f', cells) =>
      let (result, fs', cells) := completeAll fs cells
      (result, f' :: fs', cells)
    | (.error e, f', cells) => (.error e, f' :: fs, cells)

end Filter

end Courier
