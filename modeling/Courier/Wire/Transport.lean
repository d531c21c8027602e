import Courier.Bytes
import Courier.Error

/-! # Byte transports

A transport answers each read with the next of a list of items and is at its end after them. It
takes what is written, in full or up to a limit.
-/

namespace Courier.Wire

/-- One answer to a read: bytes, where none means the end for this once, or a fault. -/
inductive ReadItem
  | data (bytes : Bytes)
  | fault (message : String)
  deriving DecidableEq, Repr

structure Transport where
  reads : List ReadItem
  written : Bytes
  /-- How many bytes one write takes. -/
  writeMax : Option Nat
  /-- How many bytes are still taken before writing fails. -/
  room : Option Nat
  flushFault : Option String
  shutdowns : Nat
  deriving DecidableEq, Repr

namespace Transport

def ofReads (reads : List ReadItem) : Transport :=
  ⟨reads, [], none, none, none, 0⟩

/-- The bytes of the items, with one more for each item. -/
def itemsSize : List ReadItem → Nat
  | [] => 0
  | .data bytes :: items => bytes.length + 1 + itemsSize items
  | .fault _ :: items => 1 + itemsSize items

def unread (t : Transport) : Nat :=
  itemsSize t.reads

def read (t : Transport) : Except String Bytes × Transport :=
  match t.reads with
  | [] => (.ok [], t)
  | .data bytes :: reads => (.ok bytes, { t with reads })
  | .fault message :: reads => (.error message, { t with reads })

def peerGone : String := "peer went away"

def nothingTaken : String := "write zero"

/-- Writes all of the data or fails after what there is room for. -/
def write (t : Transport) (data : Bytes) : Except String Unit × Transport :=
  match t.room with
  | some room =>
    let taken := if t.writeMax = some 0 then 0 else min room data.length
    let t := { t with written := t.written ++ data.take taken, room := some (room - taken) }
    if taken = data.length then (.ok (), t)
    else (.error (if taken = room then peerGone else nothingTaken), t)
  | none =>
    if t.writeMax = some 0 && !data.isEmpty then (.error nothingTaken, t)
    else (.ok (), { t with written := t.written ++ data })

def flush (t : Transport) : Except String Unit :=
  match t.flushFault with
  | some message => .error message
  | none => .ok ()

def shutdown (t : Transport) : Transport :=
  { t with shutdowns := t.shutdowns + 1 }

end Transport

end Courier.Wire
