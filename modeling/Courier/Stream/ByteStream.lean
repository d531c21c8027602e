import Courier.Stream.Subscription
import Courier.Text.Inspect

/-! # Byte streams

The reading end of a channel before anyone reads it: filters to be layered on, a declared length,
and whether a subscription has been taken.
-/

namespace Courier

structure Outlet where
  filters : List Filter
  declared : Option Nat
  attached : Bool

namespace Outlet

def start : Outlet := ⟨[], none, false⟩

instance : Inhabited Outlet := ⟨start⟩

def withFilter (o : Outlet) (f : Filter) : Outlet :=
  { o with filters := o.filters ++ [f] }

def withLength (o : Outlet) (n : Option Nat) : Outlet :=
  { o with declared := n }

/-- The one subscription of a channel takes the filters along. -/
def subscribe (o : Outlet) (ch : Channel) : Except Error (Subscription × Outlet × Channel) :=
  match ch.subscribe with
  | .error e => .error e
  | .ok ch => .ok (⟨o.filters, false⟩, { o with filters := [], attached := true }, ch)

/-- A stream that nobody subscribed to is cancelled when it goes away. -/
def drop (o : Outlet) (ch : Channel) : Channel :=
  if o.attached then ch else ch.cancel

def inspect (o : Outlet) : String :=
  Inspect.record "ByteStream"
    [("filters", Inspect.list (o.filters.map fun f => Inspect.text f.name)),
     ("content_length", Inspect.option (o.declared.map toString)),
     ("attached", Inspect.flag o.attached)]

end Outlet

/-- A stream that holds its channel: no producer feeds it any more. -/
structure ByteStream where
  channel : Channel
  outlet : Outlet

namespace ByteStream

def ofChunks (chunks : List Bytes) : ByteStream :=
  ⟨.ofChunks chunks, Outlet.start.withLength (some (Bytes.totalLength chunks))⟩

def ofBytes (bytes : Bytes) : ByteStream :=
  ofChunks [bytes]

def empty : ByteStream :=
  ofChunks []

instance : Inhabited ByteStream := ⟨empty⟩

def failed (error : Error) : ByteStream :=
  ⟨Channel.start.fail error, .start⟩

/-- A stream whose producer went away at once. -/
def abandoned : ByteStream :=
  ⟨Channel.start.dropProducer, .start⟩

def withFilter (s : ByteStream) (f : Filter) : ByteStream :=
  { s with outlet := s.outlet.withFilter f }

def withLength (s : ByteStream) (n : Option Nat) : ByteStream :=
  { s with outlet := s.outlet.withLength n }

def subscribe (s : ByteStream) : Except Error (Subscription × ByteStream) :=
  match s.outlet.subscribe s.channel with
  | .error e => .error e
  | .ok (sub, outlet, channel) => .ok (sub, ⟨channel, outlet⟩)

/-- The chunks that come out, and how the reading ended. -/
def readAll (s : ByteStream) (cells : Cells) : List Bytes × Polled × Cells :=
  match s.subscribe with
  | .error e => ([], .failed e, cells)
  | .ok (sub, s) =>
    let (chunks, p) := sub.readAll s.channel cells
    (chunks, p.outcome, p.cells)

def collect (s : ByteStream) (cells : Cells) : Option (Except Error Bytes) × Cells :=
  let (chunks, outcome, cells) := s.readAll cells
  (collected chunks outcome, cells)

end ByteStream

end Courier
