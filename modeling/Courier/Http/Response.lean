import Courier.Http.Message
import Courier.Stream.ByteStream

/-! # Responses

The body of a response is still on the wire, to be fed by its connection, or a stream of its own
that a hook has put in its place.
-/

namespace Courier

inductive ResponseBody
  | wire (outlet : Outlet)
  | held (stream : ByteStream)

namespace ResponseBody

def withFilter (b : ResponseBody) (f : Filter) : ResponseBody :=
  match b with
  | wire o => wire (o.withFilter f)
  | held s => held (s.withFilter f)

def withLength (b : ResponseBody) (n : Option Nat) : ResponseBody :=
  match b with
  | wire o => wire (o.withLength n)
  | held s => held (s.withLength n)

def outlet : ResponseBody → Outlet
  | wire o => o
  | held s => s.outlet

def declared (b : ResponseBody) : Option Nat :=
  b.outlet.declared

end ResponseBody

structure Response where
  head : ResponseHead
  body : ResponseBody

end Courier
