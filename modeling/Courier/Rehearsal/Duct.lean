import Courier.Stream.ByteStream

/-! # Both ends of a stream

A producer and a consumer of one channel, each of which may have gone. While a chunk waits for
demand its send is pending and the producer can do nothing else.
-/

namespace Courier.Rehearsal

inductive Producer
  | gone
  | idle
  | sending (chunk : Bytes)
  deriving DecidableEq, Repr

structure Duct where
  channel : Channel
  cells : Cells
  producer : Producer
  outlet : Option Outlet
  subscription : Option Subscription

namespace Duct

def start (cells : Cells) : Duct :=
  ⟨.start, cells, .idle, some .start, none⟩

def ofStream (s : ByteStream) (cells : Cells) : Duct :=
  ⟨s.channel, cells, .gone, some s.outlet, none⟩

/-! ## The producer -/

/-- Sends, or goes on sending: no answer while the chunk waits for demand. -/
def send (d : Duct) (chunk : Bytes) : Option (Except Error Unit) × Duct :=
  match d.channel.send chunk with
  | (none, channel) => (none, { d with channel, producer := .sending chunk })
  | (some result, channel) => (some result, { d with channel, producer := .idle })

def complete (d : Duct) : Duct :=
  { d with channel := d.channel.complete, producer := .gone }

def fail (d : Duct) (e : Error) : Duct :=
  { d with channel := d.channel.fail e, producer := .gone }

def dropProducer (d : Duct) : Duct :=
  match d.producer with
  | .gone => d
  | .idle => { d with channel := d.channel.dropProducer, producer := .gone }
  | .sending _ =>
    { d with channel := d.channel.leaveProducer.dropProducer, producer := .gone }

/-- One look at whether the consumer has cancelled. -/
def watchCancelled (d : Duct) : Bool × Duct :=
  let (cancelled, channel) := d.channel.watchCancelled
  (cancelled, { d with channel := channel.leaveProducer })

/-! ## The stream -/

/-- A new subscription takes the place of the one before. -/
def subscribe (d : Duct) (o : Outlet) : Except Error Unit × Duct :=
  match o.subscribe d.channel with
  | .error e => (.error e, d)
  | .ok (s, o, channel) =>
    (.ok (),
      { d with
        channel := (d.subscription.map (·.drop channel)).getD channel
        outlet := some o
        subscription := some s })

def dropOutlet (d : Duct) (o : Outlet) : Duct :=
  { d with channel := o.drop d.channel, outlet := none }

/-- Adds a filter; if there is none to add, the stream is lost. -/
def addFilter (d : Duct) (o : Outlet) (f : Except Error Filter) : Except Error Unit × Duct :=
  match f with
  | .ok f => (.ok (), { d with outlet := some (o.withFilter f) })
  | .error e => (.error e, d.dropOutlet o)

/-! ## The subscription -/

/-- Collects what there is and lets go of the subscription. -/
def collect (d : Duct) (s : Subscription) : Option (Except Error Bytes) × Duct :=
  let (chunks, p) := s.readAll d.channel d.cells
  (collected chunks p.outcome,
    { d with channel := p.subscription.drop p.channel, cells := p.cells })

def collectOutlet (d : Duct) (o : Outlet) : Option (Except Error Bytes) × Duct :=
  match o.subscribe d.channel with
  | .error e => (some (.error e), d.dropOutlet o)
  | .ok (s, _, channel) => { d with channel, outlet := none }.collect s

def collectSubscription (d : Duct) (s : Subscription) : Option (Except Error Bytes) × Duct :=
  { d with subscription := none }.collect s

/-- One look for a chunk; a look that finds nothing leaves no mark behind. -/
def poll (d : Duct) (s : Subscription) (auto : Bool) : Polled × Duct :=
  let p := s.poll auto d.channel d.cells
  (p.outcome,
    { d with
      channel := { p.channel with consumer := p.channel.consumer.leave }
      cells := p.cells
      subscription := some p.subscription })

def request (d : Duct) (s : Subscription) (n : Nat) : Duct :=
  { d with channel := s.request n d.channel }

def cancel (d : Duct) (s : Subscription) : Duct :=
  let (s, channel) := s.cancel d.channel
  { d with channel, subscription := some s }

def dropSubscription (d : Duct) (s : Subscription) : Duct :=
  { d with channel := s.drop d.channel, subscription := none }

/-- At most so many pulls, up to the first that gives no chunk and no error, and then lets go. -/
def pullAll : Nat → Subscription → Duct → List Polled × Duct
  | 0, s, d => ([], d.dropSubscription s)
  | pulls + 1, s, d =>
    let p := s.pull d.channel d.cells
    let d := { d with channel := p.channel, cells := p.cells }
    match p.outcome with
    | .chunk _ | .failed _ =>
      let (rest, d) := pullAll pulls p.subscription d
      (p.outcome :: rest, d)
    | _ => ([p.outcome], d.dropSubscription p.subscription)

def drain (d : Duct) (s : Subscription) : List Polled × Duct :=
  pullAll (d.channel.stored + 3) s d

end Duct

end Courier.Rehearsal
