import Courier.Wire.Connection

/-! # What a reading can come to

A failed reading breaks the connection off, but for a size line that cannot be read. Any other
reading takes over a head, moves on in the body by the bytes it gives, or ends the body.
-/

namespace Courier.Wire

/-- The framing of a body that goes on: in a chunked one the place may be another. -/
inductive Framing.Kept : Framing → Framing → Prop

  | same (f : Framing) : Kept f f

  | chunked (state state' : ChunkState) : Kept (.chunked state) (.chunked state')

/-- The framing behind some bytes of the body. -/
inductive Framing.Advanced : Framing → Bytes → Framing → Prop

  | length {n : Nat} {bytes : Bytes} (hle : bytes.length ≤ n) :
      Advanced (.length n) bytes
        (if n - bytes.length = 0 then .done else .length (n - bytes.length))

  | chunked (state state' : ChunkState) (bytes : Bytes) :
      Advanced (.chunked state) bytes (.chunked state')

  | untilClose (bytes : Bytes) : Advanced .untilClose bytes .untilClose

namespace Connection

variable {α : Type} {c : Connection}

/-- Bytes are taken in or off, or the connection breaks off. -/
inductive Took (c : Connection) : Except Error α × Connection → Prop

  | whole (a : α) (b : Bytes) (t : Transport) :
      Took c (.ok a, { c with buffer := b, transport := t })

  | failed (e : Error) (b : Bytes) (t : Transport) :
      Took c (.error e, { c with buffer := b, transport := t, broken := true })

theorem Took.of_taken {b : Bytes} {t : Transport} {r : Except Error α × Connection}
    (h : Took { c with buffer := b, transport := t } r) : Took c r := by
  cases h with
  | whole a b t => exact .whole a b t
  | failed e b t => exact .failed e b t

theorem took_refuse (c : Connection) (f : Fault) :
    Took c (c.refuse f : Except Error α × Connection) :=
  .failed f.error c.buffer c.transport

theorem took_fill (c : Connection) : Took c c.fill := by
  unfold fill
  rcases c.transport.read with ⟨message | bytes, t⟩
  · exact .failed _ c.buffer t
  · exact .whole _ (c.buffer ++ bytes) t

theorem took_awaitLine (rounds : Nat) (c : Connection) : Took c (awaitLine rounds c) := by
  induction rounds generalizing c with
  | zero => exact took_refuse c _
  | succ rounds ih =>
    unfold awaitLine
    split
    · exact .whole _ _ c.transport
    · have hf := took_fill c
      generalize c.fill = r at hf ⊢
      cases hf with
      | failed e b t => exact .failed e b t
      | whole n b t =>
        cases n with
        | zero => exact (took_refuse _ _).of_taken
        | succ n => exact (ih _).of_taken

theorem took_takeLine (c : Connection) : Took c c.takeLine :=
  took_awaitLine _ c

theorem took_ensure (c : Connection) : Took c c.ensure := by
  unfold ensure
  split
  · have hf := took_fill c
    generalize c.fill = r at hf ⊢
    cases hf with
    | failed e b t => exact .failed e b t
    | whole n b t => exact .whole _ b t
  · exact .whole true c.buffer c.transport

/-! ## Heads -/

inductive HeadOutcome (c : Connection) : Except Error ResponseHead × Connection → Prop

  | failed (e : Error) (b : Bytes) (t : Transport) :
      HeadOutcome c (.error e, { c with buffer := b, transport := t, broken := true })

  | read {raw : Bytes} {head : Head} (hp : Head.parse raw = .ok head) (b : Bytes) (t : Transport) :
      HeadOutcome c
        (.ok head.head, ({ c with buffer := b, transport := t } : Connection).adopt head)

theorem HeadOutcome.of_taken {b : Bytes} {t : Transport}
    {r : Except Error ResponseHead × Connection}
    (h : HeadOutcome { c with buffer := b, transport := t } r) : HeadOutcome c r := by
  cases h with
  | failed e b t => exact .failed e b t
  | read hp b t => exact .read hp b t

theorem awaitHead_outcome (rounds : Nat) (c : Connection) :
    HeadOutcome c (awaitHead rounds c) := by
  induction rounds generalizing c with
  | zero => exact .failed _ c.buffer c.transport
  | succ rounds ih =>
    unfold awaitHead
    split
    · rename_i raw rest _
      dsimp only
      cases hp : Head.parse raw with
      | error f => exact .failed f.error rest c.transport
      | ok head =>
        dsimp only
        split
        · exact (ih _).of_taken
        · exact .read hp rest c.transport
    · split
      · exact .failed _ c.buffer c.transport
      · have hf := took_fill c
        generalize c.fill = r at hf ⊢
        cases hf with
        | failed e b t => exact .failed e b t
        | whole n b t =>
          cases n with
          | zero => exact .failed _ b t
          | succ n => exact (ih _).of_taken

theorem readHead_outcome (c : Connection) : HeadOutcome c c.readHead :=
  awaitHead_outcome _ c

/-! ## Bodies -/

inductive BodyOutcome (c : Connection) : Except Error (Option Bytes) × Connection → Prop

  | failed {f : Framing} (hf : Framing.Kept c.framing f) (e : Error) (b : Bytes) (t : Transport) :
      BodyOutcome c
        (.error e, { c with buffer := b, transport := t, framing := f, broken := true })

  | badSize {state state' : ChunkState} {line : Bytes} {f : Fault}
      (hc : c.framing = .chunked state) (hs : chunkSize line = .error f) (b : Bytes)
      (t : Transport) :
      BodyOutcome c
        (.error f.error, { c with buffer := b, transport := t, framing := .chunked state' })

  | piece {bytes : Bytes} {f : Framing} (hf : Framing.Advanced c.framing bytes f) (b : Bytes)
      (t : Transport) :
      BodyOutcome c (.ok (some bytes), { c with buffer := b, transport := t, framing := f })

  | ended (hf : ∀ n, c.framing ≠ .length n) (b : Bytes) (t : Transport) :
      BodyOutcome c (.ok none, { c with buffer := b, transport := t, framing := .done })

theorem BodyOutcome.of_inChunk {state state' : ChunkState} {b : Bytes} {t : Transport}
    {r : Except Error (Option Bytes) × Connection} (hc : c.framing = .chunked state)
    (h : BodyOutcome { c with buffer := b, transport := t, framing := .chunked state' } r) :
    BodyOutcome c r := by
  cases h with
  | failed hf e b t =>
    refine .failed ?_ e b t
    rw [hc]
    cases hf with
    | same => exact .chunked _ _
    | chunked => exact .chunked _ _
  | badSize _ hs b t => exact .badSize hc hs b t
  | piece hf b t =>
    refine .piece ?_ b t
    rw [hc]
    cases hf with
    | chunked => exact .chunked _ _ _
  | ended _ b t => exact .ended (fun n hn => by cases hc.symm.trans hn) b t

theorem BodyOutcome.of_failed (e : Error) (b : Bytes) (t : Transport) :
    BodyOutcome c (.error e, { c with buffer := b, transport := t, broken := true }) :=
  .failed (.same c.framing) e b t

theorem readChunked_outcome {state : ChunkState} (rounds : Nat) (hc : c.framing = .chunked state) :
    BodyOutcome c (readChunked rounds state c) := by
  induction rounds generalizing c state with
  | zero => exact .of_failed _ c.buffer c.transport
  | succ rounds ih =>
    have hl := took_takeLine c
    cases state with
    | size =>
      unfold readChunked
      generalize c.takeLine = r at hl ⊢
      cases hl with
      | failed e b t => exact .of_failed e b t
      | whole line b t =>
        dsimp only
        cases hs : chunkSize line with
        | error f =>
          -- the one failure that leaves the connection as it was
          have hb : BodyOutcome c
              (.error f.error, { c with buffer := b, transport := t, framing := .chunked .size }) :=
            .badSize hc hs b t
          rwa [← hc] at hb
        | ok n =>
          cases n with
          | zero => exact (ih rfl).of_inChunk hc
          | succ n => exact (ih rfl).of_inChunk hc
    | data remaining =>
      unfold readChunked
      have he := took_ensure c
      generalize c.ensure = r at he ⊢
      cases he with
      | failed e b t => exact .of_failed e b t
      | whole more b t =>
        cases more with
        | false => exact .of_failed _ b t
        | true =>
          refine .piece ?_ (b.drop remaining) t
          rw [hc]
          exact .chunked _ _ _
    | dataEnd =>
      unfold readChunked
      generalize c.takeLine = r at hl ⊢
      cases hl with
      | failed e b t => exact .of_failed e b t
      | whole line b t =>
        cases line with
        | nil => exact (ih rfl).of_inChunk hc
        | cons x line => exact .of_failed _ b t
    | trailers =>
      unfold readChunked
      generalize c.takeLine = r at hl ⊢
      cases hl with
      | failed e b t => exact .of_failed e b t
      | whole line b t =>
        cases line with
        | nil => exact .ended (fun n hn => by cases hc.symm.trans hn) b t
        | cons x line => exact (ih rfl).of_inChunk hc

theorem readChunk_outcome (c : Connection) : BodyOutcome c c.readChunk := by
  unfold readChunk
  cases hf : c.framing with
  | done =>
    have he := BodyOutcome.ended (c := c) (fun n hn => by cases hf.symm.trans hn) c.buffer
      c.transport
    rwa [← hf] at he
  | length remaining =>
    dsimp only
    unfold readLength
    have he := took_ensure c
    generalize c.ensure = r at he ⊢
    cases he with
    | failed e b t => exact .of_failed e b t
    | whole more b t =>
      cases more with
      | false => exact .of_failed _ b t
      | true =>
        refine .piece ?_ (b.drop remaining) t
        rw [hf]
        exact .length (List.length_take_le remaining b)
  | chunked state => exact readChunked_outcome _ hf
  | untilClose =>
    dsimp only
    unfold readUntilClose
    have he := took_ensure c
    generalize c.ensure = r at he ⊢
    cases he with
    | failed e b t => exact .of_failed e b t
    | whole more b t =>
      cases more with
      | false => exact .ended (fun n hn => by cases hf.symm.trans hn) b t
      | true =>
        have hp : BodyOutcome c
            (.ok (some b), { c with buffer := [], transport := t, framing := .untilClose }) :=
          .piece (hf ▸ .untilClose b) [] t
        rwa [← hf] at hp

end Connection

end Courier.Wire
