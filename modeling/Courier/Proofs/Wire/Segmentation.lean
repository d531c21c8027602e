import Courier.Proofs.Wire.Decoding
import Courier.Proofs.Wire.Sending

/-! # One exchange, however it is cut

What a caller sees of an exchange is computed from the bytes that come. It is the same for any two
ways in which the reads cut them.
-/

namespace Courier.Wire

/-- What a caller sees of an exchange: how the request went out, the head or its error, the bytes of
the body, and the error that its reading ended with, if any. -/
structure Seen where
  sent : Option (Except Error Unit)
  head : Except Error ResponseHead
  body : Bytes
  failure : Option Error

namespace Connection

variable {base c : Connection} {s : Bytes}

/-- The caller sends a request, reads a head, and reads a body until it ends or fails. -/
inductive Sees (c : Connection) (head : RequestHead) (body : Option ByteStream) (cells : Cells) :
    Seen → Prop

  | intro {sent : Sent} {r : Except Error ResponseHead} {c₁ c₂ : Connection} {pieces : List Bytes}
      {e : Option Error} (hs : c.sendRequest head body cells = sent)
      (hh : sent.connection.readHead = (r, c₁)) (hd : Drains c₁.readChunk pieces e c₂) :
      Sees c head body cells ⟨sent.outcome, r, pieces.flatten, e⟩

theorem Sees.unique {head : RequestHead} {body : Option ByteStream} {cells : Cells} {o o' : Seen}
    (h : Sees c head body cells o) (h' : Sees c head body cells o') : o = o' := by
  obtain ⟨hs, hh, hd⟩ := h
  obtain ⟨hs', hh', hd'⟩ := h'
  cases hs.symm.trans hs'
  cases hh.symm.trans hh'
  obtain ⟨rfl, rfl, -⟩ := hd.unique hd'
  rfl

/-- What is seen of the bytes behind a request with this method. -/
def seenOf (outcome : Option (Except Error Unit)) (method : Method) (s : Bytes) : Seen :=
  match headOf s with
  | .error f => ⟨outcome, .error f.error, [], none⟩
  | .ok (h, rest) =>
    let d := bodyOf (framingOf (some method) h).1 rest
    ⟨outcome, .ok h.head, d.body, d.error?⟩

theorem Delivers.sees {head : RequestHead} {body : Option ByteStream} {cells : Cells} {d : Decoded}
    {sent : Sent} {r : Except Error ResponseHead} {c₁ : Connection}
    (h : Delivers base d c₁.readChunk) (hs : c.sendRequest head body cells = sent)
    (hh : sent.connection.readHead = (r, c₁)) :
    Sees c head body cells ⟨sent.outcome, r, d.body, d.error?⟩ := by
  obtain ⟨pieces, c₂, hd, hb, -⟩ := h
  exact hb ▸ .intro hs hh hd

theorem Facing.sees (h : Facing base s c) (hfit : HeadsFit s) (head : RequestHead)
    (body : Option ByteStream) (cells : Cells) :
    Sees c head body cells
      (seenOf (base.sendRequest head body cells).outcome head.method s) := by
  have hwent := base.went_sendRequest head body cells
  have hf := h.sendRequest head body cells
  have hr := hf.readHead hfit
  rw [← h.sendRequest_outcome, seenOf]
  generalize hh : (c.sendRequest head body cells).connection.readHead = p at hr
  rcases p with ⟨r, c₁⟩
  cases hr with
  | failed hd hf =>
    have hdone : c₁.framing = .done := hf.framing_eq.trans hwent.framing_eq
    rw [hd]
    exact (hf.readDone hdone).sees rfl hh
  | @read h' rest _ hd hf =>
    have hm : (base.sendRequest head body cells).connection.method = some head.method :=
      hwent.method_eq
    rw [adopt_eq, hm] at hf
    rw [hd]
    exact (hf.readChunk (framingOf_live _ h')).sees rfl hh

/-- What a caller sees of an exchange does not depend on how the reads cut the bytes. -/
theorem seen_independent_of_cuts (t : Transport) (head : RequestHead) (body : Option ByteStream)
    (cells : Cells) {bytes : Bytes} (hfit : HeadsFit bytes) {cuts cuts' : List Bytes}
    (h : Cuts cuts bytes) (h' : Cuts cuts' bytes) :
    ∃ seen, ∀ o,
      (Sees (ofTransport { t with reads := cuts.map .data }) head body cells o ↔ o = seen) ∧
      (Sees (ofTransport { t with reads := cuts'.map .data }) head body cells o ↔ o = seen) := by
  have hf := (facing_fresh (t := t) h).sees hfit head body cells
  have hf' := (facing_fresh (t := t) h').sees hfit head body cells
  refine ⟨_, fun o => ⟨⟨fun ho => ho.unique hf, fun ho => ho ▸ hf⟩, ?_⟩⟩
  exact ⟨fun ho => ho.unique hf', fun ho => ho ▸ hf'⟩

/-- A body that breaks off, in one read and cut inside an end of line. -/
theorem seen_independent_of_cuts_crlf :
    let bytes := Bytes.ofText "HTTP/1.1 200 OK\r\nContent-Length: 3\r\n\r\nhi"
    HeadsFit bytes ∧ Cuts [bytes] bytes ∧ Cuts [bytes.take 16, bytes.drop 16] bytes ∧
      ∃ seen, ∀ o,
        (Sees (ofTransport { Transport.ofReads [] with reads := [bytes].map .data })
          ⟨.get, "/", .empty⟩ none .empty o ↔ o = seen) ∧
        (Sees (ofTransport
            { Transport.ofReads [] with reads := [bytes.take 16, bytes.drop 16].map .data })
          ⟨.get, "/", .empty⟩ none .empty o ↔ o = seen) := by
  intro bytes
  have hfit : HeadsFit bytes := by
    have hc : cutAt? headEnd bytes = some (bytes.take 34, bytes.drop 38) := by decide +kernel
    refine .block hc (by decide +kernel) fun _ _ _ => .endless ?_
    decide +kernel
  have h : Cuts [bytes] bytes := ⟨by decide +kernel, List.append_nil bytes⟩
  have h' : Cuts [bytes.take 16, bytes.drop 16] bytes := by
    refine ⟨by decide +kernel, ?_⟩
    rw [List.flatten_cons, List.flatten_singleton, List.take_append_drop]
  exact ⟨hfit, h, h', seen_independent_of_cuts _ _ none .empty hfit h h'⟩

end Connection

end Courier.Wire
