import Courier.Proofs.Wire.BodyText
import Courier.Proofs.Wire.Sending

/-! # Conversations

Over one connection, requests go out one after the other, and each answer is read as it was written:
its head, its payload, and none of what follows it.
-/

namespace Courier.Wire

/-- A response as it is written: interim heads, the final head, the body. -/
structure Answer where
  interims : List HeadText
  head : HeadText
  body : BodyText
  deriving DecidableEq, Repr

namespace Answer

def bytes (a : Answer) : Bytes :=
  HeadText.interimBytes a.interims ++ (a.head.bytes ++ a.body.bytes)

structure WellFormed (method : Method) (a : Answer) : Prop where
  interims : ∀ i ∈ a.interims, i.WellFormed ∧ i.Interim
  head : a.head.WellFormed
  final : a.head.Final
  body : a.body.Fits method a.head

end Answer

/-- A request with its body, and the answer to it. -/
structure Exchange where
  request : RequestHead
  body : Option ByteStream
  cells : Cells
  answer : Answer

/-- The body of the request can be read to its end, and the answer is well formed. -/
structure Exchange.WellFormed (x : Exchange) : Prop where
  body : Connection.Readable x.body x.cells
  answer : x.answer.WellFormed x.request.method

def script (xs : List Exchange) : Bytes :=
  xs.flatMap fun x => x.answer.bytes

namespace Connection

def ahead (c : Connection) : Bytes :=
  c.buffer ++ c.transport.reads.flatMap fun
    | .data bytes => bytes
    | .fault _ => []

/-- Each request goes out, its answer is read as it was written, and only the later answers are
left. The connection is reusable just then if the head keeps it open and nothing is buffered. -/
inductive Converses : Connection → List Exchange → Prop

  | done {c : Connection} : Converses c []

  | exchange {c c₁ c₂ c₃ : Connection} {x : Exchange} {xs : List Exchange} {cells : Cells}
      {pieces : List Bytes}
      (sent : c.sendRequest x.request x.body x.cells = ⟨some (.ok ()), c₁, cells⟩)
      (head : c₁.readHead =
        (.ok ⟨x.answer.head.status, x.answer.head.reason, ⟨x.answer.head.fields⟩⟩, c₂))
      (body : Drains c₂.readChunk pieces none c₃)
      (payload : pieces.flatten = x.answer.body.payload)
      (left : c₃.ahead = script xs)
      (reusable : c₃.isReusable = true ↔ x.answer.head.KeepsOpen ∧ c₃.buffer = [])
      (next : Converses c₃ xs) : Converses c (x :: xs)

variable {base c : Connection} {s : Bytes}

theorem Facing.ahead_eq (h : Facing base s c) : c.ahead = s := by
  cases h with
  | @intro buffer cuts hne hs =>
    rw [← hs, ahead]
    dsimp only [holding]
    rw [List.flatMap_map, List.flatMap_id']

/-- A connection that is not broken and takes all that is written. -/
structure Sound (c : Connection) : Prop where
  willing : c.transport.Willing
  unbroken : c.broken = false

theorem isReusable_iff (hu : c.broken = false) (hd : c.framing = .done) :
    c.isReusable = true ↔ c.keepAlive = true ∧ c.buffer = [] := by
  simp [isReusable, hu, hd]

theorem Facing.readAnswer {a : Answer} {method : Method} (h : Facing base (a.bytes ++ s) c)
    (hm : base.method = some method) (ha : a.WellFormed method) :
    ∃ c₁ c₂ pieces,
      c.readHead = (.ok ⟨a.head.status, a.head.reason, ⟨a.head.fields⟩⟩, c₁) ∧
      Drains c₁.readChunk pieces none c₂ ∧ pieces.flatten = a.body.payload ∧
      Facing { base with framing := .done, keepAlive := a.head.parsed.keepAlive } s c₂ := by
  obtain ⟨hinterims, hhead, hfinal, hbody⟩ := ha
  -- the head is the one that was written
  rw [Answer.bytes, List.append_assoc, List.append_assoc] at h
  obtain ⟨hheadOf, hfit⟩ := HeadText.headOf_interimBytes hinterims hhead hfinal (a.body.bytes ++ s)
  have hread := h.readHead hfit
  generalize c.readHead = p at hread ⊢
  rcases p with ⟨r, c₁⟩
  cases hread with
  | failed he => cases hheadOf.symm.trans he
  | read hh hf₁ =>
    cases hheadOf.symm.trans hh
    -- so is the body, and the framing is the one it fits
    obtain ⟨hdec, hkeep⟩ := hbody.bodyOf_eq s
    rw [adopt_eq, hm] at hf₁
    have hd := hf₁.readChunk (framingOf_live _ a.head.parsed)
    dsimp only at hd
    rw [hdec, hkeep] at hd
    obtain ⟨pieces, c₂, hdr, hpay, hrest⟩ := hd
    have hf₂ := hrest s rfl
    rw [← hm] at hf₂
    exact ⟨c₁, c₂, pieces, rfl, hdr, hpay, hf₂⟩

/-- One exchange leaves what stands behind the answer, and a sound connection. -/
theorem Facing.exchange {x : Exchange} (h : Facing base (x.answer.bytes ++ s) c) (hb : base.Sound)
    (hx : x.WellFormed) :
    ∃ c₁ c₂ c₃ cells pieces base',
      c.sendRequest x.request x.body x.cells = ⟨some (.ok ()), c₁, cells⟩ ∧
      c₁.readHead =
        (.ok ⟨x.answer.head.status, x.answer.head.reason, ⟨x.answer.head.fields⟩⟩, c₂) ∧
      Drains c₂.readChunk pieces none c₃ ∧ pieces.flatten = x.answer.body.payload ∧
      Facing base' s c₃ ∧ base'.Sound ∧
      (c₃.isReusable = true ↔ x.answer.head.KeepsOpen ∧ c₃.buffer = []) := by
  -- the request goes out, and the bytes stay ahead
  obtain ⟨w, hout, hsent⟩ := sendRequest_willing hb.willing x.request hx.body
  have hf := h.sendRequest x.request x.body x.cells
  have hok := (h.sendRequest_outcome x.request x.body x.cells).trans hout
  rw [hsent] at hf
  generalize c.sendRequest x.request x.body x.cells = sent at hf hok
  rcases sent with ⟨outcome, c₁, cells⟩
  cases hok
  obtain ⟨c₂, c₃, pieces, hr, hdr, hpay, hf₃⟩ := hf.readAnswer rfl hx.answer
  refine ⟨c₁, c₂, c₃, cells, pieces, _, rfl, hr, hdr, hpay, hf₃, ⟨?_, hb.unbroken⟩, ?_⟩
  · exact ⟨hb.willing.room, hb.willing.writeMax, hb.willing.flushFault⟩
  · have hu : c₃.broken = false := hf₃.broken_eq.trans hb.unbroken
    have hk : c₃.keepAlive = x.answer.head.parsed.keepAlive := hf₃.keepAlive_eq
    rw [isReusable_iff hu hf₃.framing_eq, hk]
    exact and_congr_left fun _ => x.answer.head.keepsAlive_iff

theorem Facing.converses {xs : List Exchange} (h : Facing base (script xs) c) (hb : base.Sound)
    (hx : ∀ x ∈ xs, x.WellFormed) : Converses c xs := by
  induction xs generalizing base c with
  | nil => exact .done
  | cons x xs ih =>
    obtain ⟨hx, hxs⟩ := List.forall_mem_cons.mp hx
    rw [script, List.flatMap_cons, ← script] at h
    obtain ⟨c₁, c₂, c₃, cells, pieces, base', hs, hr, hd, hp, hf, hb', hu⟩ := h.exchange hb hx
    exact .exchange hs hr hd hp hf.ahead_eq hu (ih hf hb' hxs)

/-- Answers come out as they went in, one after the other, wherever the reads cut them. -/
theorem answers_read_as_written (t : Transport) (ht : t.Willing) {xs : List Exchange}
    (hx : ∀ x ∈ xs, x.WellFormed) {cuts : List Bytes} (h : Cuts cuts (script xs)) :
    Converses (ofTransport { t with reads := cuts.map .data }) xs := by
  have hb : (ofTransport t).Sound := ⟨ht, rfl⟩
  exact (facing_fresh h).converses hb hx

end Connection

namespace Exchange

/-- A chunked answer with an extension and a trailer behind an interim head. -/
def greeting : Exchange where
  request := ⟨.get, "/greeting", .empty⟩
  body := none
  cells := .empty
  answer :=
    { interims := [⟨100, "Continue", []⟩]
      head := ⟨200, "OK", [("Transfer-Encoding", "chunked")]⟩
      body := .chunked [⟨⟨"02", " ;q=1"⟩, [104, 105]⟩] ⟨"0", ""⟩ [Bytes.ofText "Sum: 9"] }

/-- The answer to the same request without its body. -/
def greetingHead : Exchange where
  request := ⟨.head, "/greeting", .empty⟩
  body := none
  cells := .empty
  answer :=
    { interims := []
      head := ⟨200, "OK", [("Content-Length", "2"), ("Connection", "close")]⟩
      body := .absent }

theorem greeting_wellFormed : greeting.WellFormed where
  body := fun _ h => by cases h
  answer :=
    { interims := by
        intro i hi
        cases List.mem_singleton.mp hi
        refine ⟨⟨by decide +kernel, by decide +kernel, ?_, by decide +kernel⟩, ?_⟩
        · exact fun f hf => absurd hf List.not_mem_nil
        · exact ⟨by decide +kernel, by decide +kernel, by decide +kernel⟩
      head := by
        refine ⟨by decide +kernel, by decide +kernel, ?_, by decide +kernel⟩
        intro f hf
        cases List.mem_singleton.mp hf
        exact ⟨by decide +kernel, by decide +kernel, by decide +kernel, by decide +kernel⟩
      final := by unfold HeadText.Final; decide +kernel
      body := by
        have hz : Text.Spells 16 ['0'] 0 := .digit rfl
        have htwo : Text.Spells 16 ['0', '2'] 2 := hz.snoc (c := '2') (d := 2) rfl
        refine .chunked ?_ (by decide +kernel) ?_ ?_ ?_
        · rintro (h | h | h) <;> cases h
        · intro c hc
          cases List.mem_singleton.mp hc
          refine ⟨⟨htwo, by decide +kernel, ?_, by decide +kernel⟩, by decide +kernel⟩
          exact List.all_eq_true.mp (by decide +kernel)
        · exact ⟨hz, by decide +kernel, fun c hc => absurd hc List.not_mem_nil,
            by decide +kernel⟩
        · decide +kernel }

theorem greetingHead_wellFormed : greetingHead.WellFormed where
  body := fun _ h => by cases h
  answer :=
    { interims := fun i hi => absurd hi List.not_mem_nil
      head := by
        refine ⟨by decide +kernel, by decide +kernel, ?_, by decide +kernel⟩
        intro f hf
        rcases List.mem_cons.mp hf with rfl | hf
        · exact ⟨by decide +kernel, by decide +kernel, by decide +kernel, by decide +kernel⟩
        · cases List.mem_singleton.mp hf
          exact ⟨by decide +kernel, by decide +kernel, by decide +kernel, by decide +kernel⟩
      final := by unfold HeadText.Final; decide +kernel
      body := .absent (.inl rfl) }

end Exchange

namespace Connection

open Exchange

theorem answers_read_as_written_greeting :
    let bytes := script [greeting, greetingHead]
    let cuts := [bytes.take 24, bytes.drop 24]
    (Transport.ofReads []).Willing ∧ (∀ x ∈ [greeting, greetingHead], x.WellFormed) ∧
      Cuts cuts bytes ∧
      Converses (ofTransport { Transport.ofReads [] with reads := cuts.map .data })
        [greeting, greetingHead] := by
  have ht : (Transport.ofReads []).Willing := ⟨rfl, by decide, rfl⟩
  have hx : ∀ x ∈ [greeting, greetingHead], x.WellFormed := by
    intro x hx
    rcases List.mem_cons.mp hx with rfl | hx
    · exact greeting_wellFormed
    · exact List.mem_singleton.mp hx ▸ greetingHead_wellFormed
  have hc : Cuts [(script [greeting, greetingHead]).take 24, (script [greeting, greetingHead]).drop 24]
      (script [greeting, greetingHead]) := by
    refine ⟨by decide +kernel, ?_⟩
    rw [List.flatten_cons, List.flatten_singleton, List.take_append_drop]
  exact ⟨ht, hx, hc, answers_read_as_written _ ht hx hc⟩

end Connection

end Courier.Wire
