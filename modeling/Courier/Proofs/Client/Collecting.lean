import Courier.Proofs.Client.Gathering
import Courier.Proofs.Integrity.Splitter

/-! # Collecting a body through the splitter

The splitter stands alone between the pump and a handler that collects the body. A handler that is
told of a good end has all of the payload, and its digest has been checked.
-/

namespace Courier

open Trailing (Splitter)

namespace Filter

theorem pushAll_trailing {s s' : Splitter} {chunk : Bytes}
    {r : Except Trailing.Fault (Option Bytes)} (h : s.push chunk = (r, s')) :
    pushAll [.trailing s] chunk = (r.mapError Trailing.Fault.error, [.trailing s']) := by
  rcases r with f | _ | out <;> simp [pushAll, push, h] <;> rfl

theorem completeAll_trailing (s : Splitter) (cells : Cells) :
    completeAll [.trailing s] cells =
      (s.finish.mapError Trailing.Fault.error, [.trailing s], cells) := by
  rcases hf : s.finish with f | ⟨⟩ <;> simp [completeAll, complete, hf] <;> rfl

theorem Relays.tracks {n : Nat} {sp : Splitter} {chunks : List Bytes} {bytes : Bytes}
    {now : List Filter} (h : Relays [.trailing sp] chunks bytes now)
    (hn : Trailing.digestLength ≤ n) (hsp : sp.Tracks n [] []) :
    ∃ sp', now = [.trailing sp'] ∧ sp'.Tracks n chunks.flatten bytes := by
  obtain ⟨out, hr, rfl⟩ := h
  refine relay_induction (P := fun chunks out now =>
    ∃ sp', now = [.trailing sp'] ∧ sp'.Tracks n chunks.flatten out.flatten) ⟨sp, rfl, hsp⟩ ?_ hr
  rintro chunks out _ chunk passed now ⟨sp', rfl, ht⟩ hf
  rcases hp : sp'.push chunk with ⟨r, sp''⟩
  rw [pushAll_trailing hp] at hf
  rcases r with f | _ | released <;> cases hf
  · exact ⟨sp'', rfl, by simpa using ht.push hn hp⟩
  · exact ⟨sp'', rfl, by simpa using ht.push hn hp⟩

end Filter

namespace Streaming

open Handler

variable {κ η α : Type} {h : Handler η α} {k : Collector h} {n : Nat} {s s' : Streaming κ}
  {state : η} {delivered : Bytes}

/-- How far a handler has got with a body of `n` bytes, some of which have been delivered. -/
inductive Collecting (k : Collector h) (n : Nat) (s : Streaming κ) (state : η)
    (delivered : Bytes) : Prop

  | mk {sp : Splitter} {chunks : List Bytes} (hsp : sp.Tracks n [] [])
      (hd : chunks.flatten = delivered) (hg : Gathering k [.trailing sp] s state chunks)

theorem collecting_start {ω : Type} (net : Network ω κ) (now limit : Nat) (l : Lease κ) (w : ω)
    {o : Outlet} {sp : Splitter} (hf : o.filters = [.trailing sp]) (hsp : sp.Tracks n [] [])
    (declared : Option Nat) (hs : k.fresh state) :
    Collecting k n (start net now limit l (.wire o) w) (h.openBody declared state) [] :=
  .mk hsp rfl (hf ▸ gathering_start net now limit l w o declared hs)

theorem Collecting.withTurn (hc : Collecting k n s state delivered) (p : Party) :
    Collecting k n { s with turn := p } state delivered := by
  obtain ⟨hsp, hd, hg⟩ := hc
  exact .mk hsp hd (hg.withTurn p)

theorem Collecting.moved {read : Option (Except Error (Option Bytes))}
    (hc : Collecting k n s state delivered) (hm : Moved s s' read) :
    Collecting k n s' state (delivered ++ bytesOf read) := by
  obtain ⟨hsp, rfl, hg⟩ := hc
  refine .mk hsp ?_ (hg.moved hm)
  rw [List.flatten_append, flatten_chunksOf]

theorem Collecting.handled (hc : Collecting k n s state delivered) (cells : Cells) :
    Collecting k n (s.stepHandler h state cells).1 (s.stepHandler h state cells).2.1
      delivered := by
  obtain ⟨hsp, hd, hg⟩ := hc
  exact .mk hsp hd (hg.handled cells)

/-- A body that has come to a good end is whole, and its payload is what has been gathered. -/
theorem Collecting.outcome (hc : Collecting k n s state delivered)
    (hn : Trailing.digestLength ≤ n) {e : BodyEnd} (ho : s.outcome? = some (.ok e)) :
    k.stage state = .ended (.ok ()) ∧
      delivered = k.gathered state ++ md5 (k.gathered state) ∧ delivered.length = n := by
  obtain ⟨hsp, rfl, hg⟩ := hc
  obtain ⟨hstage, _, now, cells, hr, hcomplete⟩ := hg.outcome ho
  obtain ⟨sp, rfl, ht⟩ := hr.tracks hn hsp
  rw [Filter.completeAll_trailing] at hcomplete
  cases hf : sp.finish with
  | error f =>
    rw [hf] at hcomplete
    cases hcomplete
  | ok _ => exact ⟨hstage, ht.finish hf⟩

end Streaming

end Courier
