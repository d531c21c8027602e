import Courier.Proofs.Stream.Channel
import Courier.Stream.Subscription

/-! # What a reading can come to

A reading takes chunks off the channel until one gets through the filters, a filter fails, the
stream ends or there is nothing to be had. Each way is a rule of `Looks`, which also counts the
demand that is granted on the way.
-/

namespace Courier

/-- Demand granted by a reading: for want of any, and in the place of chunks withheld. -/
structure Grants where
  own : Nat
  replaced : Nat
  deriving DecidableEq, Repr

namespace Grants

def none : Grants := ⟨0, 0⟩

instance : Add Grants := ⟨fun g g' => ⟨g.own + g'.own, g.replaced + g'.replaced⟩⟩

@[simp] theorem own_none : none.own = 0 := rfl
@[simp] theorem own_add (g g' : Grants) : (g + g').own = g.own + g'.own := rfl
@[simp] theorem replaced_add (g g' : Grants) :
    (g + g').replaced = g.replaced + g'.replaced := rfl

end Grants

@[simp] def Polled.chunk? : Polled → Option Bytes
  | .chunk bytes => some bytes
  | _ => none

namespace Subscription

def lookGrants (auto : Bool) : Nat → Subscription → Channel → Grants
  | 0, _, _ => .none
  | looks + 1, s, ch =>
    let own : Grants := ⟨ch.ownGrant auto, 0⟩
    let ch := ch.primed auto
    match ch.queue with
    | chunk :: rest =>
      match Filter.pushAll s.filters chunk with
      | (.ok none, filters) =>
        own + ⟨0, 1⟩ +
          lookGrants auto looks { s with filters } (Channel.grant { ch with queue := rest } 1)
      | _ => own
    | [] => own

def pollGrants (auto : Bool) (s : Subscription) (ch : Channel) : Grants :=
  if s.done || ch.consumer.isAsleep then .none
  else lookGrants auto (ch.stored + 1) s { ch with consumer := ch.consumer.resume }

inductive Looks (auto : Bool) (cells : Cells) : Subscription → Channel → Grants → Pull → Prop

  | spent {s : Subscription} {ch : Channel} : Looks auto cells s ch .none ⟨.pending, s, ch, cells⟩

  | taken {s : Subscription} {ch : Channel} {chunk out : Bytes} {rest : List Bytes}
      {filters : List Filter} (hq : (ch.primed auto).queue = chunk :: rest)
      (hf : Filter.pushAll s.filters chunk = (.ok (some out), filters)) :
      Looks auto cells s ch ⟨ch.ownGrant auto, 0⟩
        ⟨.chunk out, { s with filters }, { ch.primed auto with queue := rest }, cells⟩

  | withheld {s : Subscription} {ch : Channel} {chunk : Bytes} {rest : List Bytes}
      {filters : List Filter} {g : Grants} {p : Pull}
      (hq : (ch.primed auto).queue = chunk :: rest)
      (hf : Filter.pushAll s.filters chunk = (.ok none, filters))
      (next : Looks auto cells { s with filters }
        (Channel.grant { ch.primed auto with queue := rest } 1) g p) :
      Looks auto cells s ch (⟨ch.ownGrant auto, 0⟩ + ⟨0, 1⟩ + g) p

  | refused {s : Subscription} {ch : Channel} {chunk : Bytes} {rest : List Bytes}
      {filters : List Filter} {e : Error} (hq : (ch.primed auto).queue = chunk :: rest)
      (hf : Filter.pushAll s.filters chunk = (.error e, filters)) :
      Looks auto cells s ch ⟨ch.ownGrant auto, 0⟩
        ⟨.failed e, ⟨filters, true⟩, Channel.cancel { ch.primed auto with queue := rest }, cells⟩

  | closed {s : Subscription} {ch : Channel} {t : Terminal}
      (hq : (ch.primed auto).queue = []) (ht : (ch.primed auto).terminal = some t) :
      Looks auto cells s ch ⟨ch.ownGrant auto, 0⟩ (s.close t (ch.primed auto) cells)

  | waits {s : Subscription} {ch : Channel}
      (hq : (ch.primed auto).queue = []) (ht : (ch.primed auto).terminal = none) :
      Looks auto cells s ch ⟨ch.ownGrant auto, 0⟩
        ⟨.pending, s, { ch.primed auto with consumer := (ch.primed auto).consumer.wait }, cells⟩

theorem looks_look (auto : Bool) (cells : Cells) (looks : Nat) (s : Subscription) (ch : Channel) :
    Looks auto cells s ch (lookGrants auto looks s ch) (look auto looks s ch cells) := by
  induction looks generalizing s ch with
  | zero => exact .spent
  | succ looks ih =>
    have hp : (if auto = true then ch.topUp else ch) = ch.primed auto := rfl
    simp only [look, lookGrants, hp]
    cases hq : (ch.primed auto).queue with
    | nil =>
      cases ht : (ch.primed auto).terminal with
      | none => simpa only [hq, ht] using Looks.waits hq ht
      | some t => exact .closed hq ht
    | cons chunk rest =>
      rcases hf : Filter.pushAll s.filters chunk with ⟨_ | _ | out, filters⟩
      · simpa only [hf] using Looks.refused hq hf
      · simpa only [hf] using Looks.withheld hq hf (ih _ _)
      · simpa only [hf] using Looks.taken hq hf

theorem channel_close (s : Subscription) (t : Terminal) (ch : Channel) (cells : Cells) :
    (s.close t ch cells).channel = { ch with terminal := none } := by
  unfold close
  cases t with
  | failed e => rfl
  | completed => rcases Filter.completeAll s.filters cells with ⟨_ | _, _, _⟩ <;> rfl

theorem chunk?_close (s : Subscription) (t : Terminal) (ch : Channel) (cells : Cells) :
    (s.close t ch cells).outcome.chunk? = none := by
  unfold close
  cases t with
  | failed e => rfl
  | completed => rcases Filter.completeAll s.filters cells with ⟨_ | _, _, _⟩ <;> rfl

theorem poll_of_done {s : Subscription} {ch : Channel} (auto : Bool) (cells : Cells)
    (h : s.done = true) : s.poll auto ch cells = ⟨.finished, s, ch, cells⟩ := by
  simp [poll, h]

theorem poll_cases (auto : Bool) (s : Subscription) (ch : Channel) (cells : Cells) :
    (s.done = true ∧ s.pollGrants auto ch = .none ∧
      s.poll auto ch cells = ⟨.finished, s, ch, cells⟩) ∨
    (s.done = false ∧ s.pollGrants auto ch = .none ∧
      s.poll auto ch cells = ⟨.pending, s, ch, cells⟩) ∨
    (s.done = false ∧ Looks auto cells s { ch with consumer := ch.consumer.resume }
      (s.pollGrants auto ch) (s.poll auto ch cells)) := by
  cases hd : s.done with
  | true => exact .inl ⟨rfl, by simp [pollGrants, hd], poll_of_done auto cells hd⟩
  | false =>
    cases ha : ch.consumer.isAsleep with
    | true => exact .inr (.inl ⟨rfl, by simp [pollGrants, ha], by simp [poll, hd, ha]⟩)
    | false =>
      refine .inr (.inr ⟨rfl, ?_⟩)
      simp only [pollGrants, poll, hd, ha, Bool.or_self, Bool.false_eq_true, if_false]
      exact looks_look ..

end Subscription

end Courier
