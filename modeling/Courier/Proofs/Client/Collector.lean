import Courier.Client.Handler

/-! # Handlers that collect the whole body

Such a handler subscribes, reads until it is told of an end, and makes its outcome of all the chunks
it was given. It never cancels and never lets go of a body it has not read to the end. Some keep the
head of the response as well.
-/

namespace Courier

open Handler

variable {η α : Type}

structure Collector (h : Handler η α) where
  /-- Holds between the start of an attempt and the body. -/
  fresh : η → Prop
  stage : η → Stage
  gathered : η → Bytes
  body : α → Bytes
  fresh_prepare : ∀ s, fresh (h.prepare s)
  fresh_headersReceived : ∀ head s, fresh s → fresh (h.headersReceived head s)
  opens : ∀ n s, fresh s → stage (h.openBody n s) = .opening ∧ gathered (h.openBody n s) = []
  subscribes : ∀ s, stage s = .opening → h.move s = .subscribe
  reads : ∀ s, stage s = .reading →
    h.move s = .pull ∨ h.move s = .next ∨ ∃ n, h.move s = .request n
  finishes : ∀ s r, stage s = .ended r → h.move s = .finish r
  observe_subscribed : ∀ s, stage s = .opening →
    stage (h.observe (.subscribed (.ok ())) s) = .reading ∧
      gathered (h.observe (.subscribed (.ok ())) s) = gathered s
  observe_done : ∀ s, stage s = .reading →
    stage (h.observe .done s) = .reading ∧ gathered (h.observe .done s) = gathered s
  observe_chunk : ∀ bytes s, stage s = .reading →
    stage (h.observe (.item (some (.ok bytes))) s) = .reading ∧
      gathered (h.observe (.item (some (.ok bytes))) s) = gathered s ++ bytes
  observe_error : ∀ e s, stage s = .reading →
    stage (h.observe (.item (some (.error e))) s) = .ended (.error e)
  observe_end : ∀ s, stage s = .reading →
    stage (h.observe (.item none) s) = .ended (.ok ()) ∧
      gathered (h.observe (.item none) s) = gathered s
  complete : ∀ s out, stage s = .ended (.ok ()) → (h.complete s).1 = .ok out →
    body out = gathered s

namespace Collector

def buffering : Collector Buffering.handler where
  fresh _ := True
  stage b := b.stage
  gathered b :=
    match b.stage with
    | .ended _ => b.body
    | _ => b.gathered
  body r := r.body
  fresh_prepare _ := trivial
  fresh_headersReceived _ _ _ := trivial
  opens _ _ _ := ⟨rfl, rfl⟩
  subscribes s hs := by simp [Buffering.handler, Stage.move, hs]
  reads s hs := .inl (by simp [Buffering.handler, Stage.move, hs])
  finishes s r hs := by simp [Buffering.handler, Stage.move, hs]
  observe_subscribed s hs := ⟨rfl, by simp [Buffering.handler, Buffering.observe, hs]⟩
  observe_done s hs := ⟨hs, rfl⟩
  observe_chunk bytes s hs := ⟨hs, by simp [Buffering.handler, Buffering.observe, hs]⟩
  observe_error _ _ _ := rfl
  observe_end s hs := ⟨rfl, by simp [Buffering.handler, Buffering.observe, hs]⟩
  complete s out hs hc := by
    simp only [Buffering.handler] at hc
    cases hh : s.head with
    | none => simp [hh] at hc
    | some head =>
      simp only [hh, Except.ok.injEq] at hc
      simp [← hc, hs]

def recording : Collector Recording.handler where
  fresh r := r.body = []
  stage r := r.stage
  gathered r := r.body
  body bytes := bytes
  fresh_prepare _ := rfl
  fresh_headersReceived _ _ hs := hs
  opens _ _ hs := ⟨rfl, hs⟩
  subscribes s hs := by simp [Recording.handler, Stage.move, hs]
  reads s hs := .inl (by simp [Recording.handler, Stage.move, hs])
  finishes s r hs := by simp [Recording.handler, Stage.move, hs]
  observe_subscribed _ _ := ⟨rfl, rfl⟩
  observe_done _ hs := ⟨hs, rfl⟩
  observe_chunk _ _ hs := ⟨hs, rfl⟩
  observe_error _ _ _ := rfl
  observe_end _ _ := ⟨rfl, rfl⟩
  complete s out _ hc := by
    cases hc
    rfl

end Collector

/-- A handler that shows in its outcome the head it was shown last. -/
structure Heading (h : Handler η α) where
  kept : η → Option ResponseHead
  head : α → ResponseHead
  headersReceived : ∀ head s, kept (h.headersReceived head s) = some head
  openBody : ∀ n s, kept (h.openBody n s) = kept s
  observe : ∀ r s, kept (h.observe r s) = kept s
  complete : ∀ s out, (h.complete s).1 = .ok out → kept s = some (head out)

def Heading.buffering : Heading Buffering.handler where
  kept b := b.head
  head r := r.head
  headersReceived _ _ := rfl
  openBody _ _ := rfl
  observe r s := by
    simp only [Buffering.handler, Buffering.observe]
    split <;> rfl
  complete s out hc := by
    simp only [Buffering.handler] at hc
    cases hh : s.head with
    | none => simp [hh] at hc
    | some head =>
      simp only [hh, Except.ok.injEq] at hc
      simp [← hc]

end Courier
