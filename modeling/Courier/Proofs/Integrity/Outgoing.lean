import Courier.Proofs.Integrity.Uploading

/-! # What the integrity hooks send

What the hook makes of a request follows from the request and from the settings and the kind of
operation in effect. What it notes for the way back, in the attributes or with a digest of the body,
has no part in it, so a request that passes the hook again goes out the same.
-/

namespace Courier

/-! ## Bodies that give the same again -/

namespace ByteStream

/-- These bytes are all that can be read of the stream, whatever the cells hold. -/
def Spells (s : ByteStream) (bytes : Bytes) : Prop :=
  ∀ c, (s.readAll c).1.flatten = bytes

theorem spells_ofBytes (bytes : Bytes) : (ofBytes bytes).Spells bytes := by
  intro c
  obtain ⟨chunks, hr, hc⟩ := readAll_ofBytes bytes c
  rw [hr]
  exact hc

/-- What comes out of the stream, and how it ends. -/
def given (s : ByteStream) : List Bytes × Polled :=
  ((s.readAll .empty).1, (s.readAll .empty).2.1)

theorem readAll_given (s : ByteStream) (c : Cells) :
    ∃ c', s.readAll c = (s.given.1, s.given.2, c') := by
  unfold given readAll
  cases s.subscribe with
  | error e => exact ⟨c, rfl⟩
  | ok taken =>
    obtain ⟨v, hv⟩ := taken.1.pullAll_cells (taken.2.channel.stored + 1) taken.2.channel .empty c
    exact ⟨v, by simp only [Subscription.readAll, hv]⟩

theorem given_digesting (s : ByteStream) (slot : Slot) :
    (s.withFilter (.digestInto slot)).given = s.given := by
  unfold given readAll
  rw [subscribe_digesting]
  cases hs : s.subscribe with
  | error e => rfl
  | ok taken =>
    have hp : (taken.1.digesting slot .start).pullAll _ _ .empty = _ :=
      Subscription.pullAll_digesting (taken.2.channel.stored + 1) taken.2.channel .empty
        (done_subscribe hs)
    simp only [Except.map, Subscription.readAll, hp, Pull.outcome_digesting]

theorem Spells.digesting {s : ByteStream} {bytes : Bytes} (hs : s.Spells bytes) (slot : Slot) :
    (s.withFilter (.digestInto slot)).Spells bytes := by
  intro c
  obtain ⟨d, hd⟩ := s.readAll_given c
  obtain ⟨d', hd'⟩ := (s.withFilter (.digestInto slot)).readAll_given c
  have hb := hs c
  rw [hd] at hb
  rw [hd', given_digesting]
  exact hb

end ByteStream

namespace BodyProvider

/-- Each opening gives these bytes anew. -/
def Reopens (p : BodyProvider) (bytes : Bytes) : Prop :=
  ∀ n, (p.stream n).Spells bytes

theorem Reopens.opened {p : BodyProvider} {bytes : Bytes} (hp : p.Reopens bytes) (n : Nat) :
    (p.opened n).Spells bytes := by
  unfold BodyProvider.opened
  have hs := hp n
  generalize p.digests = slots, p.stream n = s at hs ⊢
  induction slots generalizing s with
  | nil => exact hs
  | cons slot slots ih => exact ih _ (hs.digesting slot)

end BodyProvider

namespace RequestBody

variable {b b' : RequestBody} {bytes : Option Bytes}

/-- A body that can be sent again, with the bytes it has if it has any. -/
inductive Reopens : RequestBody → Option Bytes → Prop

  | empty : Reopens .empty none

  | buffered (bytes : Bytes) : Reopens (.buffered bytes) (some bytes)

  | streaming {p : BodyProvider} {bytes : Bytes} (hp : p.Reopens bytes) :
      Reopens (.streaming p) (some bytes)

theorem Reopens.openStream (hb : b.Reopens bytes) (c : Cells) :
    Option.Rel ByteStream.Spells (b.openStream c).1 bytes := by
  cases hb with
  | empty => exact .none
  | buffered bytes => exact .some (ByteStream.spells_ofBytes bytes)
  | @streaming p _ hp => exact .some (hp.opened (p.openings c))

/-- The second body is the first, but for a slot that it may be digested into. -/
inductive Covers : RequestBody → RequestBody → Prop

  | same (b : RequestBody) : Covers b b

  | digested (p : BodyProvider) (slot : Slot) :
      Covers (.streaming p) (.streaming (p.digestingInto slot))

theorem Covers.reopens (hc : Covers b b') (hb : b.Reopens bytes) : b'.Reopens bytes := by
  cases hc with
  | same b => exact hb
  | digested p slot =>
    cases hb with
    | streaming hp => exact .streaming (p := p.digestingInto slot) hp

theorem Covers.head_eq {r : Request} (hc : Covers r.body b) : (r.withBody b).head = r.head := by
  obtain ⟨method, address, headers, body⟩ := r
  cases hc <;> rfl

end RequestBody

/-! ## The hook -/

namespace Integrity

open RequestBody (Covers)

variable {ξ : Type} {settings : Settings}

/-- The request as it goes out under these settings, but for a slot that its body may be digested
into. -/
def outgoing (settings : Settings) (kind : OperationKind) (r : Request) : Request :=
  let served := if skipsServer settings kind r.headers then r else addServerDigest r
  if kind = .download && !skipsClientRequest settings kind r.headers then
    { served with headers := served.headers.insert trailingRequest appendMd5 }
  else served

/-- The hook asks for a trailing checksum. -/
def asksTrailing (settings : Settings) (kind : OperationKind) (r : Request) : Bool :=
  kind = .download && !skipsClientRequest settings kind r.headers

/-- The hook notes the digest of the body, if there is one. -/
def notesUpload (settings : Settings) (kind : OperationKind) (r : Request) : Bool :=
  kind = .upload && !skipsClientRequest settings kind r.headers

theorem effective_congr {a b : Attributes} (hk : b.get? .operationKind = a.get? .operationKind)
    (hs : b.get? .settings = a.get? .settings) : effective settings b = effective settings a := by
  simp only [effective, hk, hs]

theorem effective_forget (a : Attributes) :
    effective settings (forget a) = effective settings a :=
  effective_congr (get?_forget _ _ (by decide) (by decide))
    (get?_forget _ _ (by decide) (by decide))

theorem effective_put {β : Type} (a : Attributes) (k : AttributeKey β) (value : β)
    (hk : AttributeKey.operationKind.name ≠ k.name) (hs : AttributeKey.settings.name ≠ k.name) :
    effective settings (a.put k value) = effective settings a :=
  effective_congr (Attributes.get?_put_of_ne _ _ _ _ hk) (Attributes.get?_put_of_ne _ _ _ _ hs)

theorem covers_noteUpload (settings : Settings) (r : Request) (state : HookState ξ) :
    ∃ b, (noteUpload r state).1 = .ok (r.withBody b) ∧ Covers r.body b ∧
      effective settings (noteUpload r state).2.attributes =
        effective settings state.attributes := by
  have hput (slot : Slot) :
      effective settings (state.attributes.put .uploadDigest slot) =
        effective settings state.attributes :=
    effective_put _ _ _ (by decide) (by decide)
  obtain ⟨method, address, headers, body⟩ := r
  cases body with
  | empty => exact ⟨_, rfl, .same _, rfl⟩
  | buffered bytes => exact ⟨_, rfl, .same _, hput _⟩
  | streaming p => exact ⟨_, rfl, .digested p _, hput _⟩

theorem body_served (settings : Settings) (kind : OperationKind) (r : Request) :
    (if skipsServer settings kind r.headers then r else addServerDigest r).body = r.body := by
  split
  · rfl
  · exact body_addServerDigest r

/-- The hook asks for a checksum, or notes the body, or sends the request on as it is now. What
earlier attempts left is forgotten either way. -/
theorem onRequest_cases (settings : Settings) (r : Request) (s : HookState ξ) :
    let e := effective settings s.attributes
    let q := outgoing e.1 e.2 r
    let bare := { s with attributes := forget s.attributes }
    asksTrailing e.1 e.2 r = true ∧ notesUpload e.1 e.2 r = false ∧ onRequest settings r s =
        (.ok q, { bare with attributes := bare.attributes.put .trailingRequested true }) ∨
      asksTrailing e.1 e.2 r = false ∧ notesUpload e.1 e.2 r = true ∧
        onRequest settings r s = noteUpload q bare ∨
      asksTrailing e.1 e.2 r = false ∧ notesUpload e.1 e.2 r = false ∧
        onRequest settings r s = (.ok q, bare) := by
  intro e
  have he : effective settings s.attributes = e := rfl
  clear_value e
  obtain ⟨settings', kind⟩ := e
  unfold onRequest outgoing asksTrailing notesUpload
  simp only [he]
  cases hskip : skipsClientRequest settings' kind r.headers with
  | true =>
    refine .inr (.inr ⟨Bool.and_false _, Bool.and_false _, ?_⟩)
    simp only [Bool.not_true, Bool.and_false, Bool.false_eq_true, if_false, if_true]
  | false =>
    simp only [Bool.not_false, Bool.and_true, Bool.false_eq_true, if_false]
    cases kind with
    | download => exact .inl ⟨rfl, rfl, rfl⟩
    | upload => exact .inr (.inl ⟨rfl, rfl, rfl⟩)
    | md5Required => exact .inr (.inr ⟨rfl, rfl, rfl⟩)
    | other => exact .inr (.inr ⟨rfl, rfl, rfl⟩)

theorem body_outgoing (settings : Settings) (kind : OperationKind) (r : Request) :
    (outgoing settings kind r).body = r.body := by
  unfold outgoing
  dsimp only
  split
  · exact body_served settings kind r
  · exact body_served settings kind r

theorem onRequest_outgoing (settings : Settings) (r : Request) (state : HookState ξ) :
    let e := effective settings state.attributes
    ∃ b, (onRequest settings r state).1 = .ok ((outgoing e.1 e.2 r).withBody b) ∧
      Covers r.body b ∧ effective settings (onRequest settings r state).2.attributes = e := by
  intro e
  have hf : effective settings (forget state.attributes) = e := effective_forget _
  have hbody : (outgoing e.1 e.2 r).body = r.body := body_outgoing e.1 e.2 r
  obtain ⟨-, -, ho⟩ | ⟨-, -, ho⟩ | ⟨-, -, ho⟩ := onRequest_cases settings r state
  · rw [ho]
    refine ⟨(outgoing e.1 e.2 r).body, rfl, hbody ▸ .same _, ?_⟩
    exact (effective_put _ .trailingRequested true (by decide) (by decide)).trans hf
  · rw [ho]
    obtain ⟨b, hn, hc, ha⟩ := covers_noteUpload settings (outgoing e.1 e.2 r)
      { state with attributes := forget state.attributes }
    exact ⟨b, hn, hbody ▸ hc, ha.trans hf⟩
  · rw [ho]
    exact ⟨(outgoing e.1 e.2 r).body, rfl, hbody ▸ .same _, hf⟩

theorem onRequest_resends {r r' : Request} {state state' : HookState ξ} {bytes : Option Bytes}
    (hk : onRequest settings r state = (.ok r', state')) (hb : r.body.Reopens bytes) :
    let e := effective settings state.attributes
    r'.head = (outgoing e.1 e.2 r).head ∧ r'.body.Reopens bytes ∧
      effective settings state'.attributes = e := by
  intro e
  obtain ⟨b, hon, hc, he⟩ := onRequest_outgoing settings r state
  rw [hk] at hon he
  cases hon
  refine ⟨?_, hc.reopens hb, he⟩
  exact Covers.head_eq ((body_outgoing e.1 e.2 r).symm ▸ hc)

end Integrity

end Courier
