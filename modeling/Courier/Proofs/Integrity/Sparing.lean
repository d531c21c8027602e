import Courier.Proofs.Integrity.Isolation

/-! # What the hook leaves alone on the way out

The hook may add two header fields, may layer a digest on the body, and keeps two notes in the
attributes. All else of the request, of what its body gives, and of the attributes is as it was.
-/

namespace Courier

/-! ## Attributes -/

namespace Attributes

theorem erase_erase (a : Attributes) (name : String) :
    (a.erase name).erase name = a.erase name := by
  simp [erase, List.filter_filter]

theorem erase_comm (a : Attributes) (name other : String) :
    (a.erase name).erase other = (a.erase other).erase name := by
  simp [erase, List.filter_filter, Bool.and_comm]

theorem erase_put {β : Type} (a : Attributes) (k : AttributeKey β) (value : β) :
    (a.put k value).erase k.name = a.erase k.name := by
  simp [erase, put, List.filter_filter]

end Attributes

/-! ## Bodies -/

namespace RequestBody.Covers

variable {b b' : RequestBody}

/-- A digest that is layered on a body shows neither in what is declared, nor in whether it can be
sent again, nor in what it gives and how often it has been opened then. -/
theorem isPresent_eq (h : Covers b b') : b'.isPresent = b.isPresent := by
  cases h <;> rfl

theorem declared_eq (h : Covers b b') : b'.declared = b.declared := by
  cases h <;> rfl

theorem isReplayable_eq (h : Covers b b') (c : Cells) : b'.isReplayable c = b.isReplayable c := by
  cases h <;> rfl

theorem counts_openStream (h : Covers b b') (c : Cells) :
    (b'.openStream c).2.counts = (b.openStream c).2.counts := by
  cases h with
  | same b => rfl
  | digested p slot =>
    simp only [openStream, BodyProvider.openStream_digestingInto]
    rfl

end RequestBody.Covers

theorem RequestBody.eq_of_buffered? {b : RequestBody} {bytes : Bytes}
    (h : b.buffered? = some bytes) : b = .buffered bytes := by
  cases b <;> cases h
  rfl

theorem RequestBody.counts_readOut (b : RequestBody) (c : Cells) :
    (b.readOut c).2.2.counts = (b.openStream c).2.counts := by
  unfold readOut
  rcases b.openStream c with ⟨_ | s, d⟩
  · rfl
  · exact s.kept_readAll Cells.ignores_counts d

/-! ## The hook -/

namespace Integrity

open RequestBody (Covers)

variable {ξ : Type} {settings : Settings} {kind : OperationKind} {r q : Request}

/-- What the hook puts into the head: nothing, the digest of a body in memory that brings none, or
the wish for a trailing checksum. -/
inductive Adds (settings : Settings) (kind : OperationKind) (r : Request) : Request → Prop

  | nothing (hs : skipsServer settings kind r.headers = true ∨ r.body.buffered? = none)
      (ha : asksTrailing settings kind r = false) : Adds settings kind r r

  | digest {bytes : Bytes} (hs : skipsServer settings kind r.headers = false)
      (hb : r.body.buffered? = some bytes) (ha : asksTrailing settings kind r = false) :
      Adds settings kind r
        { r with headers := r.headers.insert Headers.contentMd5 (Base64.encode (md5 bytes)) }

  | wish (hs : skipsServer settings kind r.headers = true)
      (ha : asksTrailing settings kind r = true) :
      Adds settings kind r { r with headers := r.headers.insert trailingRequest appendMd5 }

theorem of_not_skipsServer (h : skipsServer settings kind r.headers = false) :
    (kind = .upload ∨ kind = .md5Required) ∧ r.headers.contains Headers.contentMd5 = false := by
  cases kind with
  | upload =>
    simp only [skipsServer, Bool.or_eq_false_iff] at h
    exact ⟨.inl rfl, h.2⟩
  | md5Required => exact ⟨.inr rfl, h⟩
  | download => cases h
  | other => cases h

theorem asksTrailing_of_not_skipsServer (h : skipsServer settings kind r.headers = false) :
    asksTrailing settings kind r = false := by
  rcases (of_not_skipsServer h).1 with rfl | rfl <;> rfl

theorem adds_outgoing (settings : Settings) (kind : OperationKind) (r : Request) :
    Adds settings kind r (outgoing settings kind r) := by
  have ho : outgoing settings kind r =
      let served := if skipsServer settings kind r.headers then r else addServerDigest r
      if asksTrailing settings kind r then
        { served with headers := served.headers.insert trailingRequest appendMd5 }
      else served := rfl
  rw [ho]
  cases hs : skipsServer settings kind r.headers with
  | true =>
    cases ha : asksTrailing settings kind r with
    | true => exact .wish hs ha
    | false => exact .nothing (.inl hs) ha
  | false =>
    have ha := asksTrailing_of_not_skipsServer hs
    rw [ha]
    unfold addServerDigest
    cases hb : r.body.buffered? with
    | none => exact .nothing (.inr hb) ha
    | some bytes => exact .digest hs hb ha

/-- The request that goes out is the one that was given, but for the digest in its head, the wish
for a checksum, and what its body may be digested into. -/
structure Spares (r q : Request) : Prop where
  method : q.method = r.method
  endpoint : q.endpoint = r.endpoint
  path : q.path = r.path
  present : q.body.isPresent = r.body.isPresent
  declared : q.body.declared = r.body.declared
  replayable : ∀ c, q.body.isReplayable c = r.body.isReplayable c
  chunks : ∀ c, (q.body.readOut c).1 = (r.body.readOut c).1
  ending : ∀ c, (q.body.readOut c).2.1 = (r.body.readOut c).2.1
  counts : ∀ c, (q.body.readOut c).2.2.counts = (r.body.readOut c).2.2.counts
  headers : q.headers.besides [Headers.contentMd5, trailingRequest] =
    r.headers.besides [Headers.contentMd5, trailingRequest]

theorem Adds.spares (ha : Adds settings kind r q) {b : RequestBody} (hc : Covers r.body b) :
    Spares r (q.withBody b) := by
  have hgiven (c : Cells) := hc.given_eq c
  have hread (c : Cells) : (b.readOut c).1 = (r.body.readOut c).1 ∧
      (b.readOut c).2.1 = (r.body.readOut c).2.1 := by
    obtain ⟨d, hd⟩ := b.readOut_given c
    obtain ⟨d', hd'⟩ := r.body.readOut_given c
    rw [hd, hd', hgiven]
    exact ⟨rfl, rfl⟩
  constructor
  case present => exact hc.isPresent_eq
  case declared => exact hc.declared_eq
  case replayable => exact hc.isReplayable_eq
  case chunks => exact fun c => (hread c).1
  case ending => exact fun c => (hread c).2
  case counts =>
    intro c
    rw [RequestBody.counts_readOut, RequestBody.counts_readOut]
    exact hc.counts_openStream c
  case headers =>
    cases ha with
    | nothing _ _ => rfl
    | digest _ _ _ => exact Headers.besides_insert _ (by simp)
    | wish _ _ => exact Headers.besides_insert _ (by simp)
  all_goals cases ha <;> rfl

/-- The digest that a request brings along for the server stays as it is. One is added where none is
to be left out and the body is in memory, which takes a kind of operation that has it checked and a
request that brings none; it is the digest of that body. -/
inductive KeepsDigest (skips : Bool) (kind : OperationKind) (r q : Request) : Prop

  | kept (hs : skips = true ∨ r.body.buffered? = none)
      (hq : q.headers.under Headers.contentMd5 = r.headers.under Headers.contentMd5)

  | added {bytes : Bytes} (hs : skips = false) (hk : kind = .upload ∨ kind = .md5Required)
      (hb : r.body = .buffered bytes) (hn : r.headers.contains Headers.contentMd5 = false)
      (hq : q.headers.all Headers.contentMd5 = [Base64.encode (md5 bytes)])

theorem Adds.keepsDigest (ha : Adds settings kind r q) (b : RequestBody) :
    KeepsDigest (skipsServer settings kind r.headers) kind r (q.withBody b) := by
  cases ha with
  | nothing hs _ => exact .kept hs rfl
  | digest hs hb _ =>
    obtain ⟨hk, hn⟩ := of_not_skipsServer hs
    exact .added hs hk (RequestBody.eq_of_buffered? hb) hn (Headers.all_insert _ _ _)
  | wish hs _ => exact .kept (.inl hs) (Headers.under_insert_of_ne _ (by decide))

/-- The wish for a trailing checksum goes out just where it is made and noted. -/
inductive NotesWish (asks : Bool) (r q : Request) (a : Attributes) : Prop

  | noted (h : asks = true) (ha : a.get? .trailingRequested = some true)
      (hq : q.headers.all trailingRequest = [appendMd5])

  | absent (h : asks = false) (ha : a.contains .trailingRequested = false)
      (hq : q.headers.under trailingRequest = r.headers.under trailingRequest)

theorem Adds.notesWish (ha : Adds settings kind r q) (b : RequestBody) {a : Attributes}
    (hn : a.lookup AttributeKey.trailingRequested.name =
      if asksTrailing settings kind r then some (.flag true) else none) :
    NotesWish (asksTrailing settings kind r) r (q.withBody b) a := by
  cases ha with
  | nothing _ ha => exact .absent ha (by simp [Attributes.contains, hn, ha]) rfl
  | digest _ _ ha =>
    refine .absent ha (by simp [Attributes.contains, hn, ha]) ?_
    exact Headers.under_insert_of_ne _ (by decide)
  | wish _ ha =>
    refine .noted ha ?_ (Headers.all_insert _ _ _)
    rw [Attributes.get?, hn, ha]
    rfl

theorem forget_forget (a : Attributes) : forget (forget a) = forget a := by
  simp only [forget, Attributes.remove]
  rw [Attributes.erase_comm _ AttributeKey.uploadDigest.name, Attributes.erase_erase,
    Attributes.erase_erase]

theorem forget_put {β : Type} (a : Attributes) {k : AttributeKey β}
    (hk : k.name = AttributeKey.trailingRequested.name ∨ k.name = AttributeKey.uploadDigest.name)
    (value : β) : forget (a.put k value) = forget a := by
  simp only [forget, Attributes.remove]
  rcases hk with hk | hk
  · rw [← hk, Attributes.erase_put]
  · rw [← hk, Attributes.erase_comm, Attributes.erase_put, Attributes.erase_comm]

theorem forget_onRequest (settings : Settings) (r : Request) (s : HookState ξ) :
    forget (onRequest settings r s).2.attributes = forget s.attributes := by
  obtain ⟨-, -, ho⟩ | ⟨-, -, ho⟩ | ⟨-, -, ho⟩ := onRequest_cases settings r s
  · rw [ho]
    exact (forget_put _ (.inl rfl) _).trans (forget_forget _)
  · rw [ho]
    unfold noteUpload
    split
    · exact forget_forget _
    · exact (forget_put _ (.inr rfl) _).trans (forget_forget _)
    · exact (forget_put _ (.inr rfl) _).trans (forget_forget _)
  · rw [ho]
    exact forget_forget _

/-- The hook refuses no request. Method, endpoint and path are as they were, and so is the body in
all that is declared of it, that it gives and that becomes of it. Of the header fields at most two
change: the digest for the server, which is added where it is not to be left out and never in place
of one that is there, and the wish for a trailing checksum, which goes out as the caller has it
unless it is made and noted in the attributes. Of the attributes only the two notes change. -/
theorem request_hook_spares (settings : Settings) (r : Request) (s : HookState ξ) :
    let e := effective settings s.attributes
    ∃ q t, onRequest settings r s = (.ok q, t) ∧ Spares r q ∧
      KeepsDigest (skipsServer e.1 e.2 r.headers) e.2 r q ∧
      NotesWish (asksTrailing e.1 e.2 r) r q t.attributes ∧
      forget t.attributes = forget s.attributes := by
  intro e
  obtain ⟨b, hq, hc, -⟩ := onRequest_outgoing settings r s
  obtain ⟨q, t, ho, hn, -⟩ := onRequest_marks settings r s
  have hf := forget_onRequest settings r s
  have ha : Adds e.1 e.2 r (outgoing e.1 e.2 r) := adds_outgoing e.1 e.2 r
  rw [ho] at hq hf
  cases hq
  exact ⟨_, t, ho, ha.spares hc, ha.keepsDigest b, ha.notesWish b hn, hf⟩

end Integrity

end Courier
