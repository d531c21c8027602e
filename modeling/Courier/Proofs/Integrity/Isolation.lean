import Courier.Proofs.Integrity.Outgoing

/-! # Attempts do not see each other

An attempt starts from the attributes and the slots that earlier attempts left. States that agree on
the settings and on the kind of operation are told apart neither by what the hook sends nor by what
it notes of it, and so not by what becomes of the response either.
-/

namespace Courier

/-! ## Reading a body out -/

namespace RequestBody

variable {b b' : RequestBody} {c c' : Cells}

def readOut (b : RequestBody) (c : Cells) : List Bytes × Polled × Cells :=
  match b.openStream c with
  | (none, c) => ([], .finished, c)
  | (some s, c) => s.readAll c

/-- What an opening of the body gives, and how it ends. -/
def given (b : RequestBody) (c : Cells) : List Bytes × Polled :=
  ((b.openStream c).1.map ByteStream.given).getD ([], .finished)

theorem readOut_given (b : RequestBody) (c : Cells) :
    ∃ c', b.readOut c = ((b.given c).1, (b.given c).2, c') := by
  unfold readOut given
  rcases b.openStream c with ⟨_ | s, d⟩
  · exact ⟨d, rfl⟩
  · exact s.readAll_given d

theorem given_congr (h : (b.openStream c).1 = (b'.openStream c').1) : b.given c = b'.given c' := by
  unfold given
  rw [h]

theorem openStream_congr (b : RequestBody) (h : c.counts = c'.counts) :
    (b.openStream c).1 = (b.openStream c').1 := by
  cases b with
  | empty => rfl
  | buffered bytes => rfl
  | streaming p => simp only [openStream, BodyProvider.openStream, BodyProvider.openings,
      Cells.count, h]

theorem Covers.given_eq (h : Covers b b') (c : Cells) : b'.given c = b.given c := by
  cases h with
  | same b => rfl
  | digested p slot =>
    have ho : ((streaming p).openStream c).1 = some (p.opened (p.openings c)) := rfl
    unfold given
    rw [ho, openStream, p.openStream_digestingInto]
    exact ByteStream.given_digesting _ slot

end RequestBody

namespace Integrity

open RequestBody (Covers)

variable {ξ : Type} {settings : Settings} {r q p : Request} {s t : HookState ξ}

theorem Noted.readOut {slot : Slot} {c : Cells} {b b' : RequestBody} (h : Noted slot c b b')
    (hf : (b'.given c).2 = .finished) :
    (b'.readOut c).2.2.digest? slot = some (md5 (b'.given c).1.flatten) := by
  obtain ⟨c', hr⟩ := b'.readOut_given c
  obtain ⟨s, ho, hp⟩ := h.openStream
  rw [hr]
  rw [hf] at hr
  unfold RequestBody.readOut at hr
  generalize b'.openStream c = opened at ho hp hr
  obtain ⟨_, d⟩ := opened
  cases ho
  exact (hp.readAll hr).2

/-! ## What one attempt leaves -/

/-- What is noted of a body that goes out, if anything is: a slot, which holds the digest of what is
in memory. -/
inductive Marked (b b' : RequestBody) (t : HookState ξ) : Bool → Prop

  | unmarked (hn : t.attributes.lookup AttributeKey.uploadDigest.name = none) : Marked b b' t false

  | marked {slot : Slot} (hl : t.attributes.lookup AttributeKey.uploadDigest.name =
        some (.slot slot))
      (hn : Noted slot t.cells b b') (hd : t.cells.digest? slot = b.buffered?.map md5) :
      Marked b b' t true

theorem lookup_forget_trailing (a : Attributes) :
    (forget a).lookup AttributeKey.trailingRequested.name = none := by
  unfold forget Attributes.remove
  rw [Attributes.lookup_erase_of_ne _ (by decide)]
  exact Attributes.lookup_erase _ _

theorem lookup_forget_upload (a : Attributes) :
    (forget a).lookup AttributeKey.uploadDigest.name = none :=
  Attributes.lookup_erase _ _

theorem noteUpload_marks (r : Request)
    (hn : s.attributes.lookup AttributeKey.uploadDigest.name = none) :
    ∃ q t, noteUpload r s = (.ok q, t) ∧
      t.attributes.lookup AttributeKey.trailingRequested.name =
        s.attributes.lookup AttributeKey.trailingRequested.name ∧
      Marked r.body q.body t r.body.isPresent := by
  cases hb : r.body.isPresent with
  | true =>
    obtain ⟨q, slot, c, hq, hnoted, hd⟩ := noteUpload_cases hb s
    refine ⟨q, _, hq, Attributes.lookup_put_of_ne _ _ _ (by decide), ?_⟩
    exact .marked (Attributes.lookup_put _ _ _) hnoted hd
  | false =>
    have hq : noteUpload r s = (.ok r, s) := by
      unfold noteUpload
      cases hbody : r.body with
      | empty => rfl
      | _ =>
        rw [hbody] at hb
        cases hb
    exact ⟨r, s, hq, rfl, .unmarked hn⟩

theorem onRequest_marks (settings : Settings) (r : Request) (s : HookState ξ) :
    let e := effective settings s.attributes
    ∃ q t, onRequest settings r s = (.ok q, t) ∧
      t.attributes.lookup AttributeKey.trailingRequested.name =
        (if asksTrailing e.1 e.2 r then some (.flag true) else none) ∧
      Marked r.body q.body t (notesUpload e.1 e.2 r && r.body.isPresent) := by
  intro e
  have hbody : (outgoing e.1 e.2 r).body = r.body := body_outgoing e.1 e.2 r
  have hfresh := lookup_forget_upload s.attributes
  obtain ⟨ha, hn, ho⟩ | ⟨ha, hn, ho⟩ | ⟨ha, hn, ho⟩ := onRequest_cases settings r s
  · rw [ha, hn]
    refine ⟨_, _, ho, Attributes.lookup_put _ _ _, .unmarked ?_⟩
    exact (Attributes.lookup_put_of_ne _ _ _ (by decide)).trans hfresh
  · obtain ⟨q, t, hq, ht, hm⟩ := noteUpload_marks (outgoing e.1 e.2 r)
      (s := { s with attributes := forget s.attributes }) hfresh
    rw [hbody] at hm
    rw [ha, hn, Bool.true_and]
    exact ⟨q, t, ho.trans hq, ht.trans (lookup_forget_trailing _), hm⟩
  · rw [ha, hn]
    exact ⟨_, _, ho, lookup_forget_trailing _, .unmarked hfresh⟩

/-- What goes out and what is left behind follow from what is in effect, from the request, and from
what its body opens to. -/
structure Leaves (settings : Settings) (e : Settings × OperationKind) (r : Request)
    (given : List Bytes × Polled) (q : Request) (t : HookState ξ) : Prop where
  method : q.method = (outgoing e.1 e.2 r).method
  address : q.address = (outgoing e.1 e.2 r).address
  headers : q.headers = (outgoing e.1 e.2 r).headers
  head : q.head = (outgoing e.1 e.2 r).head
  body : q.body.given t.cells = given
  effective : effective settings t.attributes = e
  trailing : t.attributes.lookup AttributeKey.trailingRequested.name =
    if asksTrailing e.1 e.2 r then some (.flag true) else none
  upload : Marked r.body q.body t (notesUpload e.1 e.2 r && r.body.isPresent)

theorem onRequest_leaves (settings : Settings) (r : Request) (s : HookState ξ) :
    ∃ q t, onRequest settings r s = (.ok q, t) ∧
      Leaves settings (effective settings s.attributes) r (r.body.given s.cells) q t := by
  obtain ⟨b, ho, hc, he⟩ := onRequest_outgoing settings r s
  obtain ⟨q, t, hq, ht, hm⟩ := onRequest_marks settings r s
  have hn := counts_onRequest settings r s
  rw [hq] at ho he hn
  generalize effective settings s.attributes = e at ho he ht hm
  cases ho
  have hbody : (outgoing e.1 e.2 r).body = r.body := body_outgoing e.1 e.2 r
  refine ⟨_, t, hq, rfl, rfl, rfl, Covers.head_eq (hbody.symm ▸ hc), ?_, he, ht, hm⟩
  exact (hc.given_eq _).trans (RequestBody.given_congr (r.body.openStream_congr hn))

/-! ## Two attempts -/

/-- Nothing is noted of an upload, or slots are that hold the same. -/
inductive SameNote (s t : HookState ξ) : Prop

  | absent (hs : s.attributes.lookup AttributeKey.uploadDigest.name = none)
      (ht : t.attributes.lookup AttributeKey.uploadDigest.name = none)

  | noted {a b : Slot} (hs : s.attributes.lookup AttributeKey.uploadDigest.name = some (.slot a))
      (ht : t.attributes.lookup AttributeKey.uploadDigest.name = some (.slot b))
      (hd : s.cells.digest? a = t.cells.digest? b)

theorem Marked.sameNote {b q p : RequestBody} {marked : Bool} (hs : Marked b q s marked)
    (ht : Marked b p t marked) : SameNote s t := by
  cases hs with
  | unmarked hs =>
    cases ht with
    | unmarked ht => exact .absent hs ht
  | marked hs _ hds =>
    cases ht with
    | marked ht _ hdt => exact .noted hs ht (hds.trans hdt.symm)

theorem Marked.sameNote_readOut {b q p : RequestBody} {marked : Bool} (hs : Marked b q s marked)
    (ht : Marked b p t marked) (hg : q.given s.cells = p.given t.cells)
    (hf : (q.given s.cells).2 = .finished) :
    SameNote { s with cells := (q.readOut s.cells).2.2 }
      { t with cells := (p.readOut t.cells).2.2 } := by
  cases hs with
  | unmarked hs =>
    cases ht with
    | unmarked ht => exact .absent hs ht
  | marked hs hns _ =>
    cases ht with
    | marked ht hnt _ =>
      refine .noted hs ht ?_
      have hdt := hnt.readOut (hg ▸ hf)
      rw [← hg] at hdt
      exact (hns.readOut hf).trans hdt.symm

theorem checkUpload_congr (h : SameNote s t) (response : Response) :
    checkUpload response s = checkUpload response t := by
  unfold checkUpload Attributes.get?
  cases h with
  | absent hs ht =>
    rw [hs, ht]
    rfl
  | @noted a b hs ht hd =>
    rw [hs, ht]
    change (verifyUpload (s.cells.digest? a) _).map _ = (verifyUpload (t.cells.digest? b) _).map _
    rw [hd]

/-- Of the state the response hook reads what is in effect and what was noted on the way out. -/
theorem onResponse_congr (he : effective settings s.attributes = effective settings t.attributes)
    (ht : s.attributes.lookup AttributeKey.trailingRequested.name =
      t.attributes.lookup AttributeKey.trailingRequested.name)
    (hu : SameNote s t) (response : Response) :
    (onResponse settings response s).1 = (onResponse settings response t).1 := by
  unfold onResponse
  rw [he, checkUpload_congr hu, Attributes.get?_congr ht]
  rcases effective settings t.attributes with ⟨settings', kind⟩
  dsimp only
  split
  · rfl
  · cases kind with
    | download =>
      dsimp only
      split <;> rfl
    | _ => rfl

/-- Two requests that nobody who receives them can tell apart, and two states that no response can
once the bodies have been sent. -/
structure Alike (settings : Settings) (q : Request) (s : HookState ξ) (p : Request)
    (t : HookState ξ) : Prop where
  method : q.method = p.method
  address : q.address = p.address
  headers : q.headers = p.headers
  head : q.head = p.head
  chunks : (q.body.readOut s.cells).1 = (p.body.readOut t.cells).1
  ending : (q.body.readOut s.cells).2.1 = (p.body.readOut t.cells).2.1
  trailing : s.attributes.lookup AttributeKey.trailingRequested.name =
    t.attributes.lookup AttributeKey.trailingRequested.name
  upload : SameNote s t
  response : (q.body.readOut s.cells).2.1 = .finished → ∀ response,
    (onResponse settings response { s with cells := (q.body.readOut s.cells).2.2 }).1 =
      (onResponse settings response { t with cells := (p.body.readOut t.cells).2.2 }).1

theorem Leaves.alike {e : Settings × OperationKind} {given : List Bytes × Polled}
    (hs : Leaves settings e r given q s) (ht : Leaves settings e r given p t) :
    Alike settings q s p t := by
  have hgiven : q.body.given s.cells = p.body.given t.cells := hs.body.trans ht.body.symm
  have htrailing := hs.trailing.trans ht.trailing.symm
  obtain ⟨c, hrs⟩ := q.body.readOut_given s.cells
  obtain ⟨d, hrt⟩ := p.body.readOut_given t.cells
  constructor
  case method => exact hs.method.trans ht.method.symm
  case address => exact hs.address.trans ht.address.symm
  case headers => exact hs.headers.trans ht.headers.symm
  case head => exact hs.head.trans ht.head.symm
  case chunks => rw [hrs, hrt, hgiven]
  case ending => rw [hrs, hrt, hgiven]
  case trailing => exact htrailing
  case upload => exact hs.upload.sameNote ht.upload
  case response =>
    intro hf response
    have hfinished : (q.body.given s.cells).2 = .finished := by
      rw [hrs] at hf
      exact hf
    refine onResponse_congr ?_ ?_ ?_ response
    · exact hs.effective.trans ht.effective.symm
    · exact htrailing
    · exact hs.upload.sameNote_readOut ht.upload hgiven hfinished

/-- Whatever else is in the attributes and in the slots, from earlier attempts or from the caller:
where the settings and the kind of operation are the same and the body opens to the same, the hook
sends the same, leaves the same, and makes the same of the response. -/
theorem attempts_isolated (settings : Settings) (r : Request)
    (hk : s.attributes.get? .operationKind = t.attributes.get? .operationKind)
    (hs : s.attributes.get? .settings = t.attributes.get? .settings)
    (hb : (r.body.openStream s.cells).1 = (r.body.openStream t.cells).1) :
    ∃ q s' p t', onRequest settings r s = (.ok q, s') ∧ onRequest settings r t = (.ok p, t') ∧
      Alike settings q s' p t' := by
  obtain ⟨q, s', hq, hls⟩ := onRequest_leaves settings r s
  obtain ⟨p, t', hp, hlt⟩ := onRequest_leaves settings r t
  rw [effective_congr hk hs, RequestBody.given_congr hb] at hls
  exact ⟨q, s', p, t', hq, hp, hls.alike hlt⟩

/-- An earlier attempt has left a flag and a slot with the digest of something else. -/
theorem attempts_isolated_stale_slot :
    let body : RequestBody := .streaming (.oneShot ⟨0⟩ (.ofChunks [[104, 101, 108], [108, 111]]))
    let r : Request := ⟨.put, ⟨⟨.http, "origin", 80⟩, "/"⟩, .empty, body⟩
    let fresh : HookState Unit := ⟨Attributes.empty.put .operationKind .upload, ⟨[], [0]⟩, ()⟩
    let stale : HookState Unit :=
      ⟨(fresh.attributes.put .trailingRequested true).put .uploadDigest ⟨0⟩,
        ⟨[some (md5 [104])], [0]⟩, ()⟩
    ∃ q s p t, onRequest .enabled r fresh = (.ok q, s) ∧ onRequest .enabled r stale = (.ok p, t) ∧
      Alike .enabled q s p t ∧ (q.body.readOut s.cells).2.1 = .finished := by
  intro body r fresh stale
  obtain ⟨q, s, p, t, hq, hp, ha⟩ :=
    attempts_isolated .enabled r (s := fresh) (t := stale) rfl rfl rfl
  refine ⟨q, s, p, t, hq, hp, ha, ?_⟩
  have hsent : (onRequest .enabled r fresh).1.toOption.map
      (fun q => (q.body.readOut (onRequest .enabled r fresh).2.cells).2.1) = some .finished := by
    decide +kernel
  rw [hq] at hsent
  exact Option.some.inj hsent

end Integrity

end Courier
