import Courier.Proofs.Integrity.Hooks
import Courier.Proofs.Stream.Digesting

/-! # What the integrity hooks do to an upload

On the way out the hook sees to it that the digest of the body is in a slot of its own once the body
has been read. On the way back the digest that the entity tag spells has to be the one in the slot.
-/

namespace Courier

namespace EntityTag

/-- Thirty-two hexadecimal digits, but for white space and quotes around them. -/
structure IsDigest (tag : String) : Prop where
  length : (bare tag).length = 32
  digits : ∀ d ∈ bare tag, (Text.digit? 16 d).isSome = true

theorem ofHex?_of_digits {cs : List Char} {n : Nat} (hl : cs.length = 2 * n)
    (hd : ∀ d ∈ cs, (Text.digit? 16 d).isSome = true) :
    ∃ bytes, ofHex? cs = some bytes ∧ bytes.length = n := by
  induction n generalizing cs with
  | zero =>
    rw [List.eq_nil_of_length_eq_zero hl]
    exact ⟨[], rfl, rfl⟩
  | succ n ih =>
    match cs, hl with
    | x :: y :: r, hl =>
      have hlr : r.length = 2 * n := by
        simp only [List.length_cons] at hl
        omega
      obtain ⟨u, hu⟩ := Option.isSome_iff_exists.mp (hd x (by simp))
      obtain ⟨v, hv⟩ := Option.isSome_iff_exists.mp (hd y (by simp))
      obtain ⟨bytes, hb, hn⟩ := ih hlr fun d hm => hd d (by simp [hm])
      refine ⟨UInt8.ofNat (u * 16 + v) :: bytes, ?_, congrArg (· + 1) hn⟩
      simp only [ofHex?, hu, hv, hb]

theorem IsDigest.exists_digest {tag : String} (ht : IsDigest tag) :
    ∃ d, ofHex? (bare tag) = some d ∧ digest? tag = some d := by
  obtain ⟨d, hd, hl⟩ := ofHex?_of_digits (n := 16) ht.length ht.digits
  exact ⟨d, hd, by simp [digest?, hd, hl]⟩

end EntityTag

/-! ## What a body gives -/

/-- What an opening gives to be read, by how often the body has been opened before. -/
def BodyProvider.opened (p : BodyProvider) (n : Nat) : ByteStream :=
  p.digests.foldl (fun s slot => s.withFilter (.digestInto slot)) (p.stream n)

theorem BodyProvider.openStream_digestingInto (p : BodyProvider) (slot : Slot) (c : Cells) :
    (p.digestingInto slot).openStream c =
      ((p.opened (p.openings c)).withFilter (.digestInto slot),
        (p.openStream c).2.setDigest slot none) := by
  simp [openStream, digestingInto, openings, opened]

/-- The bytes that a body holds, or that one of its streams gives. -/
inductive RequestBody.Gives : RequestBody → Bytes → Prop

  | held {bytes : Bytes} : Gives (.buffered bytes) bytes

  | streamed {p : BodyProvider} {n : Nat} {chunks : List Bytes} (hs : (p.stream n).Yields chunks) :
      Gives (.streaming p) chunks.flatten

theorem BodyProvider.yields_of_opened (p : BodyProvider) {n : Nat} {chunks : List Bytes}
    (hs : (p.opened n).Yields chunks) : (p.stream n).Yields chunks := by
  unfold opened at hs
  generalize p.digests = slots, p.stream n = s at hs ⊢
  induction slots generalizing s with
  | nil => exact hs
  | cons slot slots ih =>
    obtain ⟨_, hr⟩ := ih _ hs default
    obtain ⟨_, hr', _⟩ := ByteStream.readAll_digesting hr
    exact ByteStream.yields_of_readAll hr'

namespace Integrity

variable {ξ : Type} {settings : Settings} {slot : Slot} {c c' : Cells}

/-- The attributes of an upload that is checked on the side of the client. -/
structure ChecksUpload (settings : Settings) (a : Attributes) : Prop where
  kind : a.get? .operationKind = some .upload
  clientSide : ((a.get? .settings).getD settings).clientSide = true

/-- Headers under which an upload may be checked. -/
structure Uploadable (request : Headers) : Prop where
  customerKey : request.contains customerKey = false
  managedKey : request.contains managedKey = false
  contentMd5 : request.contains Headers.contentMd5 = false

theorem ChecksUpload.congr {a b : Attributes} (h : ChecksUpload settings a)
    (hk : b.get? .operationKind = a.get? .operationKind)
    (hs : b.get? .settings = a.get? .settings) : ChecksUpload settings b :=
  ⟨hk.trans h.kind, by rw [hs]; exact h.clientSide⟩

theorem ChecksUpload.noted {a : Attributes} (h : ChecksUpload settings a) (slot : Slot) :
    ChecksUpload settings ((forget a).put .uploadDigest slot) := by
  refine h.congr ?_ ?_
  all_goals
    rw [Attributes.get?_put_of_ne _ _ _ _ (by decide)]
    exact get?_forget _ _ (by decide) (by decide)

/-! ## Out -/

/-- The second body is the first, and its digest is in the slot or will be once a stream that it
gives has been read. -/
inductive Noted (slot : Slot) (c : Cells) : RequestBody → RequestBody → Prop

  | held {bytes : Bytes} (hs : c.digest? slot = some (md5 bytes)) :
      Noted slot c (.buffered bytes) (.buffered bytes)

  | digested {p : BodyProvider} (hs : slot.index < c.digests.length) :
      Noted slot c (.streaming p) (.streaming (p.digestingInto slot))

/-- The stream comes from the body, and its digest is in the slot or will be once it has been
read. -/
inductive Primed (slot : Slot) (c : Cells) : RequestBody → ByteStream → Prop

  | held {bytes : Bytes} (hs : c.digest? slot = some (md5 bytes)) :
      Primed slot c (.buffered bytes) (.ofBytes bytes)

  | digested {p : BodyProvider} {n : Nat} (hs : slot.index < c.digests.length) :
      Primed slot c (.streaming p) ((p.opened n).withFilter (.digestInto slot))

variable {b b' : RequestBody}

theorem Noted.lt (hn : Noted slot c b b') : slot.index < c.digests.length := by
  cases hn with
  | held hs => exact Cells.lt_of_digest? hs
  | digested hs => exact hs

theorem Noted.keeps (hn : Noted slot c b b') (hk : c.Keeps slot c') : Noted slot c' b b' := by
  cases hn with
  | held hs => exact .held (hk.digest?.trans hs)
  | digested hs => exact .digested (hk.lt hs)

theorem Primed.lt {s : ByteStream} (hp : Primed slot c b s) : slot.index < c.digests.length := by
  cases hp with
  | held hs => exact Cells.lt_of_digest? hs
  | digested hs => exact hs

theorem Primed.keeps {s : ByteStream} (hp : Primed slot c b s) (hk : c.Keeps slot c') :
    Primed slot c' b s := by
  cases hp with
  | held hs => exact .held (hk.digest?.trans hs)
  | digested hs => exact .digested (hk.lt hs)

theorem body_addServerDigest (r : Request) : (addServerDigest r).body = r.body := by
  unfold addServerDigest
  split <;> rfl

theorem noteUpload_cases {r : Request} (hb : r.body.isPresent = true) (state : HookState ξ) :
    ∃ r' slot c, noteUpload r state = (.ok r', { state with
        cells := c, attributes := state.attributes.put .uploadDigest slot }) ∧
      Noted slot c r.body r'.body ∧ c.digest? slot = r.body.buffered?.map md5 := by
  unfold noteUpload
  cases hbody : r.body with
  | empty =>
    rw [hbody] at hb
    cases hb
  | buffered bytes =>
    have hd : (state.cells.newSlot (some (md5 bytes))).2.digest?
        (state.cells.newSlot (some (md5 bytes))).1 = some (md5 bytes) := by
      simp [Cells.newSlot, Cells.digest?]
    refine ⟨r, _, _, rfl, ?_, hd⟩
    rw [hbody]
    exact .held hd
  | streaming p =>
    refine ⟨_, _, _, rfl, .digested ?_, ?_⟩
    · simp
    · simp [Cells.digest?, RequestBody.buffered?]

theorem onRequest_upload {r : Request} {state : HookState ξ}
    (h : ChecksUpload settings state.attributes) (hr : Uploadable r.headers)
    (hb : r.body.isPresent = true) :
    ∃ r' slot c, onRequest settings r state = (.ok r', { state with
        cells := c, attributes := (forget state.attributes).put .uploadDigest slot }) ∧
      Noted slot c r.body r'.body := by
  have hskip : skipsClientRequest ((state.attributes.get? .settings).getD settings) .upload
      r.headers = false := by
    simp [skipsClientRequest, h.clientSide, hr.customerKey, hr.managedKey, hr.contentMd5]
  simp only [onRequest, effective_of_kind h.kind, hskip, Bool.false_eq_true, if_false]
  split
  · obtain ⟨r', slot, c, hn, hnoted, _⟩ := noteUpload_cases hb _
    exact ⟨r', slot, c, hn, hnoted⟩
  · have hbody := body_addServerDigest r
    rw [← hbody] at hb ⊢
    obtain ⟨r', slot, c, hn, hnoted, _⟩ := noteUpload_cases hb _
    exact ⟨r', slot, c, hn, hnoted⟩

/-! ## Off -/

theorem length_clear (slots : List Slot) (c : Cells) :
    (slots.foldl (fun c slot => c.setDigest slot none) c).digests.length = c.digests.length := by
  induction slots generalizing c with
  | nil => rfl
  | cons slot slots ih => exact (ih _).trans List.length_set

theorem Noted.openStream (hn : Noted slot c b b') :
    ∃ s, (b'.openStream c).1 = some s ∧ Primed slot (b'.openStream c).2 b s := by
  cases hn with
  | held hs => exact ⟨_, rfl, .held hs⟩
  | @digested p hs =>
    have hl : ((p.openStream c).2.setDigest slot none).digests.length = c.digests.length :=
      List.length_set.trans (length_clear p.digests _)
    simp only [RequestBody.openStream, p.openStream_digestingInto]
    exact ⟨_, rfl, .digested (Nat.lt_of_lt_of_eq hs hl.symm)⟩

/-- Once the stream has been read to its end, the bytes that came out are the body's and the slot
holds their digest. -/
theorem Primed.readAll {s : ByteStream} {chunks : List Bytes} (hp : Primed slot c b s)
    (hr : s.readAll c = (chunks, .finished, c')) :
    b.Gives chunks.flatten ∧ c'.digest? slot = some (md5 chunks.flatten) := by
  cases hp with
  | @held bytes hs =>
    obtain ⟨chunks', hr', rfl⟩ := ByteStream.readAll_ofBytes bytes c
    cases hr'.symm.trans hr
    exact ⟨.held, hs⟩
  | @digested p n hs =>
    -- The slot is filled last, whatever slots the other filters of the stream fill.
    obtain ⟨d, hread, rfl⟩ := ByteStream.readAll_digesting hr
    have hk := ByteStream.kept_readAll Cells.ignores_length (p.opened n) c
    rw [hread] at hk
    have hl : slot.index < d.digests.length := Nat.lt_of_lt_of_eq hs hk.symm
    refine ⟨.streamed (p.yields_of_opened (ByteStream.yields_of_readAll hread)), ?_⟩
    simp [Cells.digest?, Cells.setDigest, List.getD_eq_getElem?_getD, hl]

/-! ## Back -/

/-- The response to an upload passes only if the digest that its tag names is that in the slot. -/
theorem digest_of_onResponse {r r' : Response} {tag : String} {d e : Digest}
    (state : HookState ξ) (h : ChecksUpload settings state.attributes)
    (hn : state.attributes.get? .uploadDigest = some slot)
    (hs : r.head.isSuccess = true) (ht : r.head.headers.first? Headers.entityTag = some tag)
    (hd : EntityTag.digest? tag = some d) (he : state.cells.digest? slot = some e)
    (hk : (onResponse settings r state).1 = .ok r') : d = e := by
  have hskip : skipsClientResponse ((state.attributes.get? .settings).getD settings) .upload
      r.head.headers = false := by
    simp [skipsClientResponse, h.clientSide, Headers.contains_of_first? ht]
  have hc : checkUpload r state = .ok r' := by
    simpa [onResponse, effective_of_kind h.kind, hskip, hs] using hk
  by_cases hde : d = e
  · exact hde
  · simp [checkUpload, hn, verifyUpload, ht, hd, he, hde, Except.map] at hc

end Integrity

end Courier
