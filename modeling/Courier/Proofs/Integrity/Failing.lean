import Courier.Proofs.Integrity.Resuming

/-! # After a read that fails

A reader that has found the digest wrong, or bytes behind a right one, hands nothing on any more.
But it looks for a digest once more with each read, from where the source stands, and as its hasher
has been set back it takes the digest of no bytes for the right one. Nothing else brings it to a
good end. A body that broke off stays broken off, if its source has come to its end.
-/

namespace Courier.Trailing

namespace Source

variable {s s' s'' : Source} {n reads : Nat} {f : DeviceFault}

/-- Nothing is read, and nothing told of an end that came too soon, but at the end. -/
def Truthful (s : Source) : Prop :=
  ∀ item ∈ s, item ≠ .data [] ∧ ∀ f, item = .fault f → f.kind ≠ .unexpectedEof

/-! ## What is left of a source -/

structure Leaves (s s' : Source) : Prop where
  bytes : s'.bytes <:+ s.bytes
  truthful : s.Truthful → s'.Truthful

theorem Leaves.refl (s : Source) : s.Leaves s :=
  ⟨List.suffix_rfl, id⟩

theorem Leaves.trans (h : s.Leaves s') (h' : s'.Leaves s'') : s.Leaves s'' :=
  ⟨h'.bytes.trans h.bytes, h'.truthful ∘ h.truthful⟩

theorem leaves_tail (item : SourceItem) (s : Source) : Leaves (item :: s) s where
  bytes := by
    cases item with
    | data front => exact List.suffix_append front (bytes s)
    | fault f => exact List.suffix_rfl
  truthful h := fun i hi => h i (List.mem_cons_of_mem item hi)

theorem leaves_read {res : Except DeviceFault Bytes} (h : s.read n = (res, s')) :
    s.Leaves s' := by
  cases s with
  | nil =>
    cases h
    exact .refl _
  | cons item s =>
    cases item with
    | fault f =>
      cases h
      exact leaves_tail _ _
    | data front =>
      cases h
      by_cases hrest : front.drop n = []
      · rw [hrest, List.isEmpty_nil, if_pos rfl]
        exact leaves_tail _ s
      · rw [List.isEmpty_eq_false_iff.mpr hrest, if_neg Bool.false_ne_true]
        refine ⟨⟨front.take n, ?_⟩, fun h i hi => ?_⟩
        · rw [bytes, bytes, ← List.append_assoc, List.take_append_drop]
        · rcases List.mem_cons.mp hi with rfl | hi
          · exact ⟨fun he => hrest (SourceItem.data.inj he), fun _ he => SourceItem.noConfusion he⟩
          · exact h i (List.mem_cons_of_mem _ hi)

theorem leaves_readExact {res : Except DeviceFault Bytes}
    (h : s.readExact n reads = (res, s')) : s.Leaves s' := by
  induction reads generalizing n s res with
  | zero =>
    cases h
    exact .refl _
  | succ reads ih =>
    unfold readExact at h
    split at h
    · cases h
      exact .refl _
    · split at h
      · rename_i f t ht
        split at h
        · exact (leaves_read ht).trans (ih h)
        · cases h
          exact leaves_read ht
      · rename_i bytes t ht
        split at h
        · cases h
          exact leaves_read ht
        · split at h
          all_goals
            cases h
            exact (leaves_read ht).trans (ih ‹_›)

/-- The digest of no bytes is among the bytes that are left, and is the last of them if the source
is truthful about its end. -/
def Revives (s : Source) : Prop :=
  md5 [] <:+: s.bytes ∧ (s.Truthful → md5 [] <:+ s.bytes)

/-! ## Sources that are truthful about their end -/

theorem Truthful.end_of_read (h : s.Truthful) (hn : n ≠ 0) (hread : s.read n = (.ok [], s')) :
    s = [] ∧ s' = [] := by
  cases s with
  | nil =>
    cases hread
    exact ⟨rfl, rfl⟩
  | cons item s =>
    cases item with
    | fault f => cases hread
    | data front =>
      obtain ⟨hne, -⟩ := h _ List.mem_cons_self
      simp only [read, Prod.mk.injEq, Except.ok.injEq, List.take_eq_nil_iff] at hread
      rcases hread.1 with hz | rfl
      · exact absurd hz hn
      · exact absurd rfl hne

theorem Truthful.end_of_readExact (h : s.Truthful) (hr : s.size < reads)
    (hread : s.readExact n reads = (.error f, s')) (hf : f.kind = .unexpectedEof) : s' = [] := by
  induction reads generalizing s n with
  | zero => exact absurd hr (Nat.not_lt_zero _)
  | succ reads ih =>
    unfold readExact at hread
    split at hread
    · cases hread
    · rename_i hn
      split at hread
      · rename_i f' t ht
        obtain rfl := eq_fault_of_read ht
        split at hread
        · refine ih ((leaves_read ht).truthful h) ?_ hread
          rw [size] at hr
          omega
        · cases hread
          exact absurd hf ((h _ List.mem_cons_self).2 _ rfl)
      · rename_i bytes t ht
        split at hread
        · rename_i he
          cases hread
          rw [List.isEmpty_iff.mp he] at ht
          exact (h.end_of_read hn ht).2
        · rename_i hne
          have hne : bytes ≠ [] := mt List.isEmpty_iff.mpr hne
          have hsize := (parts_read ht hne).size
          have hpos : 0 < bytes.length := List.length_pos_iff.mpr hne
          split at hread
          · cases hread
          · rename_i f' t' ht'
            cases hread
            exact ih ((leaves_read ht).truthful h) (by omega) ht'

end Source

namespace Reader

variable {r r' : Reader} {s s' rest : Source} {n : Nat} {e : Error} {bytes : Bytes}
  {res : Except ReadError Bytes}

theorem leaves_readDigest (h : readDigest s = (res, s')) : s.Leaves s' := by
  unfold readDigest at h
  split at h
  all_goals
    cases h
    exact Source.leaves_readExact ‹_›

theorem truncated_of_readDigest (h : readDigest s = (.error (.invalid e), s')) :
    e = truncatedDigest ∧ (s.Truthful → s' = []) := by
  unfold readDigest at h
  split at h
  · cases h
  · rename_i f t hread
    split at h
    · rename_i hf
      cases h
      exact ⟨rfl, fun ht => ht.end_of_readExact (Nat.lt_succ_self _) hread hf⟩
    · cases h

/-! ## What looking for the digest comes to -/

/-- All that a look for the digest can come to. -/
inductive Finds (r : Reader) : Except ReadError Unit × Reader → Prop

  | cutOff {e : ReadError} {s : Source} (h : readDigest r.inner = (.error e, s)) :
      Finds r (.error e, { r with inner := s })

  | wrong {expected : Bytes} {s : Source} (h : readDigest r.inner = (.ok expected, s)) :
      Finds r (.error (.invalid (.integrityMismatch ⟨.download, expected, r.hasher.finish⟩)),
        { r with inner := s, hasher := .start })

  | unknown {s s' : Source} {f : DeviceFault} (h : readDigest r.inner = (.ok r.hasher.finish, s))
      (hprobe : s.read 1 = (.error f, s')) :
      Finds r (.error (.device f), { r with inner := s', hasher := .start })

  | surplus {s s' : Source} {probe : Bytes} (h : readDigest r.inner = (.ok r.hasher.finish, s))
      (hprobe : s.read 1 = (.ok probe, s')) :
      Finds r (.error (.invalid overlong), { r with inner := s', hasher := .start })

  | right {s s' : Source} (h : readDigest r.inner = (.ok r.hasher.finish, s))
      (hprobe : s.read 1 = (.ok [], s')) :
      Finds r (.ok (), { r with inner := s', hasher := .start, verified := true })

theorem finds_verify (r : Reader) : r.Finds r.verify := by
  unfold verify
  split
  · exact .cutOff ‹_›
  · rename_i expected s hd
    dsimp only
    split
    · rename_i he
      subst he
      split
      · exact .unknown hd ‹_›
      · rename_i probe s' hprobe
        split
        · rename_i hempty
          rw [List.isEmpty_iff.mp hempty] at hprobe
          exact .right hd hprobe
        · exact .surplus hd hprobe
    · exact .wrong hd

theorem leaves_verify {res : Except ReadError Unit} (h : r.verify = (res, r')) :
    r.inner.Leaves r'.inner := by
  have hv := r.finds_verify
  rw [h] at hv
  cases hv with
  | cutOff hd => exact leaves_readDigest hd
  | wrong hd => exact leaves_readDigest hd
  | unknown hd hprobe => exact (leaves_readDigest hd).trans (Source.leaves_read hprobe)
  | surplus hd hprobe => exact (leaves_readDigest hd).trans (Source.leaves_read hprobe)
  | right hd hprobe => exact (leaves_readDigest hd).trans (Source.leaves_read hprobe)

theorem Answers.leaves (h : r.Answers n (res, r')) : r.inner.Leaves r'.inner := by
  cases h with
  | settled => exact .refl _
  | checked _ _ h => exact leaves_verify h
  | roomless => exact .refl _
  | failed _ _ h => exact Source.leaves_read h
  | short _ _ h => exact Source.leaves_read h
  | onward _ h => exact Source.leaves_read h
  | last _ h _ _ hv => exact (Source.leaves_read h).trans (leaves_verify hv)

/-! ## Reading on -/

def reads : Reader → List Nat → List (Except ReadError Bytes) × Reader
  | r, [] => ([], r)
  | r, n :: sizes =>
    let (res, r) := r.read n
    let (results, r) := reads r sizes
    (res :: results, r)

theorem reads_induction {P : Reader → Prop} (hstep : ∀ r n, P r → P (r.read n).2) (h : P r)
    (sizes : List Nat) : P (r.reads sizes).2 := by
  induction sizes generalizing r with
  | nil => exact h
  | cons n sizes ih => exact ih (hstep r n h)

theorem leaves_reads (r : Reader) (sizes : List Nat) :
    r.inner.Leaves (r.reads sizes).2.inner :=
  reads_induction (P := fun r' => r.inner.Leaves r'.inner)
    (fun _ _ h => h.trans (Answers.leaves (answers_read _ _))) (.refl _) sizes

/-! ## A digest that was wrong, or not the last -/

/-- Looking for the digest has set the hasher back, with this source left. -/
structure Condemned (rest : Source) (r : Reader) : Prop where
  remaining : r.remaining = 0
  hasher : r.hasher = .start
  inner : rest.Leaves r.inner
  revived : r.verified = true → rest.Revives

theorem Condemned.revives (h : r.Condemned rest)
    (hd : readDigest r.inner = (.ok r.hasher.finish, s)) (hprobe : s.read 1 = (.ok [], s')) :
    rest.Revives := by
  have hbytes : r.inner.bytes = md5 [] ++ s.bytes := by
    have hempty : md5 [] = r.hasher.finish := by rw [md5, Md5.Hasher.update_nil, h.hasher]
    rw [(parts_readDigest hd).2.bytes, hempty]
  refine ⟨?_, fun ht => ?_⟩
  · refine List.IsInfix.trans ?_ h.inner.bytes.isInfix
    exact hbytes ▸ (List.prefix_append _ _).isInfix
  · have hs := (leaves_readDigest hd).truthful (h.inner.truthful ht)
    obtain ⟨rfl, -⟩ := hs.end_of_read Nat.one_ne_zero hprobe
    rw [Source.bytes, List.append_nil] at hbytes
    exact hbytes ▸ h.inner.bytes

theorem Condemned.verify {res : Except ReadError Unit} (h : r.Condemned rest)
    (hv : r.verify = (res, r')) : r'.Condemned rest ∧ (res = .ok () → rest.Revives) := by
  have hinner := h.inner.trans (leaves_verify hv)
  have hfinds := r.finds_verify
  rw [hv] at hfinds
  cases hfinds with
  | cutOff => exact ⟨⟨h.remaining, h.hasher, hinner, h.revived⟩, nofun⟩
  | wrong => exact ⟨⟨h.remaining, rfl, hinner, h.revived⟩, nofun⟩
  | unknown => exact ⟨⟨h.remaining, rfl, hinner, h.revived⟩, nofun⟩
  | surplus => exact ⟨⟨h.remaining, rfl, hinner, h.revived⟩, nofun⟩
  | right hd hprobe =>
    have hrevives := h.revives hd hprobe
    exact ⟨⟨h.remaining, rfl, hinner, fun _ => hrevives⟩, fun _ => hrevives⟩

theorem Condemned.read (h : r.Condemned rest) (ha : r.Answers n (res, r')) :
    r'.Condemned rest ∧ ∀ bytes, res = .ok bytes → bytes = [] ∧ rest.Revives := by
  generalize hp : (res, r') = p at ha
  cases ha with
  | settled _ hv =>
    cases hp
    exact ⟨h, fun bytes he => ⟨(Except.ok.inj he).symm, h.revived hv⟩⟩
  | @checked res _ _ _ hv =>
    cases hp
    obtain ⟨hafter, hrevives⟩ := h.verify hv
    refine ⟨hafter, fun bytes he => ?_⟩
    cases res with
    | error e => cases he
    | ok _ => exact ⟨(Except.ok.inj he).symm, hrevives rfl⟩
  | roomless hz => exact absurd h.remaining hz
  | failed hz => exact absurd h.remaining hz
  | short hz => exact absurd h.remaining hz
  | onward _ _ _ hlt => exact absurd (h.remaining ▸ hlt) (Nat.not_lt_zero _)
  | last _ _ hne hall =>
    exact absurd (List.eq_nil_of_length_eq_zero (hall.trans h.remaining)) hne

/-! ## A body that broke off -/

/-- Nothing is left of the source, and the digest has not been found right. -/
structure Exhausted (r : Reader) : Prop where
  inner : r.inner = []
  verified : r.verified = false

theorem Exhausted.verify (h : r.Exhausted) :
    r.verify = (.error (.invalid truncatedDigest), r) := by
  obtain ⟨inner, _, _, _⟩ := r
  obtain rfl := h.inner
  rfl

theorem Exhausted.read (h : r.Exhausted) (ha : r.Answers n (res, r')) :
    r'.Exhausted ∧ ∀ bytes, res = .ok bytes → bytes = [] ∧ n = 0 := by
  generalize hp : (res, r') = p at ha
  cases ha with
  | settled _ hv => cases h.verified.symm.trans hv
  | checked _ _ hv =>
    cases hp
    cases h.verify.symm.trans hv
    exact ⟨h, nofun⟩
  | roomless _ hn =>
    cases hp
    exact ⟨h, fun bytes he => ⟨(Except.ok.inj he).symm, hn⟩⟩
  | failed _ _ hread =>
    rw [h.inner] at hread
    cases hread
  | short _ _ hread =>
    rw [h.inner] at hread
    cases hread
    cases hp
    exact ⟨⟨rfl, h.verified⟩, nofun⟩
  | onward _ hread hne =>
    rw [h.inner] at hread
    cases hread
    exact absurd rfl hne
  | last _ hread hne =>
    rw [h.inner] at hread
    cases hread
    exact absurd rfl hne

/-! ## The read that fails -/

theorem remaining_verify {res : Except ReadError Unit} (h : r.verify = (res, r')) :
    r'.remaining = r.remaining := by
  have hfinds := r.finds_verify
  rw [h] at hfinds
  cases hfinds <;> rfl

/-- The digest is found right behind the payload only. -/
def Timely (r : Reader) : Prop :=
  r.verified = true → r.remaining = 0

theorem Timely.read (h : r.Timely) (ha : r.Answers n (res, r')) : r'.Timely := by
  generalize hp : (res, r') = p at ha
  cases ha with
  | settled =>
    cases hp
    exact h
  | checked hz _ hv =>
    cases hp
    exact fun _ => (remaining_verify hv).trans hz
  | roomless =>
    cases hp
    exact h
  | failed =>
    cases hp
    exact h
  | short =>
    cases hp
    exact h
  | onward _ _ _ hlt =>
    cases hp
    exact fun hv => absurd (h hv) (Nat.ne_zero_of_lt hlt)
  | last _ _ _ hall hv =>
    cases hp
    exact fun _ => (remaining_verify hv).trans (Nat.sub_eq_zero_of_le (Nat.le_of_eq hall.symm))

/-- What an error tells of a body that came whole. -/
def IsVerdict (e : Error) : Prop :=
  (∃ m, e = .integrityMismatch m) ∨ e = overlong

/-- What an error tells of a body that broke off. -/
def IsTruncation (e : Error) : Prop :=
  e = truncatedDigest ∨ ∃ left, e = missing left

theorem fails_verify (hv : r.verified = false) (hz : r.remaining = 0)
    (h : r.verify = (.error (.invalid e), r')) :
    IsVerdict e ∧ r'.Condemned r'.inner ∨
      IsTruncation e ∧ (r.inner.Truthful → r'.Exhausted) := by
  have hfinds := r.finds_verify
  rw [h] at hfinds
  cases hfinds with
  | cutOff hd =>
    obtain ⟨he, hend⟩ := truncated_of_readDigest hd
    exact .inr ⟨.inl he, fun ht => ⟨hend ht, hv⟩⟩
  | wrong => exact .inl ⟨.inl ⟨_, rfl⟩, hz, rfl, .refl _, fun hv' => by cases hv.symm.trans hv'⟩
  | surplus => exact .inl ⟨.inr rfl, hz, rfl, .refl _, fun hv' => by cases hv.symm.trans hv'⟩

theorem Timely.fails (h : r.Timely) (ha : r.Answers n (.error (.invalid e), r')) :
    IsVerdict e ∧ r'.Condemned r'.inner ∨
      IsTruncation e ∧ (r.inner.Truthful → r'.Exhausted) := by
  have hverified (hz : r.remaining ≠ 0) : r.verified = false :=
    Bool.eq_false_iff.mpr (mt h hz)
  generalize hp : ((.error (.invalid e), r') : Except ReadError Bytes × Reader) = p at ha
  cases ha with
  | settled => cases hp
  | @checked res _ hz hv hverify =>
    cases res with
    | error _ =>
      cases hp
      exact fails_verify hv hz hverify
    | ok _ => cases hp
  | roomless => cases hp
  | failed => cases hp
  | short hz hn hread =>
    cases hp
    have hroom : min r.remaining n ≠ 0 := by omega
    exact .inr ⟨.inr ⟨_, rfl⟩, fun ht => ⟨(ht.end_of_read hroom hread).2, hverified hz⟩⟩
  | onward => cases hp
  | @last bytes s res _ hn hread hne hall hverify =>
    cases res with
    | error _ =>
      cases hp
      have hz : r.remaining ≠ 0 := hall ▸ Nat.ne_of_gt (List.length_pos_iff.mpr hne)
      have hfails := fails_verify (r := r.taken bytes s) (hverified hz)
        (Nat.sub_eq_zero_of_le (Nat.le_of_eq hall.symm)) hverify
      refine hfails.imp id (And.imp id fun hend ht => hend ?_)
      exact (Source.leaves_read hread).truthful ht
    | ok _ => cases hp

/-- Take a reader over any source, any reads into buffers of any sizes, also after reads that fail,
and one more that fails for what it has read. If it has found a wrong digest, or bytes behind a
right one, no later read hands anything on, and one ends well only if the digest of no bytes comes
in what is left of the source, and last of all if the source is truthful about its end. Otherwise
the body broke off, and if the source is truthful nothing is left of it, and every later read with
room for a byte fails. -/
theorem failure_lasts {source : Source} {r₀ : Reader} {k : Nat} {before : List Nat}
    (h : ofSource? source n = .ok r₀)
    (hfails : (r₀.reads before).2.read k = (.error (.invalid e), r')) :
    (IsVerdict e ∧ ∀ after size bytes, ((r'.reads after).2.read size).1 = .ok bytes →
      bytes = [] ∧ r'.inner.Revives) ∨
    (IsTruncation e ∧ (source.Truthful →
      r'.inner = [] ∧ ∀ after size bytes, ((r'.reads after).2.read size).1 = .ok bytes →
        bytes = [] ∧ size = 0)) := by
  obtain ⟨payload, _, rfl, -⟩ := ofSource?_ok h
  have hstart : Timely ⟨source, payload, .start, false⟩ := nofun
  have htimely := reads_induction (P := Timely) (fun _ _ ht => ht.read (answers_read _ _))
    hstart before
  have ha := answers_read (reads ⟨source, payload, .start, false⟩ before).2 k
  rw [hfails] at ha
  rcases htimely.fails ha with ⟨he, hcondemned⟩ | ⟨he, hexhausted⟩
  · refine .inl ⟨he, fun after size => ?_⟩
    have hafter := reads_induction (P := Condemned r'.inner)
      (fun _ _ hc => (hc.read (answers_read _ _)).1) hcondemned after
    exact (hafter.read (answers_read _ size)).2
  · refine .inr ⟨he, fun ht => ?_⟩
    have hend := hexhausted ((leaves_reads _ before).truthful ht)
    refine ⟨hend.inner, fun after size => ?_⟩
    have hafter := reads_induction (P := Exhausted)
      (fun _ _ hx => (hx.read (answers_read _ _)).1) hend after
    exact (hafter.read (answers_read _ size)).2

/-- Two letters with a digest of zeros, and more zeros behind it: the next reads find no digest. -/
theorem failure_lasts_wrong_digest :
    let source : Source := [.data ([104, 105] ++ List.replicate 16 0), .data (List.replicate 20 0)]
    ∃ r₀ m r', ofSource? source 18 = .ok r₀ ∧
      (r₀.reads []).2.read 8 = (.error (.invalid (.integrityMismatch m)), r') ∧
      ∀ bytes, ((r'.reads [8]).2.read 8).1 ≠ .ok bytes := by
  intro source
  have h : ofSource? source 18 = .ok ⟨source, 2, .start, false⟩ := rfl
  have hread : (reads ⟨source, 2, .start, false⟩ []).2.read 8 =
      (.error (.invalid (.integrityMismatch
        ⟨.download, List.replicate 16 0, md5 [104, 105]⟩)),
        ⟨[.data (List.replicate 20 0)], 0, .start, false⟩) := by
    decide +kernel
  refine ⟨_, _, _, h, hread, fun bytes hok => ?_⟩
  rcases failure_lasts h hread with ⟨-, hlasts⟩ | ⟨he | ⟨_, he⟩, -⟩
  · have hrevives : md5 [] <:+: List.replicate 20 0 := (hlasts [8] 8 bytes hok).2.1
    have hmem : md5 [] ⊆ List.replicate 20 0 := hrevives.subset
    have hno : ¬ md5 [] ⊆ List.replicate 20 0 := by decide +kernel
    exact hno hmem
  · cases he
  · cases he

/-- Two letters with a digest of zeros, and the digest of no bytes behind it: the next read comes to
a good end. -/
theorem failure_revived :
    let source : Source := [.data ([104, 105] ++ List.replicate 16 0 ++ md5 [])]
    ∃ r₀ e, ofSource? source 18 = .ok r₀ ∧ IsVerdict e ∧
      (r₀.reads [8, 8, 8]).1 = [.error (.invalid e), .ok [], .ok []] := by
  refine ⟨_, .integrityMismatch ⟨.download, List.replicate 16 0, md5 [104, 105]⟩, rfl,
    .inl ⟨_, rfl⟩, ?_⟩
  decide +kernel

end Reader

end Courier.Trailing
