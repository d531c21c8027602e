import Courier.Proofs.Integrity.Draining

/-! # Reading on after an interruption

A reader is read to its end by a caller who reads again after each interruption, and next to it one
whose source was never interrupted. Both read the same in step until an interruption comes, which
the first is back from with one more read. The one place from which there is no coming back is
behind a right digest, where the reader looks whether anything follows: by then the digest has been
read and the hasher set back.
-/

namespace Courier.Trailing

def SourceItem.interrupts : SourceItem → Bool
  | .data _ => false
  | .fault f => f.kind = .interrupted

namespace Source

variable {s s' : Source} {front : Bytes} {n k reads reads' : Nat}

/-- The same answers without the interruptions. -/
def uninterrupted (s : Source) : Source :=
  s.filter (!·.interrupts)

def bytes : Source → Bytes
  | [] => []
  | .data front :: s => front ++ bytes s
  | .fault _ :: s => bytes s

/-- An interruption follows at once on the first so many bytes. -/
def interruptedAt : Nat → Source → Bool
  | _, [] => false
  | 0, .data _ :: _ => false
  | k + 1, .data front :: s =>
    front.length ≤ k + 1 && !front.isEmpty && interruptedAt (k + 1 - front.length) s
  | 0, .fault f :: _ => f.kind = .interrupted
  | k + 1, .fault f :: s => f.kind = .interrupted && interruptedAt (k + 1) s

/-! ## What has been taken off a source -/

/-- These bytes have been taken off the source. -/
structure Parts (s : Source) (front : Bytes) (s' : Source) : Prop where
  bytes : s.bytes = front ++ s'.bytes
  interruptedAt (k : Nat) : s.interruptedAt (front.length + k) = s'.interruptedAt k
  size : front.length + s'.size ≤ s.size

theorem Parts.nothing (s : Source) : s.Parts [] s where
  bytes := rfl
  interruptedAt k := by rw [List.length_nil, Nat.zero_add]
  size := by simp

theorem Parts.append {s₁ s₂ : Source} {front more : Bytes} (h : s.Parts front s₁)
    (h' : s₁.Parts more s₂) : s.Parts (front ++ more) s₂ where
  bytes := by rw [h.bytes, h'.bytes, List.append_assoc]
  interruptedAt k := by
    rw [List.length_append, Nat.add_assoc, h.interruptedAt, h'.interruptedAt]
  size := by
    have := h.size
    have := h'.size
    rw [List.length_append]
    omega

theorem Parts.after {f : DeviceFault} (hf : f.kind = .interrupted) (h : s.Parts front s')
    (hne : front ≠ []) : Source.Parts (.fault f :: s) front s' where
  bytes := h.bytes
  interruptedAt k := by
    obtain ⟨m, hm⟩ := Nat.exists_eq_succ_of_ne_zero (mt List.length_eq_zero_iff.mp hne)
    rw [← h.interruptedAt, hm, Nat.succ_add, Source.interruptedAt, hf]
    rfl
  size := by
    have := h.size
    rw [Source.size]
    omega

theorem eq_fault_of_read {f : DeviceFault} (h : s.read n = (.error f, s')) :
    s = .fault f :: s' := by
  match s with
  | [] => cases h
  | .data _ :: _ => cases h
  | .fault _ :: _ =>
    cases h
    rfl

theorem length_read_le (h : s.read n = (.ok front, s')) : front.length ≤ n := by
  match s with
  | [] =>
    cases h
    exact Nat.zero_le n
  | .data whole :: _ =>
    cases h
    exact List.length_take_le n whole
  | .fault _ :: _ => cases h

theorem size_read_le (h : s.read n = (.ok front, s')) : s'.size ≤ s.size := by
  match s with
  | [] =>
    cases h
    exact Nat.le_refl _
  | .data whole :: r =>
    cases h
    rw [size]
    split
    · omega
    · rw [size, List.length_drop]
      omega
  | .fault _ :: _ => cases h

theorem parts_read (h : s.read n = (.ok front, s')) (hne : front ≠ []) : s.Parts front s' := by
  match s with
  | [] =>
    cases h
    exact absurd rfl hne
  | .fault f :: r => cases h
  | .data whole :: r =>
    simp only [read, Prod.mk.injEq, Except.ok.injEq] at h
    obtain ⟨rfl, rfl⟩ := h
    have hwhole : whole ≠ [] := fun he => hne (by rw [he, List.take_nil])
    have hpos : 0 < (whole.take n).length := List.length_pos_iff.mpr hne
    have hlen := congrArg List.length (List.take_append_drop n whole)
    rw [List.length_append] at hlen
    by_cases hd : whole.drop n = []
    · have hall : whole.take n = whole := List.take_of_length_le (List.drop_eq_nil_iff.mp hd)
      rw [hd, hall, List.isEmpty_nil, if_pos rfl]
      refine ⟨rfl, fun k => ?_, by rw [size]; omega⟩
      obtain ⟨m, hm⟩ := Nat.exists_eq_succ_of_ne_zero (mt List.length_eq_zero_iff.mp hwhole)
      rw [hm, Nat.succ_add, interruptedAt]
      simp [List.isEmpty_eq_false_iff.mpr hwhole, hm]
    · rw [List.isEmpty_eq_false_iff.mpr hd, if_neg Bool.false_ne_true]
      have hpos' : 0 < (whole.drop n).length := List.length_pos_iff.mpr hd
      refine ⟨?_, fun k => ?_, by rw [size, size]; omega⟩
      · rw [bytes, bytes, ← List.append_assoc, List.take_append_drop]
      · obtain ⟨m, hm⟩ := Nat.exists_eq_succ_of_ne_zero (Nat.ne_of_gt hpos)
        rw [hm, Nat.succ_add, interruptedAt, List.isEmpty_eq_false_iff.mpr hwhole]
        cases k with
        | zero =>
          have : ¬ whole.length ≤ m + 0 + 1 := by omega
          simp [interruptedAt, this]
        | succ k =>
          rw [interruptedAt, List.isEmpty_eq_false_iff.mpr hd]
          have hiff : whole.length ≤ m + (k + 1) + 1 ↔ (whole.drop n).length ≤ k + 1 := by omega
          have hsub : m + (k + 1) + 1 - whole.length = k + 1 - (whole.drop n).length := by omega
          rw [hsub, decide_eq_decide.mpr hiff]

theorem parts_readExact (h : s.readExact n reads = (.ok front, s')) :
    front.length = n ∧ s.Parts front s' := by
  induction reads generalizing s n front with
  | zero => cases h
  | succ reads ih =>
    unfold readExact at h
    split at h
    · cases h
      exact ⟨Eq.symm ‹_›, .nothing _⟩
    · rename_i hn
      split at h
      · rename_i f r hread
        split at h
        · rename_i hf
          obtain ⟨hl, hp⟩ := ih h
          rw [eq_fault_of_read hread]
          refine ⟨hl, hp.after hf fun he => hn ?_⟩
          rw [← hl, he, List.length_nil]
        · cases h
      · rename_i first r hread
        split at h
        · cases h
        · rename_i hne
          have hp := parts_read hread (mt List.isEmpty_iff.mpr hne)
          have hle := length_read_le hread
          split at h
          · rename_i more r' hmore
            cases h
            obtain ⟨hl, hp'⟩ := ih hmore
            refine ⟨?_, hp.append hp'⟩
            rw [List.length_append, hl]
            omega
          · cases h

/-! ## The same read without the interruptions -/

theorem uninterrupted_cons {f : DeviceFault} (hf : f.kind = .interrupted) (s : Source) :
    uninterrupted (.fault f :: s) = s.uninterrupted := by
  simp [uninterrupted, SourceItem.interrupts, hf]

theorem read_uninterrupted {res : Except DeviceFault Bytes} (h : s.read n = (res, s'))
    (hcalm : ∀ f, res = .error f → f.kind ≠ .interrupted) :
    s.uninterrupted.read n = (res, s'.uninterrupted) := by
  match s with
  | [] =>
    cases h
    rfl
  | .fault f :: s' =>
    cases h
    simp [uninterrupted, SourceItem.interrupts, hcalm f rfl, read]
  | .data front :: s' =>
    cases h
    by_cases hd : front.drop n = [] <;> simp [uninterrupted, SourceItem.interrupts, read, hd]

/-- Reading exactly is not interrupted, and reads the same as without the interruptions. -/
theorem readExact_uninterrupted (hr : s.size < reads) (hr' : s.uninterrupted.size < reads') :
    s.uninterrupted.readExact n reads' =
        ((s.readExact n reads).1, (s.readExact n reads).2.uninterrupted) ∧
      ∀ f, (s.readExact n reads).1 = .error f → f.kind ≠ .interrupted := by
  induction reads generalizing s n reads' with
  | zero => exact absurd hr (Nat.not_lt_zero _)
  | succ reads ih =>
    obtain ⟨reads', rfl⟩ := Nat.exists_eq_succ_of_ne_zero (Nat.ne_of_gt (Nat.zero_lt_of_lt hr'))
    by_cases hn : n = 0
    · simp [readExact, hn]
    · rcases hs : s.read n with ⟨f | first, r⟩
      · by_cases hf : f.kind = .interrupted
        · obtain rfl := eq_fault_of_read hs
          have hstep : Source.readExact n (reads + 1) (.fault f :: r) = r.readExact n reads := by
            simp [readExact, hn, read, hf]
          rw [size] at hr
          rw [uninterrupted_cons hf] at hr' ⊢
          rw [hstep]
          exact ih (by omega) hr'
        · have hread := read_uninterrupted hs fun f' he => by cases he; exact hf
          simp only [readExact, if_neg hn, hread, hs, if_neg hf, true_and]
          intro f' he
          cases he
          exact hf
      · have hread := read_uninterrupted hs fun _ he => by cases he
        simp only [readExact, if_neg hn, hread, hs]
        by_cases he : first = []
        · simp only [he, List.isEmpty_nil, if_true, true_and]
          intro f' he
          cases he
          decide
        · have hpos : 0 < first.length := List.length_pos_iff.mpr he
          have hsize := (parts_read hs he).size
          have hsize' := (parts_read hread he).size
          have hlt : r.uninterrupted.size < reads' := by omega
          obtain ⟨hmore, hcalm⟩ := ih (n := n - first.length) (s := r) (by omega) hlt
          rw [List.isEmpty_eq_false_iff.mpr he, if_neg Bool.false_ne_true,
            if_neg Bool.false_ne_true, hmore]
          generalize r.readExact (n - first.length) reads = p at hcalm ⊢
          rcases p with ⟨f | more, t⟩
          · exact ⟨rfl, hcalm⟩
          · exact ⟨rfl, fun _ he => by cases he⟩

end Source

/-- This is not an interruption. -/
def Calm {α : Type} (res : Except ReadError α) : Prop :=
  ∀ e, res = .error e → e.kind ≠ .interrupted

namespace Calm

variable {α β : Type} {e : ReadError} {res : Except ReadError α}

theorem ok (a : α) : Calm (.ok a) :=
  nofun

theorem error (he : e.kind ≠ .interrupted) : Calm (.error e : Except ReadError α) := by
  rintro _ ⟨⟩
  exact he

theorem map (h : Calm res) (f : α → β) : Calm (res.map f) := by
  cases res with
  | error e => exact error (h e rfl)
  | ok a => exact ok (f a)

end Calm

namespace Reader

variable {r r' : Reader} {s s' : Source} {expected : Bytes} {e : ReadError} {f : DeviceFault}
  {n : Nat}

theorem readDigest_uninterrupted (s : Source) :
    readDigest s.uninterrupted = ((readDigest s).1, (readDigest s).2.uninterrupted) ∧
      Calm (readDigest s).1 := by
  obtain ⟨hsame, hcalm⟩ := Source.readExact_uninterrupted (s := s) (n := digestLength)
    (Nat.lt_succ_self s.size) (Nat.lt_succ_self s.uninterrupted.size)
  unfold readDigest
  rw [hsame]
  generalize s.readExact digestLength (s.size + 1) = p at hcalm ⊢
  rcases p with ⟨f | bytes, s'⟩
  · refine ⟨rfl, .error ?_⟩
    split
    · exact nofun
    · exact hcalm f rfl
  · exact ⟨rfl, .ok bytes⟩

theorem parts_readDigest (h : readDigest s = (.ok expected, s')) :
    expected.length = digestLength ∧ s.Parts expected s' := by
  unfold readDigest at h
  rcases hs : s.readExact digestLength (s.size + 1) with ⟨f | bytes, t⟩
  · rw [hs] at h
    cases h
  · rw [hs] at h
    cases h
    exact Source.parts_readExact hs

/-! ## What a read comes to -/

def taken (r : Reader) (bytes : Bytes) (s : Source) : Reader :=
  { r with
    inner := s, hasher := r.hasher.update bytes, remaining := r.remaining - bytes.length }

/-- All that a read can come to, with what is read of the source. -/
inductive Answers (r : Reader) (n : Nat) : Except ReadError Bytes × Reader → Prop

  | settled (hz : r.remaining = 0) (hv : r.verified = true) : Answers r n (.ok [], r)

  | checked {res : Except ReadError Unit} {r' : Reader} (hz : r.remaining = 0)
      (hv : r.verified = false) (h : r.verify = (res, r')) :
      Answers r n (res.map fun _ => [], r')

  | roomless (hz : r.remaining ≠ 0) (hn : n = 0) : Answers r n (.ok [], r)

  | failed {f : DeviceFault} {s : Source} (hz : r.remaining ≠ 0) (hn : n ≠ 0)
      (h : r.inner.read (min r.remaining n) = (.error f, s)) :
      Answers r n (.error (.device f), { r with inner := s })

  | short {s : Source} (hz : r.remaining ≠ 0) (hn : n ≠ 0)
      (h : r.inner.read (min r.remaining n) = (.ok [], s)) :
      Answers r n (.error (.invalid (missing r.remaining)), { r with inner := s })

  | onward {bytes : Bytes} {s : Source} (hn : n ≠ 0)
      (h : r.inner.read (min r.remaining n) = (.ok bytes, s)) (hne : bytes ≠ [])
      (hlt : bytes.length < r.remaining) : Answers r n (.ok bytes, r.taken bytes s)

  | last {bytes : Bytes} {s : Source} {res : Except ReadError Unit} {r' : Reader} (hn : n ≠ 0)
      (h : r.inner.read (min r.remaining n) = (.ok bytes, s)) (hne : bytes ≠ [])
      (hall : bytes.length = r.remaining) (hv : (r.taken bytes s).verify = (res, r')) :
      Answers r n (res.map fun _ => bytes, r')

theorem answers_read (r : Reader) (n : Nat) : r.Answers n (r.read n) := by
  unfold read
  split
  · rename_i hz
    split
    · exact .settled hz ‹_›
    · rename_i hv
      rw [Bool.not_eq_true] at hv
      rcases hc : r.verify with ⟨e | _, r'⟩ <;> exact .checked hz hv hc
  · rename_i hz
    split
    · exact .roomless hz ‹_›
    · rename_i hn
      rcases hread : r.inner.read (min r.remaining n) with ⟨f | bytes, s⟩
      · exact .failed hz hn hread
      · have hle := Source.length_read_le hread
        dsimp only
        split
        · rename_i he
          rw [List.isEmpty_iff.mp he] at hread
          exact .short hz hn hread
        · rename_i hne
          have hne : bytes ≠ [] := mt List.isEmpty_iff.mpr hne
          split
          · have hall : bytes.length = r.remaining := by omega
            rcases hv : (r.taken bytes s).verify with ⟨e | _, r'⟩
            all_goals
              have hlast := Answers.last hn hread hne hall hv
              unfold taken at hv
              rw [hv]
              exact hlast
          · exact .onward hn hread hne (by omega)

theorem Answers.eq_read {p : Except ReadError Bytes × Reader} (h : r.Answers n p) :
    r.read n = p := by
  unfold read
  cases h with
  | settled hz hv => rw [if_pos hz, if_pos hv]
  | @checked res r' hz hv h =>
    rw [if_pos hz, hv, h]
    cases res <;> rfl
  | roomless hz hn => rw [if_neg hz, if_pos hn]
  | failed hz hn h => rw [if_neg hz, if_neg hn, h]
  | short hz hn h =>
    rw [if_neg hz, if_neg hn, h]
    rfl
  | @onward bytes s hn h hne hlt =>
    rw [if_neg (Nat.ne_zero_of_lt hlt), if_neg hn, h]
    dsimp only
    rw [List.isEmpty_eq_false_iff.mpr hne, if_neg Bool.false_ne_true, if_neg (by omega)]
    rfl
  | @last bytes s res r' hn h hne hall hv =>
    have hz : r.remaining ≠ 0 := hall ▸ Nat.ne_of_gt (List.length_pos_iff.mpr hne)
    rw [if_neg hz, if_neg hn, h]
    dsimp only
    rw [List.isEmpty_eq_false_iff.mpr hne, if_neg Bool.false_ne_true, if_pos (by omega)]
    unfold taken at hv
    rw [hv]
    cases res <;> rfl

/-! ## Reading on to the end -/

theorem size_verify {res : Except ReadError Unit} (h : r.verify = (res, r'))
    (hres : ∀ e, res = .error e → e.kind = .interrupted) : r'.inner.size < r.inner.size := by
  unfold verify at h
  rcases hd : readDigest r.inner with ⟨e | expected, s⟩
  · have hcalm := (readDigest_uninterrupted r.inner).2
    rw [hd] at h hcalm
    cases h
    exact absurd (hres e rfl) (hcalm e rfl)
  · obtain ⟨hlen, hp⟩ := parts_readDigest hd
    have hsize := hp.size
    have hpos : 0 < expected.length := by
      rw [hlen]
      decide
    rw [hd] at h
    dsimp only at h
    split at h
    · rcases hprobe : s.read 1 with ⟨f | probe, s'⟩
      · rw [hprobe] at h
        cases h
        rw [Source.eq_fault_of_read hprobe, Source.size] at hsize
        dsimp only
        omega
      · have hle := Source.size_read_le hprobe
        rw [hprobe] at h
        dsimp only at h
        split at h
        · cases h
          dsimp only
          omega
        · cases h
          cases hres _ rfl
    · cases h
      cases hres _ rfl

theorem size_read {res : Except ReadError Bytes} (h : r.read n = (res, r'))
    (hok : ∀ bytes, res = .ok bytes → bytes ≠ [])
    (hres : ∀ e, res = .error e → e.kind = .interrupted) : r'.inner.size < r.inner.size := by
  have hmap {res : Except ReadError Unit} {bytes : Bytes}
      (hres : ∀ e, res.map (fun _ => bytes) = .error e → e.kind = .interrupted) :
      ∀ e, res = .error e → e.kind = .interrupted := fun e he => hres e (by rw [he]; rfl)
  have hanswers := r.answers_read n
  rw [h] at hanswers
  cases hanswers with
  | settled => exact absurd rfl (hok [] rfl)
  | roomless => exact absurd rfl (hok [] rfl)
  | checked _ _ hv => exact size_verify hv (hmap hres)
  | failed _ _ hread =>
    rw [Source.eq_fault_of_read hread, Source.size]
    exact Nat.lt_add_of_pos_left Nat.one_pos
  | short => cases hres _ rfl
  | @onward bytes s _ hread hne _ =>
    have hsize := (Source.parts_read hread hne).size
    have := List.length_pos_iff.mpr hne
    change s.size < _
    omega
  | @last bytes s res _ _ hread hne _ hv =>
    have hsize := (Source.parts_read hread hne).size
    have hlt : r'.inner.size < s.size := size_verify hv (hmap hres)
    omega

/-- Reads into buffers of these sizes until nothing is read any more or a read fails, and reads
again after each interruption. What has been read is given also where a read fails. -/
def readToEnd (sizes : Nat → Nat) (r : Reader) : Bytes × Option ReadError :=
  match _h : r.read (sizes 0) with
  | (.error e, r') => if _hk : e.kind = .interrupted then readToEnd sizes r' else ([], some e)
  | (.ok [], _) => ([], none)
  | (.ok (b :: bs), r') =>
    let rest := readToEnd (fun i => sizes (i + 1)) r'
    (b :: bs ++ rest.1, rest.2)
termination_by r.inner.size
decreasing_by
  · exact size_read _h nofun fun _ he => by cases he; exact _hk
  · exact size_read _h (fun _ he => by cases he; exact List.cons_ne_nil b bs) nofun

variable {sizes : Nat → Nat}

theorem readToEnd_of_interrupted (h : r.read (sizes 0) = (.error e, r'))
    (hk : e.kind = .interrupted) : r.readToEnd sizes = r'.readToEnd sizes := by
  rw [readToEnd]
  split <;> simp_all

theorem readToEnd_of_error (h : r.read (sizes 0) = (.error e, r'))
    (hk : e.kind ≠ .interrupted) : r.readToEnd sizes = ([], some e) := by
  rw [readToEnd]
  split <;> simp_all

theorem readToEnd_of_nil (h : r.read (sizes 0) = (.ok [], r')) :
    r.readToEnd sizes = ([], none) := by
  rw [readToEnd]
  split <;> simp_all

theorem readToEnd_of_ne_nil {front : Bytes} (h : r.read (sizes 0) = (.ok front, r'))
    (hf : front ≠ []) :
    r.readToEnd sizes =
      (front ++ (r'.readToEnd fun i => sizes (i + 1)).1,
        (r'.readToEnd fun i => sizes (i + 1)).2) := by
  rw [readToEnd]
  split <;> simp_all

/-! ## In step with the reader that is never interrupted -/

/-- The same reader over the same answers without the interruptions. -/
def uninterrupted (r : Reader) : Reader :=
  { r with inner := r.inner.uninterrupted }

/-- No interruption comes behind a right digest. -/
def Guarded (r : Reader) : Prop :=
  r.inner.interruptedAt (r.remaining + digestLength) = false ∨
    ∀ payload, payload.length = r.remaining →
      ¬ payload ++ (r.hasher.update payload).finish <+: r.inner.bytes

theorem Guarded.taken {front : Bytes} (h : r.Guarded) (hp : r.inner.Parts front s)
    (hle : front.length ≤ r.remaining) : (r.taken front s).Guarded := by
  rcases h with hint | hwrong
  · have hk : r.remaining + digestLength =
        front.length + (r.remaining - front.length + digestLength) := by omega
    rw [hk, hp.interruptedAt] at hint
    exact .inl hint
  · refine .inr fun payload hl hpre => hwrong (front ++ payload) ?_ ?_
    · rw [List.length_append, hl]
      exact Nat.add_sub_of_le hle
    · rw [hp.bytes, Md5.Hasher.update_append, List.append_assoc]
      exact (List.prefix_append_right_inj front).mpr hpre

theorem Guarded.again (h : r.Guarded) (hs : r.inner = .fault f :: s) (hf : f.kind = .interrupted) :
    Guarded { r with inner := s } := by
  rcases h with hint | hwrong
  · have hpos : r.remaining + digestLength = r.remaining + 15 + 1 := rfl
    rw [hs, hpos, Source.interruptedAt, hf] at hint
    exact .inl hint
  · rw [hs] at hwrong
    exact .inr hwrong

theorem Guarded.verify (h : r.Guarded) (hz : r.remaining = 0) :
    r.uninterrupted.verify = (r.verify.1, r.verify.2.uninterrupted) ∧ Calm r.verify.1 := by
  obtain ⟨hsame, hcalm⟩ := readDigest_uninterrupted r.inner
  unfold Reader.verify uninterrupted
  rw [hsame]
  rcases hd : readDigest r.inner with ⟨e | expected, s⟩
  · rw [hd] at hcalm
    exact ⟨rfl, .error (hcalm e rfl)⟩
  · obtain ⟨hlen, hp⟩ := parts_readDigest hd
    dsimp only
    by_cases hdigest : r.hasher.finish = expected
    · rw [if_pos hdigest, if_pos hdigest]
      rcases hprobe : s.read 1 with ⟨f | probe, s'⟩
      · have hf : f.kind ≠ .interrupted := by
          intro hf
          obtain rfl := Source.eq_fault_of_read hprobe
          rcases h with hint | hwrong
          · rw [hz, Nat.zero_add, ← hlen, ← Nat.add_zero expected.length, hp.interruptedAt,
              Source.interruptedAt, hf] at hint
            cases hint
          · refine hwrong [] hz.symm ?_
            rw [hp.bytes, ← hdigest]
            exact List.prefix_append _ _
        rw [Source.read_uninterrupted hprobe fun f' he => by cases he; exact hf]
        exact ⟨rfl, .error hf⟩
      · rw [Source.read_uninterrupted hprobe nofun]
        dsimp only
        split
        · exact ⟨rfl, .ok ()⟩
        · exact ⟨rfl, .error nofun⟩
    · rw [if_neg hdigest, if_neg hdigest]
      exact ⟨rfl, .error nofun⟩

/-- The digest has been found right, or no interruption comes behind it. -/
def Steady (r : Reader) : Prop :=
  (r.remaining = 0 ∧ r.verified = true) ∨ r.Guarded

theorem Steady.guarded (h : r.Steady) (hr : r.remaining ≠ 0 ∨ r.verified = false) : r.Guarded := by
  rcases h with ⟨hz, hv⟩ | h
  · rcases hr with hr | hr
    · exact absurd hz hr
    · cases hv.symm.trans hr
  · exact h

/-- A read next to the one without interruptions: it is interrupted and has taken nothing, or both
come to the same. -/
inductive Resumes (r : Reader) : Except ReadError Bytes × Reader →
    Except ReadError Bytes × Reader → Prop

  | again {f : DeviceFault} {s : Source} (hf : f.kind = .interrupted) (hs : r.inner = .fault f :: s)
      (p : Except ReadError Bytes × Reader) :
      Resumes r (.error (.device f), { r with inner := s }) p

  | alike {res : Except ReadError Bytes} {r' : Reader} (hcalm : Calm res) :
      Resumes r (res, r') (res, r'.uninterrupted)

theorem Steady.resumes (h : r.Steady) (n : Nat) :
    Resumes r (r.read n) (r.uninterrupted.read n) := by
  have hanswers := r.answers_read n
  generalize r.read n = p at hanswers
  cases hanswers with
  | settled hz hv =>
    rw [Answers.eq_read (.settled (r := r.uninterrupted) hz hv)]
    exact .alike (.ok [])
  | roomless hz hn =>
    rw [Answers.eq_read (.roomless (r := r.uninterrupted) hz hn)]
    exact .alike (.ok [])
  | @checked res r' hz hv hverify =>
    obtain ⟨hsame, hcalm⟩ := (h.guarded (.inr hv)).verify hz
    rw [hverify] at hsame hcalm
    rw [Answers.eq_read (.checked (r := r.uninterrupted) hz hv hsame)]
    exact .alike (hcalm.map _)
  | @failed f s hz hn hread =>
    by_cases hf : f.kind = .interrupted
    · exact .again hf (Source.eq_fault_of_read hread) _
    · have hsame := Source.read_uninterrupted hread fun f' he => by cases he; exact hf
      rw [Answers.eq_read (.failed (r := r.uninterrupted) hz hn hsame)]
      exact .alike (.error hf)
  | @short s hz hn hread =>
    have hsame := Source.read_uninterrupted hread nofun
    rw [Answers.eq_read (.short (r := r.uninterrupted) hz hn hsame)]
    exact .alike (.error nofun)
  | @onward bytes s hn hread hne hlt =>
    have hsame := Source.read_uninterrupted hread nofun
    rw [Answers.eq_read (.onward (r := r.uninterrupted) hn hsame hne hlt)]
    exact .alike (.ok bytes)
  | @last bytes s res r' hn hread hne hall hverify =>
    have hr : r.remaining ≠ 0 := hall ▸ Nat.ne_of_gt (List.length_pos_iff.mpr hne)
    have htaken := (h.guarded (.inl hr)).taken (Source.parts_read hread hne) (Nat.le_of_eq hall)
    obtain ⟨hsame', hcalm⟩ := htaken.verify (Nat.sub_eq_zero_of_le (Nat.le_of_eq hall.symm))
    rw [hverify] at hsame' hcalm
    have hsame := Source.read_uninterrupted hread nofun
    rw [Answers.eq_read (.last (r := r.uninterrupted) hn hsame hne hall hsame')]
    exact .alike (hcalm.map _)

/-- A caller who reads on as long as bytes come or a read is interrupted, into buffers of whatever
sizes, has this reader. -/
inductive Reaches (r : Reader) : Reader → Prop

  | made : Reaches r r

  | onward {r' r'' : Reader} {n : Nat} {bytes : Bytes} (h : Reaches r r')
      (hread : r'.read n = (.ok bytes, r'')) : Reaches r r''

  | again {r' r'' : Reader} {n : Nat} {e : ReadError} (h : Reaches r r')
      (hread : r'.read n = (.error e, r'')) (hk : e.kind = .interrupted) : Reaches r r''

theorem Steady.read_ok {bytes : Bytes} (h : r.Steady) (hread : r.read n = (.ok bytes, r')) :
    r'.Steady := by
  have hanswers := r.answers_read n
  rw [hread] at hanswers
  generalize hp : ((.ok bytes, r') : Except ReadError Bytes × Reader) = p at hanswers
  cases hanswers with
  | settled hz hv =>
    cases hp
    exact h
  | roomless hz hn =>
    cases hp
    exact h
  | @checked res r'' hz hv hverify =>
    cases res with
    | error e => cases hp
    | ok _ =>
      cases hp
      obtain ⟨hver, hrem⟩ := of_verify hverify
      exact .inl ⟨hrem.trans hz, hver⟩
  | failed => cases hp
  | short => cases hp
  | @onward bytes s hn hinner hne hlt =>
    cases hp
    have hg := h.guarded (.inl (Nat.ne_zero_of_lt hlt))
    exact .inr (hg.taken (Source.parts_read hinner hne) (Nat.le_of_lt hlt))
  | @last bytes s res r'' hn hinner hne hall hverify =>
    cases res with
    | error e => cases hp
    | ok _ =>
      cases hp
      obtain ⟨hver, hrem⟩ := of_verify hverify
      exact .inl ⟨hrem.trans (Nat.sub_eq_zero_of_le (Nat.le_of_eq hall.symm)), hver⟩

theorem Steady.read_interrupted (h : r.Steady) (hread : r.read n = (.error e, r'))
    (hk : e.kind = .interrupted) :
    ∃ f s, e = .device f ∧ r.inner = .fault f :: s ∧ r' = { r with inner := s } ∧ r'.Steady ∧
      r'.uninterrupted = r.uninterrupted := by
  have hresumes := h.resumes n
  rw [hread] at hresumes
  generalize r.uninterrupted.read n = q at hresumes
  generalize hp : ((.error e, r') : Except ReadError Bytes × Reader) = p at hresumes
  cases hresumes with
  | @again f s hf hs =>
    cases hp
    refine ⟨f, s, rfl, hs, rfl, ?_, ?_⟩
    · exact h.imp id (Guarded.again · hs hf)
    · simp [uninterrupted, hs, Source.uninterrupted_cons hf]
  | alike hcalm =>
    cases hp
    exact absurd hk (hcalm e rfl)

theorem Steady.reaches (h : r.Steady) (hr : Reaches r r') : r'.Steady := by
  induction hr with
  | made => exact h
  | onward _ hread ih => exact ih.read_ok hread
  | again _ hread hk ih =>
    obtain ⟨_, _, _, _, _, hs, _⟩ := ih.read_interrupted hread hk
    exact hs

theorem Steady.read_calm {res : Except ReadError Bytes} (h : r.Steady)
    (hread : r.read n = (res, r')) (hcalm : Calm res) :
    r.uninterrupted.read n = (res, r'.uninterrupted) := by
  have hresumes := h.resumes n
  rw [hread] at hresumes
  generalize r.uninterrupted.read n = q at hresumes ⊢
  cases hresumes with
  | again hf => exact absurd hf (hcalm _ rfl)
  | alike => rfl

theorem Steady.readToEnd (h : r.Steady) :
    r.readToEnd sizes = r.uninterrupted.readToEnd sizes := by
  induction hm : r.inner.size using Nat.strongRecOn generalizing r sizes with
  | ind m ih =>
    rcases hread : r.read (sizes 0) with ⟨e | bytes, r'⟩
    · by_cases hk : e.kind = .interrupted
      · obtain ⟨f, s, rfl, hs, rfl, hsteady, hsame⟩ := h.read_interrupted hread hk
        rw [readToEnd_of_interrupted hread hk, ← hsame]
        refine ih _ ?_ hsteady rfl
        rw [← hm, hs, Source.size]
        exact Nat.lt_add_of_pos_left Nat.one_pos
      · rw [readToEnd_of_error hread hk,
          readToEnd_of_error (h.read_calm hread (.error hk)) hk]
    · have hsame := h.read_calm hread (.ok bytes)
      by_cases hne : bytes = []
      · subst hne
        rw [readToEnd_of_nil hread, readToEnd_of_nil hsame]
      · have hlt : r'.inner.size < m := by
          rw [← hm]
          exact size_read hread (fun _ he => by cases he; exact hne) fun _ he => by cases he
        rw [readToEnd_of_ne_nil hread hne, readToEnd_of_ne_nil hsame hne,
          ih _ hlt (h.read_ok hread) rfl]

/-! ## A body that is read to its end -/

theorem ofSource?_ok {source : Source} (h : ofSource? source n = .ok r) :
    ∃ k, k + digestLength = n ∧ r = ⟨source, k, .start, false⟩ ∧
      ofSource? source.uninterrupted n = .ok r.uninterrupted := by
  unfold ofSource? at h ⊢
  rcases hs : Splitter.ofLength? n with f | s
  · rw [hs] at h
    cases h
  · rw [hs] at h
    cases h
    exact ⟨s.payloadLength, (Splitter.tracks_start hs).2, rfl, rfl⟩

theorem ofSource?_steady {source : Source} (h : ofSource? source n = .ok r)
    (hg : source.interruptedAt n = false ∨
      ∀ payload, ¬ Splitter.Valid n (source.bytes.take n) payload) : r.Steady := by
  obtain ⟨k, hk, rfl, -⟩ := ofSource?_ok h
  subst hk
  refine .inr (hg.imp id fun hwrong payload hl hpre => hwrong payload ?_)
  change payload.length = k at hl
  have hlen : (payload ++ md5 payload).length = k + digestLength := by
    rw [List.length_append, length_md5, hl]
    rfl
  have htake : payload ++ md5 payload = source.bytes.take (payload ++ md5 payload).length :=
    List.prefix_iff_eq_take.mp hpre
  rw [hlen] at htake
  exact ⟨by rw [← htake, hlen], htake.symm⟩

/-- Take a source in which interruptions come between other answers, and read a body of `n` bytes
with it. Let no interruption come at once behind the `n` bytes, or let these not be a payload with
its digest. Then a caller who reads again after each interruption reads the same bytes and comes to
the same end as if there were none, and a read that is interrupted has lost nothing: what is left of
the source and all that the reader knows is as it was. -/
theorem interruptions_lose_nothing {source : Source}
    (h : source.interruptedAt n = false ∨
      ∀ payload, ¬ Splitter.Valid n (source.bytes.take n) payload) :
    (∀ sizes, (ofSource? source n).map (readToEnd sizes) =
      (ofSource? source.uninterrupted n).map (readToEnd sizes)) ∧
    ∀ r₀ r r' k e, ofSource? source n = .ok r₀ → Reaches r₀ r → r.read k = (.error e, r') →
      e.kind = .interrupted →
        ∃ f s, e = .device f ∧ r.inner = .fault f :: s ∧ r' = { r with inner := s } := by
  constructor
  · intro sizes
    cases hr : ofSource? source n with
    | error f =>
      unfold ofSource? at hr ⊢
      rcases hs : Splitter.ofLength? n with f' | s
      · rw [hs] at hr
        cases hr
        rfl
      · rw [hs] at hr
        cases hr
    | ok r =>
      obtain ⟨_, _, _, hr'⟩ := ofSource?_ok hr
      rw [hr']
      exact congrArg Except.ok (ofSource?_steady hr h).readToEnd
  · intro r₀ r r' k e hr hreach hread hk
    obtain ⟨f, s, he, hs, hr', -⟩ :=
      ((ofSource?_steady hr h).reaches hreach).read_interrupted hread hk
    exact ⟨f, s, he, hs, hr'⟩

/-- Two letters with their digest, and interruptions before and between the letters and within the
digest. -/
theorem interruptions_lose_nothing_hi :
    let signal : SourceItem := .fault ⟨.interrupted, "signal"⟩
    let source : Source := [signal, .data [104], signal, .data ([105] ++ (md5 [104, 105]).take 4),
      signal, .data ((md5 [104, 105]).drop 4)]
    source.interruptedAt 18 = false ∧
      (ofSource? source 18).map (readToEnd fun _ => 3) =
        (ofSource? source.uninterrupted 18).map (readToEnd fun _ => 3) := by
  intro signal source
  have h : source.interruptedAt 18 = false := by decide +kernel
  exact ⟨h, (interruptions_lose_nothing (.inl h)).1 _⟩

/-- There is no coming back from an interruption behind a right digest: the letters are lost, and a
digest is looked for once more. -/
theorem interruption_behind_digest :
    let source : Source := [.data ([104, 105] ++ md5 [104, 105]), .fault ⟨.interrupted, "signal"⟩]
    (ofSource? source.uninterrupted 18).map (readToEnd fun _ => 8) = .ok ([104, 105], none) ∧
      (ofSource? source 18).map (readToEnd fun _ => 8) =
        .ok ([], some (.invalid truncatedDigest)) := by
  decide +kernel

end Reader

end Courier.Trailing
