import Courier.Proofs.Integrity.Releasing

/-! # After a chunk that is refused

A splitter whose digest has come whole, right or wrong, refuses every chunk from then on and sets
nothing free. One that refuses an over-long chunk before that forgets what was too much: it goes on
as if the chunk had ended with the payload, and lets the payload go once the right digest comes
after all, in chunks that fit.
-/

namespace Courier.Trailing.Splitter

variable {n room : Nat} {s : Splitter} {chunk out : Bytes} {chunks more : List Bytes} {f : Fault}

/-! ## Once the digest has come whole -/

/-- The digest has come whole, and the payload before it. -/
structure Ended (s : Splitter) : Prop where
  expected : digestLength ≤ s.expected.length
  position : s.verified = false → s.payloadLength ≤ s.position

/-- What a chunk behind the end of a body comes to. -/
def refusal (n : Nat) (chunk : Bytes) : Except Fault (Option Bytes) :=
  if chunk.isEmpty then .ok none else .error (.overlong n)

theorem push_behind (hv : s.verified = false) (hp : s.payloadLength ≤ s.position)
    (hne : chunk ≠ []) :
    s.push chunk =
      if digestLength - s.expected.length < chunk.length then
        (.error (.overlong s.contentLength), s)
      else
        settle { s with
          position := s.position + chunk.length, expected := s.expected ++ chunk } := by
  have hk : s.payloadLength - s.position = 0 := Nat.sub_eq_zero_of_le hp
  unfold Splitter.push
  rw [if_neg (mt List.isEmpty_iff.mp hne), if_neg (Bool.eq_false_iff.mp hv), absorb_eq, hk]
  simp only [List.take_zero, List.drop_zero, List.length_nil, Nat.add_zero, Md5.Hasher.update_nil,
    List.append_nil]
  rw [if_neg (Nat.not_lt.mpr hp)]

theorem Ended.push (h : s.Ended) (chunk : Bytes) :
    s.push chunk = (refusal s.contentLength chunk, s) := by
  by_cases hne : chunk = []
  · subst hne
    rfl
  · rw [refusal, if_neg (mt List.isEmpty_iff.mp hne)]
    cases hv : s.verified with
    | true =>
      unfold Splitter.push
      rw [if_neg (mt List.isEmpty_iff.mp hne), if_pos hv]
    | false =>
      have hpos : 0 < chunk.length := List.length_pos_iff.mpr hne
      rw [push_behind hv (h.position hv) hne, Nat.sub_eq_zero_of_le h.expected, if_pos hpos]

theorem Ended.feed (h : s.Ended) (more : List Bytes) :
    s.feed more = (more.map (refusal s.contentLength), s) := by
  induction more with
  | nil => rfl
  | cons chunk more ih => rw [feed_cons, h.push, ih, List.map_cons]

theorem released_refusals (n : Nat) (more : List Bytes) :
    released (more.map (refusal n)) = [] := by
  induction more with
  | nil => rfl
  | cons chunk more ih =>
    rw [List.map_cons, released, List.flatMap_cons, ← released, ih, List.append_nil, refusal]
    split <;> rfl

theorem Ended.released (h : s.Ended) (more : List Bytes) :
    Splitter.released (s.feed more).1 = [] ∧ (s.feed more).2 = s := by
  rw [h.feed]
  exact ⟨released_refusals _ more, rfl⟩

theorem finish_ok_iff (s : Splitter) : s.finish = .ok () ↔ s.verified = true := by
  unfold finish
  split <;> simp_all

/-! ## A digest that comes late -/

/-- What fits into so much room, each chunk taken whole or not at all. -/
def fitting (room : Nat) : List Bytes → Bytes
  | [] => []
  | chunk :: chunks =>
    if chunk.length ≤ room then chunk ++ fitting (room - chunk.length) chunks
    else fitting room chunks

theorem fitting_zero (chunks : List Bytes) : fitting 0 chunks = [] := by
  induction chunks with
  | nil => rfl
  | cons chunk chunks ih =>
    rw [fitting]
    split
    · rename_i hle
      rw [List.eq_nil_of_length_eq_zero (Nat.le_zero.mp hle), List.length_nil, ih]
      rfl
    · exact ih

/-- The payload has been taken and its digest is awaited. -/
structure Awaiting (s : Splitter) : Prop where
  verified : s.verified = false
  position : s.payloadLength ≤ s.position
  expected : s.expected.length < digestLength

/-- The digest as it will be once these chunks have been pushed. -/
def late (s : Splitter) (more : List Bytes) : Bytes :=
  s.expected ++ fitting (digestLength - s.expected.length) more

theorem late_of_lt (hlt : digestLength - s.expected.length < chunk.length) (more : List Bytes) :
    s.late (chunk :: more) = s.late more := by
  rw [late, fitting, if_neg (Nat.not_le.mpr hlt), late]

theorem late_of_le (hle : chunk.length ≤ digestLength - s.expected.length) (more : List Bytes) :
    s.late (chunk :: more) =
      s.expected ++ chunk ++ fitting (digestLength - (s.expected ++ chunk).length) more := by
  rw [late, fitting, if_pos hle, List.length_append, Nat.sub_add_eq, List.append_assoc]

/-- What is held back is set free by the right digest and by no other, however many chunks are
refused before. -/
theorem Awaiting.feed (h : s.Awaiting) (more : List Bytes) :
    released (s.feed more).1 = (if s.late more = s.hasher.finish then s.held else []) ∧
      ((s.feed more).2.verified = true ↔ s.late more = s.hasher.finish) := by
  induction more generalizing s with
  | nil =>
    have hne : s.late [] ≠ s.hasher.finish := by
      intro he
      have hlt := h.expected
      rw [late, fitting, List.append_nil] at he
      rw [he] at hlt
      exact absurd hlt (Nat.lt_irrefl _)
    rw [if_neg hne]
    refine ⟨rfl, fun hv => ?_, fun he => absurd he hne⟩
    cases h.verified.symm.trans hv
  | cons chunk more ih =>
    by_cases hne : chunk = []
    · subst hne
      exact ih h
    · have hpush := push_behind h.verified h.position hne
      rw [feed_cons]
      by_cases hlt : digestLength - s.expected.length < chunk.length
      · rw [if_pos hlt] at hpush
        rw [hpush, late_of_lt hlt]
        exact ih h
      · have hle := Nat.le_of_not_lt hlt
        rw [if_neg hlt] at hpush
        rw [hpush, late_of_le hle]
        unfold settle
        by_cases hshort : (s.expected ++ chunk).length < digestLength
        · rw [if_pos hshort]
          exact ih (s := { s with
            position := s.position + chunk.length, expected := s.expected ++ chunk })
            ⟨h.verified, Nat.le_add_right_of_le h.position, hshort⟩
        · -- the digest is whole, and nothing of what comes later counts
          have hfull : digestLength ≤ (s.expected ++ chunk).length := Nat.le_of_not_lt hshort
          rw [if_neg hshort, Nat.sub_eq_zero_of_le hfull, fitting_zero, List.append_nil]
          dsimp only
          by_cases hd : s.hasher.finish = s.expected ++ chunk
          · have hend : Ended { s with
                position := s.position + chunk.length, expected := s.expected ++ chunk
                hasher := .start, held := [], verified := true } :=
              ⟨hfull, nofun⟩
            obtain ⟨hfree, hsame⟩ := hend.released more
            rw [if_pos hd, if_pos hd.symm]
            dsimp only
            rw [hsame]
            refine ⟨?_, fun _ => hd.symm, fun _ => rfl⟩
            rw [released, List.flatMap_cons, ← released, hfree, List.append_nil]
            cases s.held <;> rfl
          · have hend : Ended { s with
                position := s.position + chunk.length, expected := s.expected ++ chunk
                hasher := .start, held := [] } :=
              ⟨hfull, fun _ => Nat.le_add_right_of_le h.position⟩
            obtain ⟨hfree, hsame⟩ := hend.released more
            rw [if_neg hd, if_neg (Ne.symm hd)]
            dsimp only
            rw [hsame]
            refine ⟨hfree, fun hv => ?_, fun he => absurd he.symm hd⟩
            cases h.verified.symm.trans hv

/-! ## Whatever was pushed before -/

/-- These chunks have been pushed. Until the digest is whole the hasher has taken in the payload as
far as it has come. -/
structure Hashes (n : Nat) (s : Splitter) (chunks : List Bytes) : Prop where
  contentLength : s.contentLength = n
  verified : s.verified = true → digestLength ≤ s.expected.length
  hasher : s.expected.length < digestLength →
    s.hasher = Md5.Hasher.start.update (chunks.flatten.take (n - digestLength))

theorem hashes_start (h : ofLength? n = .ok s) : Hashes n s [] := by
  unfold ofLength? at h
  split at h
  · cases h
  · cases h
    exact ⟨rfl, nofun, fun _ => by rw [List.flatten_nil, List.take_nil]; rfl⟩

theorem Holds.payload_left (h : Holds n s chunks out) (hv : s.verified = false) :
    s.payloadLength - s.position = n - digestLength - chunks.flatten.length := by
  cases h with
  | inside hn _ hp => rw [payloadLength, hn, hp]
  | reached h => rw [h.sub_position, Nat.sub_eq_zero_of_le h.payload]
  | whole hv' => cases hv.symm.trans hv'

theorem Hashes.filled (h : Hashes n s chunks) (hh : Holds n s chunks out)
    (hv : s.verified = false) (he : s.expected.length < digestLength) (chunk : Bytes) :
    (s.filled chunk).hasher =
      Md5.Hasher.start.update ((chunks ++ [chunk]).flatten.take (n - digestLength)) := by
  rw [flatten_concat, List.take_append, Md5.Hasher.update_append, ← h.hasher he,
    ← hh.payload_left hv]
  rfl

theorem Hashes.push (h : Hashes n s chunks) (hh : Holds n s chunks out) (chunk : Bytes) :
    Hashes n (s.push chunk).2 (chunks ++ [chunk]) := by
  have ht := takes_push s chunk
  generalize s.push chunk = p at ht ⊢
  cases ht with
  | nothing he =>
    subst he
    refine ⟨h.contentLength, h.verified, fun hlt => ?_⟩
    rw [flatten_concat, List.append_nil]
    exact h.hasher hlt
  | afterwards hv =>
    exact ⟨h.contentLength, h.verified,
      fun hlt => absurd (h.verified hv) (Nat.not_le.mpr hlt)⟩
  | inside hv hlt =>
    refine ⟨h.contentLength, fun hv' => ?_, fun he => ?_⟩
    · cases hv.symm.trans hv'
    · have hall : chunk.take (s.payloadLength - s.position) = chunk :=
        List.take_of_length_le (by omega)
      have hf := h.filled hh hv he chunk
      simp only [Splitter.filled, hall] at hf
      exact hf
  | refused hv =>
    refine ⟨h.contentLength, fun hv' => ?_, fun he => h.filled hh hv he chunk⟩
    cases hv.symm.trans hv'
  | awaited hv _ hlt =>
    have he : s.expected.length < digestLength := by
      refine Nat.lt_of_le_of_lt ?_ hlt
      exact List.length_append ▸ Nat.le_add_right _ _
    refine ⟨h.contentLength, fun hv' => ?_, fun _ => h.filled hh hv he chunk⟩
    cases hv.symm.trans hv'
  | matched hv _ _ _ hle =>
    exact ⟨h.contentLength, fun _ => hle, fun hlt => absurd hle (Nat.not_le.mpr hlt)⟩
  | mismatched hv _ hle =>
    refine ⟨h.contentLength, fun hv' => ?_, fun hlt => absurd hle (Nat.not_le.mpr hlt)⟩
    cases hv.symm.trans hv'

theorem Hashes.feed (h : Hashes n s chunks) (hh : Holds n s chunks out) (more : List Bytes) :
    Hashes n (s.feed more).2 (chunks ++ more) := by
  induction more generalizing s chunks out with
  | nil =>
    rw [List.append_nil]
    exact h
  | cons chunk more ih =>
    have hm := ih (h.push hh chunk) (hh.push chunk)
    rw [List.append_assoc] at hm
    exact hm

/-- A push that fails leaves the digest whole, or else it has taken the payload and no more. -/
theorem ended_or_awaiting (h : Hashes n s chunks) (hf : (s.push chunk).1 = .error f) :
    (s.push chunk).2.verified = s.verified ∧
      ((s.push chunk).2.Ended ∨
        f = .overlong n ∧ (s.push chunk).2 = s.filled chunk ∧ (s.push chunk).2.Awaiting) := by
  have hpos (hge : s.payloadLength ≤ s.position + chunk.length) :
      s.payloadLength ≤ (s.filled chunk).position := by
    simp only [filled, List.length_take]
    omega
  have ht := takes_push s chunk
  generalize s.push chunk = p at ht hf ⊢
  cases ht with
  | afterwards hv =>
    exact ⟨rfl, .inl ⟨h.verified hv, fun hv' => by cases hv.symm.trans hv'⟩⟩
  | refused hv hge hover =>
    refine ⟨rfl, ?_⟩
    by_cases he : s.expected.length < digestLength
    · cases hf
      exact .inr ⟨by rw [h.contentLength], rfl, hv, hpos hge, he⟩
    · exact .inl ⟨Nat.le_of_not_lt he, fun _ => hpos hge⟩
  | mismatched hv hge hle =>
    exact ⟨rfl, .inl ⟨hle, fun _ => Nat.le_add_right_of_le (hpos hge)⟩⟩
  | nothing => cases hf
  | inside => cases hf
  | awaited => cases hf
  | matched => cases hf

/-- Take a declared length with room for a digest, any chunks, pushed in order, also after one that
is refused, and one more push that fails. If the digest had come whole before it or comes with it,
right or wrong, then from there on every chunk is refused, nothing is set free, and the body does
not end well unless it had been found whole before the chunk that was too much. Otherwise the chunk
was over-long, and of that chunk only the end of the payload has been taken. From there on what is
held back is set free, and the body ends well, just if the digest comes after all, in chunks that
fit into what is missing of it. -/
theorem refusal_lasts (hn : digestLength ≤ n) :
    ∃ s₀, ofLength? n = .ok s₀ ∧ ∀ chunks chunk f more,
      let s := (s₀.feed chunks).2
      let s' := (s.push chunk).2
      let results := (s'.feed more).1
      let end' := (s'.feed more).2
      (s.push chunk).1 = .error f →
        ((∃ expected computed, f = .mismatch expected computed) ∨ s.verified = true →
          digestLength ≤ s'.expected.length) ∧
        (digestLength ≤ s'.expected.length →
          results = more.map (refusal n) ∧ released results = [] ∧
            (end'.finish = .ok () ↔ s.verified = true)) ∧
        (s'.expected.length < digestLength →
          let payload := (chunks ++ [chunk]).flatten.take (n - digestLength)
          f = .overlong n ∧ s' = s.filled chunk ∧
            released results = (if s'.late more = md5 payload then s'.held else []) ∧
            (end'.finish = .ok () ↔ s'.late more = md5 payload)) := by
  refine ⟨_, if_neg (Nat.not_lt.mpr hn), fun chunks chunk f more => ?_⟩
  have hs : ofLength? n = .ok ⟨n, 0, .start, [], [], false⟩ := if_neg (Nat.not_lt.mpr hn)
  have hholds := (holds_start hs).feed chunks
  have hhashes := (hashes_start hs).feed (holds_start hs) chunks
  generalize feed ⟨n, 0, .start, [], [], false⟩ chunks = p at hholds hhashes ⊢
  intro s s' results end' hf
  have hafter := hhashes.push hholds chunk
  obtain ⟨hverified, hcases⟩ := ended_or_awaiting hhashes hf
  refine ⟨fun hwhole => ?_, fun hwhole => ?_, fun hshort => ?_⟩
  · rcases hcases with hend | ⟨hover, -, hawait⟩
    · exact hend.expected
    · rcases hwhole with ⟨e, c, rfl⟩ | hv
      · cases hover
      · cases hawait.verified.symm.trans (hverified.trans hv)
  · rcases hcases with hend | ⟨-, -, hawait⟩
    · have hresults : s'.feed more = (more.map (refusal n), s') := by
        rw [hend.feed, hafter.contentLength]
      obtain ⟨hfree, hsame⟩ := hend.released more
      refine ⟨congrArg Prod.fst hresults, hfree, ?_⟩
      rw [finish_ok_iff, ← hverified]
      exact iff_of_eq (congrArg (Splitter.verified · = true) hsame)
    · exact absurd hwhole (Nat.not_le.mpr hawait.expected)
  · rcases hcases with hend | ⟨hover, hfilled, hawait⟩
    · exact absurd hend.expected (Nat.not_le.mpr hshort)
    · have hdigest : s'.hasher.finish = md5 _ := congrArg Md5.Hasher.finish (hafter.hasher hshort)
      obtain ⟨hfree, hok⟩ := hawait.feed more
      rw [hdigest] at hfree hok
      exact ⟨hover, hfilled, hfree, (finish_ok_iff _).trans hok⟩

/-- Two letters with a digest of zeros, and the right digest behind it: nothing is set free. -/
theorem refusal_lasts_wrong_digest :
    let start : Splitter := ⟨18, 0, .start, [], [], false⟩
    let s' := (start.push ([104, 105] ++ List.replicate 16 0)).2
    digestLength ≤ 18 ∧
      (s'.feed [md5 [104, 105], [0]]).1 = [.error (.overlong 18), .error (.overlong 18)] ∧
      (s'.feed [md5 [104, 105], [0]]).2.finish ≠ .ok () := by
  intro start s'
  have hn : digestLength ≤ 18 := by decide
  obtain ⟨s₀, hs₀, h⟩ := refusal_lasts hn
  obtain rfl : start = s₀ := Except.ok.inj hs₀
  have hf : (start.push ([104, 105] ++ List.replicate 16 0)).1 =
      .error (.mismatch (List.replicate 16 0) (md5 [104, 105])) := by
    decide +kernel
  obtain ⟨hwhole, hended, -⟩ := h [] _ _ [md5 [104, 105], [0]] hf
  obtain ⟨hresults, -, hok⟩ := hended (hwhole (.inl ⟨_, _, rfl⟩))
  refine ⟨hn, ?_, fun he => ?_⟩
  · exact hresults.trans (by decide +kernel)
  · cases hok.mp he

/-- Two letters and too many zeros are refused, and then the right digest sets the letters free. And
a byte behind a right digest is refused, but the body ends well. -/
theorem refusal_forgotten :
    let late := [[104, 105] ++ List.replicate 17 0, md5 [104, 105]]
    let surplus := [[104, 105] ++ md5 [104, 105], [0]]
    ∃ s₀, ofLength? 18 = .ok s₀ ∧
      (s₀.feed late).1 = [.error (.overlong 18), .ok (some [104, 105])] ∧
      (s₀.feed late).2.finish = .ok () ∧
      (s₀.feed surplus).1 = [.ok (some [104, 105]), .error (.overlong 18)] ∧
      (s₀.feed surplus).2.finish = .ok () := by
  refine ⟨⟨18, 0, .start, [], [], false⟩, rfl, ?_⟩
  decide +kernel

end Courier.Trailing.Splitter
