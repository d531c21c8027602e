import Courier.Proofs.Integrity.Validity

/-! # What the splitter lets out

Whatever chunks are pushed, and whether or not some of them are refused on the way, what is set free
are the chunks that end inside the payload, and the rest of the payload only in the push that finds
the digest right.
-/

namespace Courier.Trailing.Splitter

variable {n k : Nat} {s s' : Splitter} {chunk out : Bytes} {chunks : List Bytes}

/-! ## What a push can come to -/

/-- The payload of the chunk has been taken, and none of it set free. -/
def filled (s : Splitter) (chunk : Bytes) : Splitter :=
  let payload := chunk.take (s.payloadLength - s.position)
  { s with
    position := s.position + payload.length
    hasher := s.hasher.update payload, held := s.held ++ payload }

/-- The rest of the chunk has been taken too, as part of the digest. -/
def digested (s : Splitter) (chunk : Bytes) : Splitter :=
  let rest := chunk.drop (s.payloadLength - s.position)
  { s.filled chunk with
    position := (s.filled chunk).position + rest.length, expected := s.expected ++ rest }

/-- What has become of a chunk. -/
inductive Takes (s : Splitter) (chunk : Bytes) : Except Fault (Option Bytes) × Splitter → Prop

  | nothing (he : chunk = []) : Takes s chunk (.ok none, s)

  | afterwards (hv : s.verified = true) : Takes s chunk (.error (.overlong s.contentLength), s)

  | inside (hv : s.verified = false) (hlt : s.position + chunk.length < s.payloadLength) :
      Takes s chunk (.ok (some chunk),
        { s with position := s.position + chunk.length, hasher := s.hasher.update chunk })

  | refused (hv : s.verified = false) (hge : s.payloadLength ≤ s.position + chunk.length)
      (hover : digestLength - s.expected.length <
        (chunk.drop (s.payloadLength - s.position)).length) :
      Takes s chunk (.error (.overlong s.contentLength), s.filled chunk)

  | awaited (hv : s.verified = false) (hge : s.payloadLength ≤ s.position + chunk.length)
      (hlt : (s.digested chunk).expected.length < digestLength) :
      Takes s chunk (.ok none, s.digested chunk)

  | matched (hv : s.verified = false) (hge : s.payloadLength ≤ s.position + chunk.length)
      (hne : chunk ≠ [])
      (hfit : (chunk.drop (s.payloadLength - s.position)).length ≤
        digestLength - s.expected.length)
      (hle : digestLength ≤ (s.digested chunk).expected.length) :
      Takes s chunk
        (.ok (if (s.digested chunk).held.isEmpty then none else some (s.digested chunk).held),
          { s.digested chunk with hasher := .start, held := [], verified := true })

  | mismatched (hv : s.verified = false) (hge : s.payloadLength ≤ s.position + chunk.length)
      (hle : digestLength ≤ (s.digested chunk).expected.length) (computed : Bytes) :
      Takes s chunk (.error (.mismatch (s.digested chunk).expected computed),
        { s.digested chunk with hasher := .start, held := [] })

theorem takes_push (s : Splitter) (chunk : Bytes) : Takes s chunk (s.push chunk) := by
  unfold Splitter.push
  split
  · rename_i he
    exact .nothing (List.isEmpty_iff.mp he)
  · rename_i he
    have hne : chunk ≠ [] := fun h => he (List.isEmpty_iff.mpr h)
    split
    · exact .afterwards ‹_›
    · rename_i hv
      rw [Bool.not_eq_true] at hv
      rw [absorb_eq]
      dsimp only
      split
      · rename_i hlt
        rw [List.length_take] at hlt
        change _ < s.payloadLength at hlt
        have hall : chunk.take (s.payloadLength - s.position) = chunk :=
          List.take_of_length_le (by omega)
        rw [hall]
        exact .inside hv (by omega)
      · rename_i hnlt
        rw [List.length_take] at hnlt
        change ¬ _ < s.payloadLength at hnlt
        have hge : s.payloadLength ≤ s.position + chunk.length := by omega
        split
        · exact .refused hv hge ‹_›
        · rename_i hfit
          change Takes s chunk (settle (s.digested chunk))
          unfold settle
          split
          · exact .awaited hv hge ‹_›
          · rename_i hfull
            dsimp only
            split
            · exact .matched hv hge hne (Nat.le_of_not_lt hfit) (Nat.le_of_not_lt hfull)
            · exact .mismatched hv hge (Nat.le_of_not_lt hfull) _

/-! ## Chunks inside the payload -/

/-- The bytes of the first chunks, up to the one that reaches so many bytes. -/
def inside (k : Nat) : List Bytes → Bytes
  | [] => []
  | chunk :: chunks =>
    if chunk.length < k then chunk ++ inside (k - chunk.length) chunks else []

theorem inside_of_lt (h : chunks.flatten.length < k) : inside k chunks = chunks.flatten := by
  induction chunks generalizing k with
  | nil => rfl
  | cons chunk chunks ih =>
    rw [List.flatten_cons, List.length_append] at h
    rw [inside, if_pos (by omega), ih (by omega), List.flatten_cons]

theorem inside_append (h : k ≤ chunks.flatten.length) (more : List Bytes) :
    inside k (chunks ++ more) = inside k chunks := by
  induction chunks generalizing k with
  | nil =>
    obtain rfl : k = 0 := Nat.le_zero.mp h
    cases more <;> simp [inside]
  | cons chunk chunks ih =>
    rw [List.flatten_cons, List.length_append] at h
    rw [List.cons_append, inside, inside]
    split
    · rw [ih (by omega)]
    · rfl

theorem inside_boundary {before after : List Bytes} (hlt : before.flatten.length < k)
    (hle : k ≤ before.flatten.length + chunk.length) :
    inside k (before ++ chunk :: after) = before.flatten := by
  induction before generalizing k with
  | nil =>
    rw [List.flatten_nil, List.length_nil, Nat.zero_add] at hle
    rw [List.nil_append, inside, if_neg (Nat.not_lt.mpr hle), List.flatten_nil]
  | cons c before ih =>
    rw [List.flatten_cons, List.length_append] at hlt hle
    rw [List.cons_append, inside, if_pos (by omega), ih (by omega) (by omega), List.flatten_cons]

theorem inside_prefix (k : Nat) (chunks : List Bytes) :
    inside k chunks <+: chunks.flatten.take k := by
  induction chunks generalizing k with
  | nil => exact List.nil_prefix
  | cons chunk chunks ih =>
    rw [inside, List.flatten_cons]
    split
    · rename_i hlt
      rw [List.take_append, List.take_of_length_le (Nat.le_of_lt hlt)]
      exact (List.prefix_append_right_inj chunk).mpr (ih _)
    · exact List.nil_prefix

theorem length_inside_lt (hk : 0 < k) (chunks : List Bytes) : (inside k chunks).length < k := by
  induction chunks generalizing k with
  | nil => exact hk
  | cons chunk chunks ih =>
    rw [inside]
    split
    · have := ih (k := k - chunk.length) (by omega)
      rw [List.length_append]
      omega
    · exact hk

/-! ## Pushing chunk after chunk -/

/-- What a push sets free. -/
def freed : Except Fault (Option Bytes) → Bytes
  | .ok (some bytes) => bytes
  | .ok none => []
  | .error _ => []

@[simp] theorem freed_some (bytes : Bytes) : freed (.ok (some bytes)) = bytes := rfl
@[simp] theorem freed_none : freed (.ok none) = [] := rfl
@[simp] theorem freed_error (f : Fault) : freed (.error f) = [] := rfl

/-- Pushes the chunks in order, also after one that is refused. -/
def feed : Splitter → List Bytes → List (Except Fault (Option Bytes)) × Splitter
  | s, [] => ([], s)
  | s, chunk :: chunks =>
    let (result, s) := s.push chunk
    let (results, s) := feed s chunks
    (result :: results, s)

theorem feed_cons (s : Splitter) (chunk : Bytes) (chunks : List Bytes) :
    s.feed (chunk :: chunks) =
      ((s.push chunk).1 :: ((s.push chunk).2.feed chunks).1, ((s.push chunk).2.feed chunks).2) :=
  rfl

def released (results : List (Except Fault (Option Bytes))) : Bytes :=
  results.flatMap freed

/-- The end of the payload has come, and none of the chunk that brought it has been set free. -/
structure Reached (n : Nat) (s : Splitter) (chunks : List Bytes) (out : Bytes) : Prop where
  contentLength : s.contentLength = n
  verified : s.verified = false
  position : n - digestLength ≤ s.position
  payload : n - digestLength ≤ chunks.flatten.length
  letOut : out = inside (n - digestLength) chunks
  held : s.expected.length < digestLength →
    out ++ s.held = chunks.flatten.take (n - digestLength)

/-- These chunks have been pushed into the splitter of a body of so many bytes, and these bytes have
been set free. -/
inductive Holds (n : Nat) (s : Splitter) (chunks : List Bytes) (out : Bytes) : Prop

  | inside (hn : s.contentLength = n) (hv : s.verified = false)
      (hp : s.position = chunks.flatten.length) (hlt : chunks.flatten.length < n - digestLength)
      (hheld : s.held = []) (he : s.expected = []) (hout : out = chunks.flatten)

  | reached (h : Reached n s chunks out)

  | whole (hv : s.verified = true) (hle : n - digestLength ≤ chunks.flatten.length)
      (hout : out = chunks.flatten.take (n - digestLength))

theorem holds_start (h : ofLength? n = .ok s) : Holds n s [] [] := by
  unfold ofLength? at h
  split at h
  · cases h
  · cases h
    by_cases hn : 0 < n - digestLength
    · exact .inside rfl rfl rfl hn rfl rfl rfl
    · have hz : n - digestLength ≤ 0 := Nat.le_of_not_lt hn
      exact .reached ⟨rfl, rfl, hz, hz, rfl, fun _ => by simp⟩

theorem flatten_concat (chunks : List Bytes) (chunk : Bytes) :
    (chunks ++ [chunk]).flatten = chunks.flatten ++ chunk := by
  rw [List.flatten_append, List.flatten_singleton]

theorem Reached.concat (h : Reached n s chunks out) (chunk : Bytes) :
    Reached n s (chunks ++ [chunk]) out where
  contentLength := h.contentLength
  verified := h.verified
  position := h.position
  payload := by
    rw [flatten_concat, List.length_append]
    exact Nat.le_add_right_of_le h.payload
  letOut := by rw [inside_append h.payload, ← h.letOut]
  held hlt := by rw [flatten_concat, List.take_append_of_le_length h.payload, ← h.held hlt]

theorem Reached.sub_position (h : Reached n s chunks out) :
    s.payloadLength - s.position = 0 :=
  Nat.sub_eq_zero_of_le (by rw [payloadLength, h.contentLength]; exact h.position)

theorem Holds.filled (h : Holds n s chunks out) (hv : s.verified = false)
    (hge : s.payloadLength ≤ s.position + chunk.length) :
    Reached n (s.filled chunk) (chunks ++ [chunk]) out := by
  cases h with
  | inside hn _ hp hlt hheld he hout =>
    rw [payloadLength, hn, hp] at hge
    have hle : n - digestLength ≤ (chunks ++ [chunk]).flatten.length := by
      rw [flatten_concat, List.length_append]
      exact hge
    refine ⟨hn, hv, ?_, hle, ?_, fun _ => ?_⟩
    · simp only [Splitter.filled, payloadLength, hn, hp, List.length_take]
      omega
    · rw [inside_boundary hlt hge, hout]
    · rw [flatten_concat, List.take_append, List.take_of_length_le (Nat.le_of_lt hlt), hout]
      simp only [Splitter.filled, payloadLength, hn, hp, hheld, List.nil_append]
  | reached h =>
    -- the payload is complete, so that nothing of the chunk belongs to it
    have hs : s.filled chunk = s := by
      simp [Splitter.filled, h.sub_position]
    rw [hs]
    exact h.concat chunk
  | whole hv' => cases hv.symm.trans hv'

theorem Holds.expected_lt (h : Holds n s chunks out) (hv : s.verified = false) (hne : chunk ≠ [])
    (hfit : (chunk.drop (s.payloadLength - s.position)).length ≤
      digestLength - s.expected.length) : s.expected.length < digestLength := by
  cases h with
  | inside _ _ _ _ _ he _ =>
    rw [he]
    exact Nat.succ_pos 15
  | reached h =>
    have hpos : 0 < chunk.length := List.length_pos_iff.mpr hne
    rw [h.sub_position, List.drop_zero] at hfit
    omega
  | whole hv' => cases hv.symm.trans hv'

/-- Whatever is pushed, what has been set free is known from the chunks. -/
theorem Holds.push (h : Holds n s chunks out) (chunk : Bytes) :
    Holds n (s.push chunk).2 (chunks ++ [chunk]) (out ++ freed (s.push chunk).1) := by
  have ht := takes_push s chunk
  generalize s.push chunk = p at ht ⊢
  cases ht with
  | nothing he =>
    subst he
    have hflat : (chunks ++ [[]]).flatten = chunks.flatten := by
      rw [flatten_concat, List.append_nil]
    rw [freed_none, List.append_nil]
    cases h with
    | inside hn hv hp hlt hheld he hout =>
      rw [← hflat] at hp hlt hout
      exact .inside hn hv hp hlt hheld he hout
    | reached h => exact .reached (h.concat [])
    | whole hv hle hout =>
      rw [← hflat] at hle hout
      exact .whole hv hle hout
  | afterwards hv =>
    rw [freed_error, List.append_nil]
    cases h with
    | inside _ hv' => cases hv.symm.trans hv'
    | reached h => cases hv.symm.trans h.verified
    | whole _ hle hout =>
      refine .whole hv ?_ ?_
      · rw [flatten_concat, List.length_append]
        exact Nat.le_add_right_of_le hle
      · rw [flatten_concat, List.take_append_of_le_length hle, hout]
  | inside hv hlt =>
    cases h with
    | inside hn _ hp hlt' hheld he hout =>
      have hl : (chunks ++ [chunk]).flatten.length = chunks.flatten.length + chunk.length := by
        rw [flatten_concat, List.length_append]
      rw [payloadLength, hn, hp, ← hl] at hlt
      refine .inside hn hv ?_ hlt hheld he ?_
      · rw [hl, hp]
      · rw [flatten_concat, hout, freed_some]
    | reached h =>
      have hp := h.position
      rw [payloadLength, h.contentLength] at hlt
      omega
    | whole hv' => cases hv.symm.trans hv'
  | refused hv hge _ =>
    rw [freed_error, List.append_nil]
    exact .reached (h.filled hv hge)
  | awaited hv hge hlt =>
    have hf := h.filled hv hge
    rw [freed_none, List.append_nil]
    refine .reached ⟨hf.contentLength, hv, Nat.le_add_right_of_le hf.position, hf.payload,
      hf.letOut, fun _ => hf.held ?_⟩
    refine Nat.lt_of_le_of_lt ?_ hlt
    exact (List.length_append ▸ Nat.le_add_right _ _)
  | matched hv hge hne hfit =>
    have hf := h.filled hv hge
    have hout : freed (.ok (if (s.digested chunk).held.isEmpty then none
        else some (s.digested chunk).held)) = (s.filled chunk).held := by
      cases hheld : (s.digested chunk).held with
      | nil => exact hheld.symm
      | cons b bs => exact hheld.symm
    refine .whole rfl hf.payload ?_
    rw [hout, hf.held (h.expected_lt hv hne hfit)]
  | mismatched hv hge hle computed =>
    have hf := h.filled hv hge
    rw [freed_error, List.append_nil]
    exact .reached ⟨hf.contentLength, hv, Nat.le_add_right_of_le hf.position, hf.payload, hf.letOut,
      fun hlt => absurd hle (Nat.not_le.mpr hlt)⟩

theorem Holds.feed (h : Holds n s chunks out) (more : List Bytes) :
    Holds n (s.feed more).2 (chunks ++ more) (out ++ released (s.feed more).1) := by
  induction more generalizing s chunks out with
  | nil =>
    rw [List.append_nil]
    exact (List.append_nil out).symm ▸ h
  | cons chunk more ih =>
    have hm := ih (h.push chunk)
    rw [List.append_assoc, List.append_assoc] at hm
    exact hm

namespace Holds

theorem isPrefix (h : Holds n s chunks out) : out <+: chunks.flatten.take (n - digestLength) := by
  cases h with
  | inside _ _ _ hlt _ _ hout =>
    rw [List.take_of_length_le (Nat.le_of_lt hlt)]
    exact hout ▸ List.prefix_rfl
  | reached h => exact h.letOut ▸ inside_prefix _ chunks
  | whole _ _ hout => exact hout ▸ List.prefix_rfl

theorem eq_inside (h : Holds n s chunks out) (hv : s.verified = false) :
    out = Splitter.inside (n - digestLength) chunks := by
  cases h with
  | inside _ _ _ hlt _ _ hout => rw [hout, inside_of_lt hlt]
  | reached h => exact h.letOut
  | whole hv' => cases hv.symm.trans hv'

theorem verified_of_length (h : Holds n s chunks out) (hn : digestLength < n)
    (hl : out.length = n - digestLength) : s.verified = true := by
  cases hv : s.verified with
  | true => rfl
  | false =>
    have hlt := length_inside_lt (Nat.sub_pos_of_lt hn) chunks
    rw [← h.eq_inside hv, hl] at hlt
    exact absurd hlt (Nat.lt_irrefl _)

theorem push_inside (h : Holds n s chunks out)
    (hlt : (chunks.flatten ++ chunk).length < n - digestLength) :
    ∃ r, (s.push chunk).1 = .ok r ∧ r.getD [] = chunk := by
  rw [List.length_append] at hlt
  cases h with
  | inside hn hv hp _ _ _ _ =>
    have hshort : ¬ s.payloadLength ≤ s.position + chunk.length := by
      rw [payloadLength, hn, hp]
      exact Nat.not_le.mpr hlt
    have ht := takes_push s chunk
    generalize s.push chunk = p at ht ⊢
    cases ht with
    | nothing he => exact ⟨none, rfl, he.symm⟩
    | afterwards hv' => cases hv.symm.trans hv'
    | inside => exact ⟨some chunk, rfl, rfl⟩
    | refused _ hge => exact absurd hge hshort
    | awaited _ hge => exact absurd hge hshort
    | matched _ hge => exact absurd hge hshort
    | mismatched _ hge => exact absurd hge hshort
  | reached h =>
    have := h.payload
    omega
  | whole _ hle => omega

end Holds

/-! ## Digests that do not match -/

/-- A digest has come whole that was not the right one. -/
structure Spoilt (s : Splitter) : Prop where
  verified : s.verified = false
  position : s.payloadLength ≤ s.position
  expected : digestLength ≤ s.expected.length

theorem Spoilt.push (h : Spoilt s) (chunk : Bytes) : Spoilt (s.push chunk).2 := by
  have hp := h.position
  have ht := takes_push s chunk
  generalize s.push chunk = p at ht ⊢
  cases ht with
  | nothing => exact h
  | afterwards => exact h
  | inside _ hlt => omega
  | refused hv => exact ⟨hv, Nat.le_add_right_of_le hp, h.expected⟩
  | awaited _ _ hlt =>
    have he := h.expected
    rw [digested, List.length_append] at hlt
    omega
  | matched _ _ hne hfit =>
    have hpos : 0 < chunk.length := List.length_pos_iff.mpr hne
    have he := h.expected
    rw [Nat.sub_eq_zero_of_le hp, List.drop_zero] at hfit
    omega
  | mismatched hv _ hle =>
    exact ⟨hv, Nat.le_add_right_of_le (Nat.le_add_right_of_le hp), hle⟩

theorem Spoilt.feed (h : Spoilt s) (chunks : List Bytes) : Spoilt (s.feed chunks).2 := by
  induction chunks generalizing s with
  | nil => exact h
  | cons chunk chunks ih => exact ih (h.push chunk)

theorem spoilt_of_push {e c : Bytes} (h : (s.push chunk).1 = .error (.mismatch e c)) :
    Spoilt (s.push chunk).2 := by
  have ht := takes_push s chunk
  generalize s.push chunk = p at ht h ⊢
  cases ht with
  | mismatched hv hge hle =>
    refine ⟨hv, ?_, hle⟩
    simp only [digested, filled, payloadLength, List.length_take] at hge ⊢
    omega
  | _ => cases h

theorem spoilt_of_mismatch {e c : Bytes} (h : .error (.mismatch e c) ∈ (s.feed chunks).1) :
    Spoilt (s.feed chunks).2 := by
  induction chunks generalizing s with
  | nil => cases h
  | cons chunk chunks ih =>
    rw [feed_cons] at h ⊢
    rcases List.mem_cons.mp h with h | h
    · exact (spoilt_of_push h.symm).feed chunks
    · exact ih h

/-- As long as no chunk is refused, the splitter keeps track. -/
theorem Tracks.feed {fed : Bytes} (h : Tracks n s fed out) (hn : digestLength ≤ n)
    (hok : ∀ r ∈ (s.feed chunks).1, ∃ o, r = .ok o) :
    Tracks n (s.feed chunks).2 (fed ++ chunks.flatten) (out ++ released (s.feed chunks).1) := by
  induction chunks generalizing s fed out with
  | nil =>
    rw [List.flatten_nil, List.append_nil]
    exact (List.append_nil out).symm ▸ h
  | cons chunk chunks ih =>
    rw [feed_cons] at hok ⊢
    obtain ⟨⟨o, ho⟩, hoks⟩ := List.forall_mem_cons.mp hok
    have hp : s.push chunk = (.ok o, (s.push chunk).2) := Prod.ext ho rfl
    have hfreed : freed (s.push chunk).1 = o.getD [] := by
      rw [ho]
      cases o <;> rfl
    have ht := ih (h.push hn hp) hoks
    rw [← hfreed, List.append_assoc, List.append_assoc] at ht
    exact ht

/-- A digest is wrong once a push has found it so, and also if no chunk has been refused and the
bytes behind the payload are not its digest. -/
inductive WrongDigest (n : Nat) (chunks : List Bytes)
    (results : List (Except Fault (Option Bytes))) : Prop

  | found {expected computed : Bytes} (h : .error (.mismatch expected computed) ∈ results) :
      WrongDigest n chunks results

  | brought (hok : ∀ r ∈ results, ∃ o, r = .ok o)
      (hd : (chunks.flatten.drop (n - digestLength)).take digestLength ≠
        md5 (chunks.flatten.take (n - digestLength))) : WrongDigest n chunks results

theorem not_verified_of_wrongDigest (hn : digestLength ≤ n) (hs : ofLength? n = .ok s)
    (h : WrongDigest n chunks (s.feed chunks).1) : (s.feed chunks).2.verified = false := by
  cases h with
  | found h => exact (spoilt_of_mismatch h).verified
  | brought hok hd =>
    have ht := (tracks_start hs).1.feed hn hok
    rw [List.nil_append] at ht
    cases ht with
    | parting _ hv => exact hv
    | whole _ _ hf hl =>
      rw [hf, List.length_append, length_md5] at hl
      have hout : n - digestLength = ([] ++ released (s.feed chunks).1).length :=
        Nat.sub_eq_of_eq_add hl.symm
      rw [hf, hout, List.drop_left, List.take_left] at hd
      exact absurd (List.take_of_length_le (Nat.le_of_eq (length_md5 _))) hd

/-- Take a declared length with room for a digest, and any chunks, pushed in order, also after one
that is refused. What is set free is a prefix of the payload, that is of as many bytes pushed as are
declared besides the digest. It is all of a payload that is not empty only if the splitter is
verified. A chunk that comes next and ends inside the payload is set free whole and at once. And if
the digest is wrong, or just not verified, nothing is set free of the chunk that brings the end of
the payload. -/
theorem released_before_verified (hn : digestLength ≤ n) :
    ∃ s₀, ofLength? n = .ok s₀ ∧ ∀ chunks,
      let results := (s₀.feed chunks).1
      let s := (s₀.feed chunks).2
      released results <+: chunks.flatten.take (n - digestLength) ∧
      (digestLength < n → (released results).length = n - digestLength → s.verified = true) ∧
      (∀ chunk, (chunks.flatten ++ chunk).length < n - digestLength →
        ∃ r, (s.push chunk).1 = .ok r ∧ r.getD [] = chunk) ∧
      ∀ before chunk after, chunks = before ++ chunk :: after →
        before.flatten.length < n - digestLength →
        n - digestLength ≤ before.flatten.length + chunk.length →
        WrongDigest n chunks results ∨ s.verified = false → released results = before.flatten := by
  refine ⟨_, if_neg (Nat.not_lt.mpr hn), fun chunks => ?_⟩
  have hs : ofLength? n = .ok ⟨n, 0, .start, [], [], false⟩ := if_neg (Nat.not_lt.mpr hn)
  have h := (holds_start hs).feed chunks
  rw [List.nil_append, List.nil_append] at h
  refine ⟨h.isPrefix, h.verified_of_length, fun chunk => h.push_inside, ?_⟩
  intro before chunk after hc hlt hle hwrong
  have hv := hwrong.elim (not_verified_of_wrongDigest hn hs) id
  rw [h.eq_inside hv, hc, inside_boundary hlt hle]

/-- Of two bytes the second comes with zeros for a digest. It is not set free, not even when the
right digest is pushed after them. -/
theorem released_before_verified_zeros :
    ∃ s₀, ofLength? 18 = .ok s₀ ∧
      let results := (s₀.feed [[104], 105 :: List.replicate 16 0, md5 [104, 105]]).1
      (∃ e c, .error (.mismatch e c) ∈ results) ∧ released results = [104] := by
  obtain ⟨s₀, hs, h⟩ := released_before_verified (n := 18) (by decide)
  obtain rfl : ⟨18, 0, .start, [], [], false⟩ = s₀ := Except.ok.inj hs
  have hm : .error (.mismatch (List.replicate 16 0) (md5 [104, 105])) ∈
      (feed ⟨18, 0, .start, [], [], false⟩
        [[104], 105 :: List.replicate 16 0, md5 [104, 105]]).1 := by
    decide +kernel
  obtain ⟨-, -, -, hwithheld⟩ := h [[104], 105 :: List.replicate 16 0, md5 [104, 105]]
  exact ⟨_, rfl, ⟨_, _, hm⟩,
    hwithheld [[104]] _ _ rfl (by decide) (by decide) (.inl (.found hm))⟩

end Courier.Trailing.Splitter
