import Courier.Integrity.Trailing.Splitter

/-! # What the splitter has seen and released

At any point what was fed is what was released, what is held back, and the part of the expected
digest that has come. Nothing is held back before the payload is complete, and once the digest is
verified the body is the payload with its digest.
-/

namespace Courier.Trailing.Splitter

variable {n : Nat} {s s' : Splitter} {fed out chunk : Bytes}

/-- The splitter of a body of `n` bytes has been fed some bytes and has released others. -/
inductive Tracks (n : Nat) (s : Splitter) (fed out : Bytes) : Prop

  | parting (hn : s.contentLength = n) (hv : s.verified = false)
      (hf : fed = out ++ s.held ++ s.expected)
      (hh : s.hasher = Md5.Hasher.start.update (out ++ s.held)) (hp : s.position = fed.length)
      (hle : (out ++ s.held).length ≤ s.payloadLength)
      (hfull : s.held ++ s.expected ≠ [] → (out ++ s.held).length = s.payloadLength)
      (he : s.expected.length < digestLength)

  | whole (hn : s.contentLength = n) (hv : s.verified = true) (hf : fed = out ++ md5 out)
      (hl : fed.length = n)

theorem tracks_start (h : ofLength? n = .ok s) : Tracks n s [] [] ∧ s.payloadLength + 16 = n := by
  unfold ofLength? at h
  split at h
  · cases h
  · rename_i hn
    cases h
    refine ⟨.parting rfl rfl rfl rfl rfl (Nat.zero_le _) (fun hne => absurd rfl hne) ?_, ?_⟩
    · exact Nat.succ_pos 15
    · unfold payloadLength digestLength at *
      dsimp only
      omega

theorem absorb_eq (s : Splitter) (chunk : Bytes) :
    let k := s.payloadLength - s.position
    s.absorb chunk = (chunk.take k, chunk.drop k,
      { s with
        position := s.position + (chunk.take k).length
        hasher := s.hasher.update (chunk.take k) }) := by
  simp [absorb]

theorem Tracks.nothing_held (h : Tracks n s fed out) (hv : s.verified = false)
    (hp : s.position < s.payloadLength) : s.held = [] ∧ s.expected = [] := by
  cases h with
  | whole _ hv' _ _ => cases hv.symm.trans hv'
  | parting _ _ hf _ hpos _ hfull _ =>
    have hnil : s.held ++ s.expected = [] := by
      refine Decidable.byContradiction fun hne => ?_
      have hl := hfull hne
      rw [hpos, hf, List.length_append] at hp
      omega
    exact List.append_eq_nil_iff.mp hnil

theorem Tracks.release (h : Tracks n s fed out) (hv : s.verified = false)
    (hlt : s.position + (chunk.take (s.payloadLength - s.position)).length < s.payloadLength) :
    let s' := { s with
      position := s.position + (chunk.take (s.payloadLength - s.position)).length
      hasher := s.hasher.update (chunk.take (s.payloadLength - s.position)) }
    chunk.take (s.payloadLength - s.position) = chunk ∧
      Tracks n s' (fed ++ chunk) (out ++ chunk) := by
  have hall : chunk.take (s.payloadLength - s.position) = chunk := by
    rw [List.length_take] at hlt
    exact List.take_of_length_le (by omega)
  obtain ⟨hh, he⟩ := h.nothing_held hv (by omega)
  rw [hall] at hlt ⊢
  cases h with
  | whole _ hv' _ _ => cases hv.symm.trans hv'
  | parting hn _ hf hhash hp hle _ hlen =>
    rw [hh, he, List.append_nil, List.append_nil] at hf
    subst hf
    rw [hh, List.append_nil] at hhash
    refine ⟨rfl, .parting hn hv ?_ ?_ ?_ ?_ ?_ hlen⟩
    · simp [hh, he]
    · simp [hh, hhash, Md5.Hasher.update_append]
    · simp [hp]
    · simp only [hh, List.append_nil, List.length_append]
      change _ ≤ s.payloadLength
      omega
    · simp [hh, he]

/-- The payload is complete, and at most the whole of its digest has come. -/
structure Complete (n : Nat) (s : Splitter) (fed out : Bytes) : Prop where
  contentLength : s.contentLength = n
  verified : s.verified = false
  parts : fed = out ++ s.held ++ s.expected
  hasher : s.hasher = Md5.Hasher.start.update (out ++ s.held)
  position : s.position = fed.length
  payload : (out ++ s.held).length = s.payloadLength
  expected : s.expected.length ≤ digestLength

theorem Complete.settle (h : Complete n s fed out) (hn : digestLength ≤ n) {r : Option Bytes}
    (hr : s.settle = (.ok r, s')) : Tracks n s' fed (out ++ r.getD []) := by
  unfold Splitter.settle at hr
  split at hr
  · rename_i hlt
    cases hr
    rw [Option.getD_none, List.append_nil]
    exact .parting h.contentLength h.verified h.parts h.hasher h.position (Nat.le_of_eq h.payload)
      (fun _ => h.payload) hlt
  · rename_i hlt
    dsimp only at hr
    split at hr
    · rename_i hd
      have hout : (if s.held.isEmpty then none else some s.held).getD [] = s.held := by
        cases s.held <;> rfl
      cases hr
      rw [hout]
      have hmd : s.expected = md5 (out ++ s.held) := by
        rw [← hd, h.hasher]
        rfl
      refine .whole h.contentLength rfl (by rw [← hmd]; exact h.parts) ?_
      have hp := h.payload
      have he := h.expected
      have hc := h.contentLength
      rw [h.parts, List.length_append, hp]
      unfold payloadLength at *
      omega
    · cases hr

theorem Tracks.parted (h : Tracks n s fed out) (hv : s.verified = false) (chunk : Bytes) :
    s.expected = [] ∨ chunk.take (s.payloadLength - s.position) = [] := by
  by_cases hp : s.position < s.payloadLength
  · exact .inl (h.nothing_held hv hp).2
  · rw [Nat.sub_eq_zero_of_le (by omega), List.take_zero]
    exact .inr rfl

theorem Tracks.fills (h : Tracks n s fed out) (hv : s.verified = false)
    (hge : s.payloadLength ≤
      s.position + (chunk.take (s.payloadLength - s.position)).length) :
    (out ++ s.held ++ chunk.take (s.payloadLength - s.position)).length = s.payloadLength := by
  have hk : (chunk.take (s.payloadLength - s.position)).length ≤ s.payloadLength - s.position :=
    List.length_take_le _ _
  have hheld : s.position < s.payloadLength → s.held = [] ∧ s.expected = [] := h.nothing_held hv
  generalize chunk.take (s.payloadLength - s.position) = payload at *
  rw [List.length_append]
  cases h with
  | whole _ hv' _ _ => cases hv.symm.trans hv'
  | parting _ _ hf _ hp hle hfull _ =>
    by_cases hpos : s.position < s.payloadLength
    · obtain ⟨hh, he⟩ := hheld hpos
      rw [hh, he, List.append_nil, List.append_nil] at hf
      rw [hh, List.append_nil, ← hf]
      omega
    · by_cases hne : s.held ++ s.expected = []
      · obtain ⟨hh, he⟩ := List.append_eq_nil_iff.mp hne
        rw [he, List.append_nil] at hf
        rw [← hf] at hle ⊢
        omega
      · have := hfull hne
        omega

theorem Tracks.complete (h : Tracks n s fed out) (hv : s.verified = false)
    (hge : s.payloadLength ≤
      s.position + (chunk.take (s.payloadLength - s.position)).length)
    (hfit : (chunk.drop (s.payloadLength - s.position)).length ≤
      digestLength - s.expected.length) :
    let payload := chunk.take (s.payloadLength - s.position)
    let rest := chunk.drop (s.payloadLength - s.position)
    Complete n
      { s with
        position := s.position + payload.length + rest.length
        hasher := s.hasher.update payload, held := s.held ++ payload
        expected := s.expected ++ rest }
      (fed ++ chunk) out := by
  have hchunk := List.take_append_drop (s.payloadLength - s.position) chunk
  have hor := h.parted hv chunk
  have hfills := h.fills hv hge
  generalize chunk.take (s.payloadLength - s.position) = payload at *
  generalize chunk.drop (s.payloadLength - s.position) = rest at *
  cases h with
  | whole _ hv' _ _ => cases hv.symm.trans hv'
  | parting hn _ hf hhash hp _ _ hlt =>
    constructor
    · exact hn
    · exact hv
    · rw [hf, ← hchunk]
      rcases hor with he | he <;> simp [he]
    · rw [hhash, ← List.append_assoc, Md5.Hasher.update_append _ (out ++ s.held)]
    · dsimp only
      rw [hp, List.length_append, ← hchunk, List.length_append, Nat.add_assoc]
    · rw [← List.append_assoc]
      exact hfills
    · rw [List.length_append]
      omega

/-- Whatever chunk comes, the splitter keeps track until it fails. -/
theorem Tracks.push (h : Tracks n s fed out) (hn : digestLength ≤ n) {r : Option Bytes}
    (hr : s.push chunk = (.ok r, s')) : Tracks n s' (fed ++ chunk) (out ++ r.getD []) := by
  unfold Splitter.push at hr
  split at hr
  · rename_i he
    rw [List.isEmpty_iff] at he
    cases hr
    simpa [he] using h
  · split at hr
    · cases hr
    · rename_i hv
      rw [Bool.not_eq_true] at hv
      rw [absorb_eq] at hr
      dsimp only at hr
      split at hr
      · rename_i hlt
        obtain ⟨hall, hrel⟩ := h.release hv hlt
        cases hr
        rw [Option.getD_some]
        rw [hall] at hrel ⊢
        exact hrel
      · rename_i hge
        split at hr
        · cases hr
        · rename_i hfit
          have hc := h.complete hv (Nat.le_of_not_lt hge) (Nat.le_of_not_lt hfit)
          exact hc.settle hn hr

/-- A body that the splitter lets end is the payload with its digest, and as long as declared. -/
theorem Tracks.finish (h : Tracks n s fed out) (hf : s.finish = .ok ()) :
    fed = out ++ md5 out ∧ fed.length = n := by
  unfold Splitter.finish at hf
  split at hf
  · rename_i hv
    cases h with
    | parting _ hv' _ _ _ _ _ _ => cases hv.symm.trans hv'
    | whole _ _ hfed hl => exact ⟨hfed, hl⟩
  · cases hf

end Courier.Trailing.Splitter
