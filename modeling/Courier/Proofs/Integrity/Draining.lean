import Courier.Integrity.Trailing.Reader
import Courier.Proofs.Integrity.Validity

/-! # Draining the reader

A reader that is drained over short reads, into buffers of any sizes, accepts the same bodies as the
splitter and gives the same payload. What carries the argument is what is left: once some payload
has been handed on, the rest of the body has to be the rest of the payload with the digest of it
all.
-/

namespace Courier.Trailing

/-! ## Sources that end well -/

/-- The source gives these bytes in parts, none of them empty, and then comes to its end. Whatever
short reads a run finds, they are the parts of such a source. -/
inductive Source.Pours : Source → Bytes → Prop

  | ended : Pours [] []

  | part {s : Source} {front rest : Bytes} (hf : front ≠ []) (h : Pours s rest) :
      Pours (.data front :: s) (front ++ rest)

namespace Source.Pours

variable {s : Source} {body : Bytes} {n reads : Nat}

theorem length_le_size (h : s.Pours body) : body.length ≤ s.size := by
  induction h with
  | ended => exact Nat.zero_le _
  | part _ _ ih =>
    rw [List.length_append, Source.size]
    omega

theorem read (h : s.Pours body) (hn : 0 < n) :
    ∃ front rest s', s.read n = (.ok front, s') ∧ s'.Pours rest ∧ body = front ++ rest ∧
      front.length ≤ n ∧ (front = [] → body = []) := by
  cases h with
  | ended => exact ⟨[], [], [], rfl, .ended, rfl, Nat.zero_le n, fun _ => rfl⟩
  | @part s front rest hf h =>
    have hsplit : front ++ rest = front.take n ++ (front.drop n ++ rest) := by
      rw [← List.append_assoc, List.take_append_drop]
    have htake : front.take n ≠ [] := by simp [hf, Nat.ne_of_gt hn]
    by_cases hd : front.drop n = []
    · refine ⟨front.take n, rest, s, ?_, h, ?_, List.length_take_le _ _, fun he => absurd he htake⟩
      · simp [Source.read, hd]
      · rw [hsplit, hd, List.nil_append]
    · refine ⟨front.take n, front.drop n ++ rest, .data (front.drop n) :: s, ?_, .part hd h, hsplit,
        List.length_take_le _ _, fun he => absurd he htake⟩
      simp only [Source.read, List.isEmpty_eq_false_iff.mpr hd, Bool.false_eq_true, if_false]

theorem readExact (h : s.Pours body) (hr : body.length < reads) :
    (∃ s', s.readExact n reads = (.ok (body.take n), s') ∧ s'.Pours (body.drop n) ∧
      n ≤ body.length) ∨
    ∃ f s', s.readExact n reads = (.error f, s') ∧ f.kind = .unexpectedEof ∧ body.length < n := by
  induction reads generalizing n s body with
  | zero => exact absurd hr (Nat.not_lt_zero _)
  | succ reads ih =>
    unfold Source.readExact
    by_cases hn : n = 0
    · subst hn
      exact .inl ⟨s, by simp, h, Nat.zero_le _⟩
    · obtain ⟨front, rest, s', hread, hs', rfl, hle, hempty⟩ := h.read (Nat.pos_of_ne_zero hn)
      rw [if_neg hn, hread]
      dsimp only
      by_cases hf : front = []
      · have hb := hempty hf
        rw [hb, hf, List.isEmpty_nil, if_pos rfl]
        exact .inr ⟨_, s', rfl, rfl, Nat.pos_of_ne_zero hn⟩
      · have hpos : 0 < front.length := List.length_pos_iff.mpr hf
        rw [List.isEmpty_eq_false_iff.mpr hf, if_neg Bool.false_ne_true]
        rw [List.length_append] at hr ⊢
        rcases ih (n := n - front.length) hs' (by omega) with
          ⟨s'', hmore, hs'', hlen⟩ | ⟨f, s'', hmore, hk, hlen⟩
        · rw [hmore]
          refine .inl ⟨s'', ?_, ?_, by omega⟩
          · rw [List.take_append, List.take_of_length_le hle]
          · rw [List.drop_append, List.drop_eq_nil_of_le hle, List.nil_append]
            exact hs''
        · rw [hmore]
          exact .inr ⟨f, s'', rfl, hk, by omega⟩

theorem readDigest (h : s.Pours body) :
    (∃ s', Reader.readDigest s = (.ok (body.take digestLength), s') ∧
      s'.Pours (body.drop digestLength) ∧ digestLength ≤ body.length) ∨
    ∃ e s', Reader.readDigest s = (.error e, s') ∧ body.length < digestLength := by
  unfold Reader.readDigest
  rcases h.readExact (n := digestLength) (Nat.lt_succ_of_le h.length_le_size) with
    ⟨s', hread, hs', hlen⟩ | ⟨f, s', hread, _, hlen⟩
  · rw [hread]
    exact .inl ⟨s', rfl, hs', hlen⟩
  · rw [hread]
    exact .inr ⟨_, s', rfl, hlen⟩

end Source.Pours

namespace Reader

variable {r r' : Reader} {rest out payload : Bytes} {n : Nat}

/-! ## The digest -/

theorem verify_iff (h : r.inner.Pours rest) :
    (∃ r', r.verify = (.ok (), r')) ↔ rest = r.hasher.finish := by
  have hfinish : r.hasher.finish.length = digestLength := rfl
  unfold verify
  rcases h.readDigest with ⟨s, hread, hs, hlen⟩ | ⟨e, s, hread, hlen⟩
  · rw [hread]
    dsimp only
    by_cases hd : r.hasher.finish = rest.take digestLength
    · obtain ⟨front, more, s', hprobe, _, hmore, _, hempty⟩ := hs.read Nat.one_pos
      rw [if_pos hd, hprobe]
      dsimp only
      by_cases hf : front = []
      · rw [hf, List.isEmpty_nil, if_pos rfl, hd]
        have hall : rest.length ≤ digestLength := List.drop_eq_nil_iff.mp (hempty hf)
        exact ⟨fun _ => (List.take_of_length_le hall).symm, fun _ => ⟨_, rfl⟩⟩
      · rw [List.isEmpty_eq_false_iff.mpr hf, if_neg Bool.false_ne_true]
        constructor
        · rintro ⟨_, he⟩
          cases he
        · intro he
          rw [he, List.drop_eq_nil_of_le (Nat.le_of_eq hfinish)] at hmore
          exact absurd (List.append_eq_nil_iff.mp hmore.symm).1 hf
    · rw [if_neg hd]
      constructor
      · rintro ⟨_, he⟩
        cases he
      · intro he
        rw [he, List.take_of_length_le (Nat.le_of_eq hfinish)] at hd
        exact absurd rfl hd
  · rw [hread]
    constructor
    · rintro ⟨_, he⟩
      cases he
    · intro he
      rw [he, hfinish] at hlen
      exact absurd hlen (Nat.lt_irrefl _)

theorem of_verify (h : r.verify = (.ok (), r')) :
    r'.verified = true ∧ r'.remaining = r.remaining := by
  unfold verify at h
  rcases hd : readDigest r.inner with ⟨e | expected, s⟩
  · rw [hd] at h
    cases h
  · rw [hd] at h
    dsimp only at h
    split at h
    · rcases hp : s.read 1 with ⟨f | probe, s'⟩
      · rw [hp] at h
        cases h
      · rw [hp] at h
        dsimp only at h
        split at h
        · cases h
          exact ⟨rfl, rfl⟩
        · cases h
    · cases h

/-! ## Reading to the end -/

theorem remaining_read {b : UInt8} {bs : Bytes} (h : r.read n = (.ok (b :: bs), r')) :
    r'.remaining < r.remaining := by
  unfold read at h
  split at h
  · split at h
    · cases h
    · split at h <;> cases h
  · rename_i hr
    split at h
    · cases h
    · split at h
      · cases h
      · rename_i bytes s hread
        dsimp only at h
        split at h
        · cases h
        · rename_i hne
          have hpos : 0 < bytes.length := by
            rw [List.length_pos_iff]
            simpa using hne
          split at h
          · split at h
            · cases h
            · rename_i r'' hv
              cases h
              rw [(of_verify hv).2]
              dsimp only
              omega
          · cases h
            dsimp only
            omega

def drain (sizes : Nat → Nat) (r : Reader) : Except ReadError Bytes :=
  match _ : r.read (sizes 0) with
  | (.error e, _) => .error e
  | (.ok [], _) => .ok []
  | (.ok (b :: bs), r') => (drain (fun i => sizes (i + 1)) r').map ((b :: bs) ++ ·)
termination_by r.remaining
decreasing_by exact remaining_read ‹_›

theorem drain_of_error {sizes : Nat → Nat} {e : ReadError}
    (h : r.read (sizes 0) = (.error e, r')) : r.drain sizes = .error e := by
  unfold drain
  split <;> simp_all

theorem drain_of_nil {sizes : Nat → Nat} (h : r.read (sizes 0) = (.ok [], r')) :
    r.drain sizes = .ok [] := by
  unfold drain
  split <;> simp_all

theorem drain_of_ne_nil {sizes : Nat → Nat} {front : Bytes}
    (h : r.read (sizes 0) = (.ok front, r')) (hf : front ≠ []) :
    r.drain sizes = (r'.drain fun i => sizes (i + 1)).map (front ++ ·) := by
  rw [drain]
  split <;> simp_all

/-! ## The verdict -/

/-- Some of the payload has been handed on, and these bytes are left in the source. -/
structure Midway (r : Reader) (out rest : Bytes) : Prop where
  inner : r.inner.Pours rest
  hasher : r.hasher = Md5.Hasher.start.update out
  verified : r.verified = false

/-- What a read comes to that is given room for something. -/
inductive Reads (r : Reader) (out : Bytes) : Bytes → Except ReadError Bytes × Reader → Prop

  | onward {front more : Bytes} {r' : Reader} (hf : front ≠ []) (h : r'.Midway (out ++ front) more)
      (hr : front.length + r'.remaining = r.remaining) :
      Reads r out (front ++ more) (.ok front, r')

  | last {front : Bytes} {r' : Reader} (hf : front ≠ []) (hr : front.length = r.remaining)
      (h : r'.remaining = 0) (hv : r'.verified = true) :
      Reads r out (front ++ md5 (out ++ front)) (.ok front, r')

  | through {r' : Reader} (hr : r.remaining = 0) : Reads r out (md5 out) (.ok [], r')

  | refused {rest : Bytes} {e : ReadError} {r' : Reader}
      (hp : ∀ payload, payload.length = r.remaining →
        rest ≠ payload ++ md5 (out ++ payload)) : Reads r out rest (.error e, r')

theorem Midway.reads (h : r.Midway out rest) (hn : 0 < n) : Reads r out rest (r.read n) := by
  unfold read
  split
  · rename_i hr
    rw [h.verified, if_neg Bool.false_ne_true]
    have hiff := verify_iff h.inner
    rw [h.hasher, ← md5] at hiff
    rcases hv : r.verify with ⟨e | _, r'⟩
    · refine .refused fun payload hl he => ?_
      rw [hr] at hl
      rw [List.eq_nil_of_length_eq_zero hl, List.append_nil, List.nil_append] at he
      obtain ⟨r'', hok⟩ := hiff.mpr he
      cases hv.symm.trans hok
    · rw [hiff.mp ⟨r', hv⟩]
      exact .through hr
  · rename_i hr
    rw [if_neg (Nat.ne_of_gt hn)]
    obtain ⟨front, more, s, hread, hs, rfl, hle, hempty⟩ :=
      h.inner.read (n := min r.remaining n) (by omega)
    rw [hread]
    dsimp only
    by_cases hf : front = []
    · rw [hf, List.isEmpty_nil, if_pos rfl, ← hf, hempty hf]
      refine .refused fun payload hl he => ?_
      have hnil := (List.append_eq_nil_iff.mp he.symm).1
      rw [hnil] at hl
      exact hr hl.symm
    · rw [List.isEmpty_eq_false_iff.mpr hf, if_neg Bool.false_ne_true, h.hasher,
        ← Md5.Hasher.update_append]
      split
      · rename_i hz
        have hl : front.length = r.remaining := by omega
        have hiff := verify_iff (r := { r with
          inner := s, hasher := Md5.Hasher.start.update (out ++ front)
          remaining := r.remaining - front.length }) hs
        rcases hv : Reader.verify { r with
          inner := s, hasher := Md5.Hasher.start.update (out ++ front)
          remaining := r.remaining - front.length } with ⟨e | _, r'⟩
        · refine .refused fun payload hpl he => ?_
          obtain ⟨rfl, hmore⟩ := List.append_inj he (hl.trans hpl.symm)
          obtain ⟨r'', hok⟩ := hiff.mpr hmore
          cases hv.symm.trans hok
        · obtain ⟨hver, hrem⟩ := of_verify hv
          rw [hiff.mp ⟨r', hv⟩]
          exact .last hf hl (hrem.trans hz) hver
      · exact .onward hf ⟨hs, rfl, h.verified⟩ (by dsimp only; omega)

theorem drain_of_verified {sizes : Nat → Nat} (hr : r.remaining = 0) (hv : r.verified = true) :
    r.drain sizes = .ok [] :=
  drain_of_nil (show r.read (sizes 0) = (.ok [], r) by simp [read, hr, hv])

theorem Midway.drain_iff {sizes : Nat → Nat} (hs : ∀ i, 0 < sizes i) (h : r.Midway out rest)
    (payload : Bytes) : r.drain sizes = .ok payload ↔
      rest = payload ++ md5 (out ++ payload) ∧ payload.length = r.remaining := by
  induction hm : r.remaining using Nat.strongRecOn generalizing r sizes out rest payload with
  | ind m ih =>
    have hreads := h.reads (hs 0)
    generalize hr : r.read (sizes 0) = p at hreads
    cases hreads with
    | @onward front more r' hf h' hrem =>
      have hlt : r'.remaining < m := by
        have := List.length_pos_iff.mpr hf
        omega
      rw [drain_of_ne_nil hr hf]
      have hiff (tail : Bytes) := ih _ hlt (fun i => hs (i + 1)) h' tail rfl
      constructor
      · intro hd
        cases ht : r'.drain fun i => sizes (i + 1) with
        | error e =>
          rw [ht] at hd
          cases hd
        | ok tail =>
          rw [ht] at hd
          cases hd
          obtain ⟨rfl, hl⟩ := (hiff tail).mp ht
          refine ⟨by simp, ?_⟩
          rw [List.length_append, hl]
          omega
      · rintro ⟨he, hl⟩
        have hpre : front <+: payload := by
          refine List.prefix_of_prefix_length_le (List.prefix_append front more) ?_ (by omega)
          rw [he]
          exact List.prefix_append _ _
        obtain ⟨tail, rfl⟩ := hpre
        rw [List.append_assoc, List.append_cancel_left_eq, ← List.append_assoc] at he
        rw [List.length_append] at hl
        rw [(hiff tail).mpr ⟨he, by omega⟩]
        rfl
    | @last front r' hf hl hz hv =>
      rw [drain_of_ne_nil hr hf, drain_of_verified hz hv]
      constructor
      · intro hd
        cases hd
        simp [hl, hm]
      · rintro ⟨he, hpl⟩
        obtain ⟨rfl, _⟩ := List.append_inj he (by omega)
        simp [Except.map]
    | through hz =>
      rw [drain_of_nil hr]
      constructor
      · intro hd
        cases hd
        simp [← hm, hz]
      · rintro ⟨_, hl⟩
        rw [List.eq_nil_of_length_eq_zero (hl.trans (hm.symm.trans hz))]
    | refused hp =>
      rw [drain_of_error hr]
      constructor
      · intro hd
        cases hd
      · rintro ⟨he, hl⟩
        exact absurd he (hp payload (hl.trans hm.symm))

/-- A reader can be made for a body that is long enough for a digest, and drains it exactly if it is
valid. -/
theorem ofSource?_drain_iff {source : Source} {body : Bytes} {sizes : Nat → Nat}
    (hsource : source.Pours body) (hsizes : ∀ i, 0 < sizes i) (n : Nat) (payload : Bytes) :
    (∃ r, ofSource? source n = .ok r ∧ r.drain sizes = .ok payload) ↔
      Splitter.Valid n body payload := by
  unfold ofSource?
  rcases hs : Splitter.ofLength? n with f | s
  · constructor
    · rintro ⟨_, hr, _⟩
      cases hr
    · intro hv
      rw [Splitter.ofLength?, if_neg (Nat.not_lt.mpr hv.digestLength_le)] at hs
      cases hs
  · have hlen := (Splitter.tracks_start hs).2
    have hm : Midway ⟨source, s.payloadLength, .start, false⟩ [] body := ⟨hsource, rfl, rfl⟩
    have hiff := hm.drain_iff hsizes payload
    rw [List.nil_append] at hiff
    constructor
    · rintro ⟨_, hr, hd⟩
      cases hr
      obtain ⟨hparts, hl⟩ := hiff.mp hd
      refine ⟨?_, hparts⟩
      rw [hparts, List.length_append, length_md5, hl]
      exact hlen
    · intro hv
      refine ⟨_, rfl, hiff.mpr ⟨hv.parts, ?_⟩⟩
      have hl := hv.length
      rw [hv.parts, List.length_append, length_md5] at hl
      dsimp only
      omega

end Reader

theorem trailing?_collect_iff (n : Nat) (chunks : List Bytes) (cells : Cells) (payload : Bytes) :
    (∃ f, Filter.trailing? n = .ok f ∧
        (((ByteStream.ofChunks chunks).withFilter f).collect cells).1 = some (.ok payload)) ↔
      Splitter.Valid n chunks.flatten payload := by
  by_cases hn : digestLength ≤ n
  · obtain ⟨s, hf, hs⟩ := Filter.trailing?_ok hn
    obtain ⟨hcollect, -⟩ := ByteStream.collects_withFilters chunks [.trailing s] cells
    have hiff :
        (Filter.fold [.trailing s] cells (chunks.filter (!·.isEmpty))).result = .ok payload ↔ _ :=
      Filter.fold_trailing_iff hn hs
    rw [List.flatten_filter_not_isEmpty] at hiff
    rw [hf, ← hiff]
    constructor
    · rintro ⟨_, he, hc⟩
      cases he
      exact Option.some.inj ((congrArg Prod.fst hcollect).symm.trans hc)
    · intro hr
      exact ⟨_, rfl, (congrArg Prod.fst hcollect).trans (congrArg some hr)⟩
  · constructor
    · rintro ⟨_, hf, _⟩
      simp only [Filter.trailing?, Splitter.ofLength?, if_pos (Nat.lt_of_not_le hn)] at hf
      cases hf
    · intro hv
      exact absurd hv.digestLength_le hn

namespace Reader

/-- Take a body of any bytes, a declared length, a source that gives the body in short reads,
buffers of any sizes but zero, and any way to cut the body into chunks. To make a reader and drain
it succeeds with a payload exactly if to make the filter and collect the chunks through it succeeds
with the same payload; and that is so exactly if the body is as long as declared and is the payload
with its digest. -/
theorem drain_iff_collect {source : Source} {body : Bytes} {chunks : List Bytes}
    {sizes : Nat → Nat} (hsource : source.Pours body) (hsizes : ∀ i, 0 < sizes i)
    (hchunks : chunks.flatten = body) (n : Nat) (cells : Cells) (payload : Bytes) :
    ((∃ r, ofSource? source n = .ok r ∧ r.drain sizes = .ok payload) ↔
      ∃ f, Filter.trailing? n = .ok f ∧
        (((ByteStream.ofChunks chunks).withFilter f).collect cells).1 = some (.ok payload)) ∧
    ((∃ r, ofSource? source n = .ok r ∧ r.drain sizes = .ok payload) ↔
      body.length = n ∧ body = payload ++ md5 payload) := by
  have hdrain := ofSource?_drain_iff hsource hsizes n payload
  have hcollect := trailing?_collect_iff n chunks cells payload
  rw [hchunks] at hcollect
  refine ⟨hdrain.trans hcollect.symm, hdrain.trans ⟨?_, ?_⟩⟩
  · rintro ⟨hl, hp⟩
    exact ⟨hl, hp⟩
  · rintro ⟨hl, hp⟩
    exact ⟨hl, hp⟩

/-- Two bytes with their digest, read in parts that end within the digest, into buffers of three
bytes. -/
theorem drain_iff_collect_hi :
    let parts := [[104], [105] ++ (md5 [104, 105]).take 5, (md5 [104, 105]).drop 5]
    (∃ r, ofSource? (parts.map .data) 18 = .ok r ∧ r.drain (fun _ => 3) = .ok [104, 105]) ∧
      ∃ f, Filter.trailing? 18 = .ok f ∧
        (((ByteStream.ofChunks [[104, 105] ++ md5 [104, 105]]).withFilter f).collect .empty).1 =
          some (.ok [104, 105]) := by
  intro parts
  have hdrop : (md5 [104, 105]).drop 5 ≠ [] := by
    simp [List.drop_eq_nil_iff, length_md5]
  have hpours : Source.Pours (parts.map .data) (parts.flatten ++ []) := by
    simp only [parts, List.map_cons, List.map_nil, List.flatten_cons, List.flatten_nil,
      List.append_assoc]
    exact .part (by simp) (.part (by simp) (.part hdrop .ended))
  have hbody : parts.flatten ++ [] = [104, 105] ++ md5 [104, 105] := by simp [parts]
  rw [hbody] at hpours
  have hchunks : [[104, 105] ++ md5 [104, 105]].flatten = [104, 105] ++ md5 [104, 105] :=
    List.flatten_singleton
  obtain ⟨hsame, hvalid⟩ :=
    drain_iff_collect hpours (fun _ => Nat.succ_pos 2) hchunks 18 .empty [104, 105]
  have hdrain := hvalid.mpr ⟨by simp [length_md5], rfl⟩
  exact ⟨hdrain, hsame.mp hdrain⟩

end Reader

end Courier.Trailing
