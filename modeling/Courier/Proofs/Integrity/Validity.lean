import Courier.Proofs.Client.Collecting
import Courier.Proofs.Stream.Folding

/-! # Which bodies the splitter accepts

However a body is cut into chunks, the splitter accepts it exactly if it is a payload followed by
its digest and as long as was declared; what it releases is then that payload. That nothing else is
accepted follows from what the splitter tracks. That every such body is accepted has to be shown for
each way in which a chunk is refused.
-/

namespace Courier

namespace Trailing.Splitter

variable {n : Nat} {s s' : Splitter} {fed out chunk rest body payload payload' : Bytes}

/-- A body of `n` bytes is this payload with its digest. -/
structure Valid (n : Nat) (body payload : Bytes) : Prop where
  length : body.length = n
  parts : body = payload ++ md5 payload

theorem Valid.unique (h : Valid n body payload) (h' : Valid n body payload') :
    payload = payload' :=
  (List.append_inj' (h.parts.symm.trans h'.parts)
    ((length_md5 payload).trans (length_md5 payload').symm)).1

theorem Valid.digestLength_le (h : Valid n body payload) : digestLength ≤ n := by
  rw [← h.length, h.parts, List.length_append, length_md5]
  exact Nat.le_add_left _ _

theorem Complete.settle_ok (h : Complete n s fed out) (hb : Valid n (fed ++ rest) payload) :
    ∃ r s', s.settle = (.ok r, s') := by
  unfold Splitter.settle
  split
  · exact ⟨_, _, rfl⟩
  · rename_i hge
    have hlen : s.expected.length = digestLength :=
      Nat.le_antisymm h.expected (Nat.le_of_not_lt hge)
    have hfed : fed.length = n := by
      have hn := hb.digestLength_le
      rw [h.parts, List.length_append, h.payload, hlen, payloadLength, h.contentLength]
      exact Nat.sub_add_cancel hn
    have hrest : rest = [] := by
      have hl := hb.length
      rw [List.length_append, hfed] at hl
      exact List.eq_nil_of_length_eq_zero (by omega)
    have hparts : out ++ s.held ++ s.expected = payload ++ md5 payload := by
      rw [← h.parts, ← hb.parts, hrest, List.append_nil]
    obtain ⟨hpayload, hdigest⟩ :=
      List.append_inj' hparts (hlen.trans (length_md5 payload).symm)
    have hmd : s.hasher.finish = s.expected := by
      rw [h.hasher, hpayload, hdigest]
      rfl
    rw [if_pos hmd]
    exact ⟨_, _, rfl⟩

theorem Tracks.fits (h : Tracks n s fed out) (hv : s.verified = false)
    (hge : s.payloadLength ≤
      s.position + (chunk.take (s.payloadLength - s.position)).length)
    (hb : Valid n (fed ++ chunk ++ rest) payload) :
    (chunk.drop (s.payloadLength - s.position)).length ≤ digestLength - s.expected.length := by
  have hfills := h.fills hv hge
  have hchunk := List.take_append_drop (s.payloadLength - s.position) chunk
  have hn := hb.digestLength_le
  have hlen := hb.length
  generalize chunk.take (s.payloadLength - s.position) = front at *
  generalize chunk.drop (s.payloadLength - s.position) = back at *
  cases h with
  | whole _ hv' _ _ => cases hv.symm.trans hv'
  | parting hc _ hf _ _ _ _ _ =>
    rw [hf, ← hchunk] at hlen
    simp only [List.length_append, payloadLength, hc] at hlen hfills
    omega

theorem Tracks.push_ok (h : Tracks n s fed out) (hb : Valid n (fed ++ chunk ++ rest) payload) :
    ∃ r s', s.push chunk = (.ok r, s') := by
  unfold Splitter.push
  split
  · exact ⟨_, _, rfl⟩
  · rename_i hne
    have hv : s.verified = false := by
      cases h with
      | parting _ hv _ _ _ _ _ _ => exact hv
      | whole _ _ _ hfed =>
        have hl := hb.length
        rw [List.length_append, List.length_append, hfed] at hl
        have hnil : chunk = [] := List.eq_nil_of_length_eq_zero (by omega)
        exact absurd (List.isEmpty_iff.mpr hnil) hne
    rw [if_neg (by simp [hv]), absorb_eq]
    dsimp only
    split
    · exact ⟨_, _, rfl⟩
    · rename_i hlt
      have hge := Nat.le_of_not_lt hlt
      have hfit := h.fits hv hge hb
      rw [if_neg (Nat.not_lt.mpr hfit)]
      exact (h.complete hv hge hfit).settle_ok hb

theorem Tracks.finish_ok (h : Tracks n s fed out) (hb : Valid n fed payload) :
    s.finish = .ok () := by
  unfold Splitter.finish
  cases h with
  | whole _ hv _ _ => rw [if_pos hv]
  | parting hc _ hf _ _ hle _ he =>
    have hn := hb.digestLength_le
    have hlen := hb.length
    rw [hf, List.length_append] at hlen
    rw [payloadLength, hc] at hle
    omega

end Trailing.Splitter

namespace Filter

open Trailing (Splitter)
open Trailing.Splitter

variable {n : Nat} {s : Splitter} {fed out payload : Bytes} {chunks : List Bytes} {cells : Cells}

theorem fold_trailing_sound (hn : Trailing.digestLength ≤ n) (h : s.Tracks n fed out)
    (hr : (fold [.trailing s] cells chunks).result = .ok payload) :
    Valid n (fed ++ chunks.flatten) (out ++ payload) := by
  induction chunks generalizing s fed out payload with
  | nil =>
    rw [fold_no_chunks, completeAll_trailing] at hr
    cases hf : s.finish with
    | error f =>
      rw [hf] at hr
      cases hr
    | ok _ =>
      rw [hf] at hr
      cases hr
      obtain ⟨hparts, hlen⟩ := h.finish hf
      rw [List.flatten_nil, List.append_nil, List.append_nil]
      exact ⟨hlen, hparts⟩
  | cons chunk chunks ih =>
    rcases hp : s.push chunk with ⟨r, s'⟩
    have hpush := pushAll_trailing hp
    rw [List.flatten_cons, ← List.append_assoc]
    rcases r with f | _ | released
    · rw [fold_cons_failed hpush] at hr
      cases hr
    · have ht := h.push hn hp
      rw [Option.getD_none, List.append_nil] at ht
      rw [fold_cons_withheld hpush] at hr
      exact ih ht hr
    · have ht := h.push hn hp
      rw [Option.getD_some] at ht
      rw [fold_cons_through hpush] at hr
      rcases hall : (fold [.trailing s'] cells chunks).result with e | more
      · simp [Folded.after, hall, Except.map] at hr
      · simp only [Folded.after, hall, Except.map, Except.ok.injEq] at hr
        rw [← hr, ← List.append_assoc]
        exact ih ht hall

theorem fold_trailing_complete (cells : Cells) (h : s.Tracks n fed out)
    (hb : Valid n (fed ++ chunks.flatten) payload) :
    ∃ released, (fold [.trailing s] cells chunks).result = .ok released := by
  induction chunks generalizing s fed out with
  | nil =>
    rw [List.flatten_nil, List.append_nil] at hb
    rw [fold_no_chunks, completeAll_trailing, h.finish_ok hb]
    exact ⟨[], rfl⟩
  | cons chunk chunks ih =>
    rw [List.flatten_cons, ← List.append_assoc] at hb
    obtain ⟨r, s', hp⟩ := h.push_ok hb
    obtain ⟨released, hall⟩ := ih (h.push hb.digestLength_le hp) hb
    have hpush := pushAll_trailing hp
    rcases r with _ | front
    · rw [fold_cons_withheld hpush]
      exact ⟨released, hall⟩
    · rw [fold_cons_through hpush]
      refine ⟨front ++ released, ?_⟩
      simp only [Folded.after, hall, Except.map]

theorem fold_trailing_iff (hn : Trailing.digestLength ≤ n) (h : s.Tracks n [] []) :
    (fold [.trailing s] cells chunks).result = .ok payload ↔ Valid n chunks.flatten payload := by
  constructor
  · exact fold_trailing_sound hn h
  · intro hb
    obtain ⟨released, hr⟩ := fold_trailing_complete cells h hb
    rw [hr, hb.unique (fold_trailing_sound hn h hr), List.nil_append]

theorem trailing?_ok (hn : Trailing.digestLength ≤ n) :
    ∃ s, trailing? n = .ok (.trailing s) ∧ s.Tracks n [] [] := by
  have hs : Splitter.ofLength? n = .ok ⟨n, 0, .start, [], [], false⟩ :=
    if_neg (Nat.not_lt.mpr hn)
  refine ⟨_, ?_, (tracks_start hs).1⟩
  simp only [trailing?, hs]

end Filter

namespace ByteStream

/-- A stream from memory, expected to carry a trailing checksum within the declared length, collects
to a payload exactly if its bytes are as many as declared and are that payload with its digest. So
it does not matter to what is collected how the bytes are cut into chunks. -/
theorem collect_trailing_iff {n : Nat} (hn : 16 ≤ n) :
    ∃ f, Filter.trailing? n = .ok f ∧
      (∀ chunks cells payload,
        (((ofChunks chunks).withFilter f).collect cells).1 = some (.ok payload) ↔
          chunks.flatten.length = n ∧ chunks.flatten = payload ++ md5 payload) ∧
      ∀ chunks chunks' cells cells' payload, chunks.flatten = chunks'.flatten →
        ((((ofChunks chunks).withFilter f).collect cells).1 = some (.ok payload) ↔
          (((ofChunks chunks').withFilter f).collect cells').1 = some (.ok payload)) := by
  obtain ⟨s, hf, hs⟩ := Filter.trailing?_ok hn
  have hiff : ∀ chunks cells payload,
      (((ofChunks chunks).withFilter (.trailing s)).collect cells).1 = some (.ok payload) ↔
        chunks.flatten.length = n ∧ chunks.flatten = payload ++ md5 payload := by
    intro chunks cells payload
    obtain ⟨hcollect, -⟩ := collects_withFilters chunks [.trailing s] cells
    have hbytes : (chunks.filter (!·.isEmpty)).flatten = chunks.flatten :=
      List.flatten_filter_not_isEmpty
    change (((ofChunks chunks).withFilters [.trailing s]).collect cells).1 = _ ↔ _
    rw [hcollect, Option.some.injEq, Filter.fold_trailing_iff hn hs, hbytes]
    constructor
    · rintro ⟨hl, hp⟩
      exact ⟨hl, hp⟩
    · rintro ⟨hl, hp⟩
      exact ⟨hl, hp⟩
  refine ⟨_, hf, hiff, ?_⟩
  intro chunks chunks' cells cells' payload hsame
  rw [hiff, hiff, hsame]

/-- Two bytes with their digest, cut within the payload, within the digest and not at all. -/
theorem collect_trailing_hi :
    ∃ f, Filter.trailing? 18 = .ok f ∧
      (((ofChunks [[104], [105] ++ (md5 [104, 105]).take 5, [], (md5 [104, 105]).drop 5]).withFilter
        f).collect .empty).1 = some (.ok [104, 105]) ∧
      (((ofChunks [[104, 105] ++ md5 [104, 105]]).withFilter f).collect .empty).1 =
        some (.ok [104, 105]) ∧
      (((ofChunks [[104, 105] ++ md5 [104, 105], [0]]).withFilter f).collect .empty).1 ≠
        some (.ok [104, 105]) := by
  obtain ⟨f, hf, hiff, hcuts⟩ := collect_trailing_iff (n := 18) (by decide)
  have hwhole : (((ofChunks [[104, 105] ++ md5 [104, 105]]).withFilter f).collect .empty).1 =
      some (.ok [104, 105]) := by
    rw [hiff]
    simp [length_md5]
  refine ⟨f, hf, ?_, hwhole, ?_⟩
  · rw [hcuts _ [[104, 105] ++ md5 [104, 105]] .empty .empty]
    · exact hwhole
    · simp
  · rw [Ne, hiff]
    simp [length_md5]

end ByteStream

end Courier
