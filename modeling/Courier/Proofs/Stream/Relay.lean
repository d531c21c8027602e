import Courier.Stream.Filter
import Mathlib.Data.List.Induction

/-! # What a stack of filters makes of a stream

The filters see the chunks one after another, and what gets through them all comes out in order. A
stack that changes no chunk lets everything through.
-/

namespace Courier.Filter

variable {fs now now' : List Filter} {chunks out : List Bytes} {chunk : Bytes} {f f' : Filter}
  {cells : Cells}

def pass (s : List Bytes × List Filter) (chunk : Bytes) :
    Except Error (List Bytes × List Filter) :=
  match pushAll s.2 chunk with
  | (.ok passed, fs) => .ok (s.1 ++ passed.toList, fs)
  | (.error e, _) => .error e

/-- What comes out of the filters for these chunks, and the filters after them. -/
def relay (fs : List Filter) (chunks : List Bytes) : Except Error (List Bytes × List Filter) :=
  chunks.foldlM pass ([], fs)

theorem pass_ok {s t : List Bytes × List Filter} (h : pass s chunk = .ok t) :
    ∃ passed fs, pushAll s.2 chunk = (.ok passed, fs) ∧ t = (s.1 ++ passed.toList, fs) := by
  unfold pass at h
  rcases hp : pushAll s.2 chunk with ⟨e | passed, fs⟩
  · rw [hp] at h
    cases h
  · rw [hp] at h
    exact ⟨passed, fs, rfl, (Except.ok.inj h).symm⟩

theorem relay_concat (fs : List Filter) (chunks : List Bytes) (chunk : Bytes) :
    relay fs (chunks ++ [chunk]) = relay fs chunks >>= fun s => pass s chunk := by
  simp only [relay, List.foldlM_append, List.foldlM_cons, List.foldlM_nil, bind_pure]

theorem relay_push {passed : Option Bytes} (h : relay fs chunks = .ok (out, now))
    (hp : pushAll now chunk = (.ok passed, now')) :
    relay fs (chunks ++ [chunk]) = .ok (out ++ passed.toList, now') := by
  rw [relay_concat, h]
  simp only [bind, Except.bind, pass, hp]

/-- What holds of a stack that has seen nothing, and after each chunk, holds after all of them. -/
theorem relay_induction {P : List Bytes → List Bytes → List Filter → Prop} (h₀ : P [] [] fs)
    (hpass : ∀ chunks out now chunk passed now', P chunks out now →
      pushAll now chunk = (.ok passed, now') → P (chunks ++ [chunk]) (out ++ passed.toList) now')
    (h : relay fs chunks = .ok (out, now)) : P chunks out now := by
  induction chunks using List.reverseRecOn generalizing out now with
  | nil =>
    cases h
    exact h₀
  | append_singleton chunks chunk ih =>
    rw [relay_concat] at h
    cases hr : relay fs chunks with
    | error e =>
      rw [hr] at h
      cases h
    | ok s =>
      rw [hr] at h
      obtain ⟨passed, fs', hp, he⟩ := pass_ok (s := s) h
      cases he
      exact hpass _ _ _ _ _ _ (ih hr) hp

/-- Once these chunks have gone in, these bytes have come out. -/
def Relays (fs : List Filter) (chunks : List Bytes) (bytes : Bytes) (now : List Filter) : Prop :=
  ∃ out, relay fs chunks = .ok (out, now) ∧ out.flatten = bytes

theorem relays_nil (fs : List Filter) : Relays fs [] [] fs :=
  ⟨[], rfl, rfl⟩

theorem Relays.push {bytes : Bytes} {passed : Option Bytes} (h : Relays fs chunks bytes now)
    (hp : pushAll now chunk = (.ok passed, now')) :
    Relays fs (chunks ++ [chunk]) (bytes ++ passed.getD []) now' := by
  obtain ⟨out, hr, rfl⟩ := h
  refine ⟨_, relay_push hr hp, ?_⟩
  cases passed <;> simp

/-! ## Filters that change nothing -/

/-- Whatever gets through comes out as it was, and nothing is withheld. -/
def IsVerbatim : Filter → Prop
  | trailing _ => False
  | uploadDigest _ _ => True
  | custom rule _ => ∀ seen chunk out, rule.onChunk seen chunk = .ok out → out = some chunk

theorem IsVerbatim.push {passed : Option Bytes} (hf : f.IsVerbatim)
    (h : f.push chunk = (.ok passed, f')) : passed = some chunk ∧ f'.IsVerbatim := by
  cases f with
  | trailing s => cases hf
  | uploadDigest slot hasher =>
    cases h
    exact ⟨rfl, trivial⟩
  | custom rule seen =>
    obtain ⟨hr, rfl⟩ := Prod.mk.inj h
    exact ⟨hf seen chunk passed hr, hf⟩

theorem pushAll_verbatim {passed : Option Bytes} (hfs : ∀ f ∈ fs, f.IsVerbatim)
    (h : pushAll fs chunk = (.ok passed, now)) :
    passed = some chunk ∧ ∀ f ∈ now, f.IsVerbatim := by
  induction fs generalizing now with
  | nil =>
    cases h
    exact ⟨rfl, hfs⟩
  | cons f fs ih =>
    have hf := hfs f List.mem_cons_self
    unfold pushAll at h
    rcases hp : f.push chunk with ⟨e | _ | next, f'⟩
    · rw [hp] at h
      cases h
    · cases (hf.push hp).1
    · obtain ⟨hnext, hf'⟩ := hf.push hp
      cases hnext
      rw [hp] at h
      obtain ⟨hr, rfl⟩ := Prod.mk.inj h
      have hall := ih (fun g hg => hfs g (List.mem_cons_of_mem f hg)) (Prod.ext hr rfl)
      exact ⟨hall.1, List.forall_mem_cons.mpr ⟨hf', hall.2⟩⟩

theorem relay_verbatim (hfs : ∀ f ∈ fs, f.IsVerbatim) (h : relay fs chunks = .ok (out, now)) :
    out = chunks := by
  suffices hs : out = chunks ∧ ∀ f ∈ now, f.IsVerbatim from hs.1
  refine relay_induction (P := fun chunks out now => out = chunks ∧ ∀ f ∈ now, f.IsVerbatim)
    ⟨rfl, hfs⟩ ?_ h
  rintro chunks _ now chunk passed now' ⟨rfl, hnow⟩ hp
  obtain ⟨rfl, hnow'⟩ := pushAll_verbatim hnow hp
  exact ⟨rfl, hnow'⟩

end Courier.Filter
