import Courier.Proofs.Pool.Closed

/-! # The queue for permits

Those who have been handed a permit stand before those who have not, both in the order they came,
and nobody stands in the queue without a permit while one is free. Whatever happens at an endpoint
is one of a few shifts of its queue. Each keeps it in order, and hands a permit at most to the first
who has none.
-/

namespace Courier

/-- The queue at an endpoint: its permits, the tickets of those who wait for one or have yet to take
one up, as they came, the ticket to be given next, and whether the pool is closed. -/
structure Queue where
  permits : Permits
  line : List Nat
  next : Nat
  closed : Bool

namespace Queue

structure Orderly (q : Queue) : Prop where
  served : q.permits.granted ++ q.permits.waiting = q.line
  spent : 0 < q.permits.free → q.permits.waiting = []
  sorted : q.line.Pairwise (· < ·)
  fresh : ∀ t ∈ q.line, t < q.next
  unclosed : q.closed = false → q.permits.closed = false

inductive Shift : Queue → Queue → Prop

  | rests {p : Permits} {line : List Nat} {n n' : Nat} {c c' : Bool} (hn : n ≤ n')
      (hc : c = true → c' = true) : Shift ⟨p, line, n, c⟩ ⟨p, line, n', c'⟩

  | joins {p : Permits} {line : List Nat} {n : Nat} {c : Bool} :
      Shift ⟨p, line, n, c⟩ ⟨p.request n, line ++ [n], n + 1, c⟩

  | claims {p : Permits} {before behind : List Nat} {t n : Nat} {c : Bool}
      (hg : p.isGranted t = true) :
      Shift ⟨p, before ++ t :: behind, n, c⟩ ⟨p.claim t, before ++ behind, n, c⟩

  | leaves {p : Permits} {before behind : List Nat} {t n : Nat} {c : Bool} :
      Shift ⟨p, before ++ t :: behind, n, c⟩ ⟨p.withdraw t, before ++ behind, n, c⟩

  | frees {p : Permits} {line : List Nat} {n : Nat} {c : Bool} :
      Shift ⟨p, line, n, c⟩ ⟨p.release, line, n, c⟩

  | closes {p : Permits} {line : List Nat} {n : Nat} {c : Bool} (hc : c = true) :
      Shift ⟨p, line, n, c⟩ ⟨p.close, line, n, c⟩

variable {p : Permits} {q q' : Queue} {line before behind : List Nat} {t a b n : Nat} {c : Bool}

/-! ## Order -/

theorem orderly_ofCount (limit n : Nat) (c : Bool) : Orderly ⟨.ofCount limit, [], n, c⟩ where
  served := rfl
  spent _ := rfl
  sorted := .nil
  fresh := by rintro t ⟨⟩
  unclosed _ := rfl

theorem erase_of_sorted (h : (before ++ t :: behind).Pairwise (· < ·)) :
    (before ++ t :: behind).erase t = before ++ behind := by
  have hn : t ∉ before := by
    intro hm
    exact Nat.lt_irrefl t ((List.pairwise_append.mp h).2.2 t hm t List.mem_cons_self)
  rw [List.erase_append_right _ hn, List.erase_cons_head]

theorem sublist_parts {α : Type} (before behind : List α) (t : α) :
    (before ++ behind).Sublist (before ++ t :: behind) :=
  (List.sublist_cons_self t behind).append_left before

theorem Orderly.request (h : Orderly ⟨p, line, n, c⟩) :
    Orderly ⟨p.request n, line ++ [n], n + 1, c⟩ where
  served := by
    have hs : p.granted ++ p.waiting = line := h.served
    unfold Permits.request
    split
    · have hw : p.waiting = [] := h.spent ‹_›
      rw [hw, List.append_nil] at hs
      simp only [hw, List.append_nil, hs]
    · simp only [← List.append_assoc, hs]
  spent := by
    unfold Permits.request
    split
    · exact fun _ => h.spent ‹_›
    · exact fun hf => absurd hf ‹_›
  sorted := by
    refine List.pairwise_append.mpr ⟨h.sorted, List.pairwise_singleton _ _, ?_⟩
    intro a ha b hb
    rw [List.mem_singleton.mp hb]
    exact h.fresh a ha
  fresh := by
    intro t ht
    rcases List.mem_append.mp ht with ht | ht
    · exact Nat.lt_succ_of_lt (h.fresh t ht)
    · rw [List.mem_singleton.mp ht]
      exact Nat.lt_succ_self n
  unclosed hc := by
    have hp := h.unclosed hc
    unfold Permits.request
    split <;> exact hp

theorem Orderly.release (h : Orderly ⟨p, line, n, c⟩) : Orderly ⟨p.release, line, n, c⟩ where
  served := by
    have hs : p.granted ++ p.waiting = line := h.served
    unfold Permits.release
    split
    · rename_i t rest hw
      rw [hw] at hs
      simp only [List.append_assoc, List.singleton_append, hs]
    · rename_i hw
      exact hs
  spent := by
    unfold Permits.release
    split
    · rename_i t rest hw
      intro hf
      cases hw.symm.trans (h.spent hf)
    · exact fun _ => ‹_›
  sorted := h.sorted
  fresh := h.fresh
  unclosed hc := (Permits.closed_release p).trans (h.unclosed hc)

theorem Orderly.claim (h : Orderly ⟨p, before ++ t :: behind, n, c⟩)
    (hg : p.isGranted t = true) : Orderly ⟨p.claim t, before ++ behind, n, c⟩ where
  served := by
    have hs : p.granted ++ p.waiting = before ++ t :: behind := h.served
    have he := congrArg (·.erase t) hs
    rw [List.erase_append_left _ (List.contains_iff_mem.mp hg), erase_of_sorted h.sorted] at he
    exact he
  spent := h.spent
  sorted := h.sorted.sublist (sublist_parts before behind t)
  fresh a ha := h.fresh a ((sublist_parts before behind t).subset ha)
  unclosed := h.unclosed

theorem Orderly.withdraw (h : Orderly ⟨p, before ++ t :: behind, n, c⟩) :
    Orderly ⟨p.withdraw t, before ++ behind, n, c⟩ := by
  unfold Permits.withdraw
  split
  · exact (h.claim ‹_›).release
  · rename_i hg
    have hn : t ∉ p.granted := fun hm => hg (List.contains_iff_mem.mpr hm)
    constructor
    · have hs : p.granted ++ p.waiting = before ++ t :: behind := h.served
      have he := congrArg (·.erase t) hs
      rw [List.erase_append_right _ hn, erase_of_sorted h.sorted] at he
      exact he
    · intro hf
      have hw : p.waiting = [] := h.spent hf
      simp only [hw, List.erase_nil]
    · exact h.sorted.sublist (sublist_parts before behind t)
    · exact fun a ha => h.fresh a ((sublist_parts before behind t).subset ha)
    · exact h.unclosed

theorem Orderly.shift (h : q.Orderly) (hs : q.Shift q') : q'.Orderly := by
  cases hs with
  | rests hn hc =>
    refine ⟨h.served, h.spent, h.sorted, fun t ht => Nat.lt_of_lt_of_le (h.fresh t ht) hn, ?_⟩
    intro ho
    refine h.unclosed (Bool.eq_false_iff.mpr fun ht => ?_)
    cases ho.symm.trans (hc ht)
  | joins => exact h.request
  | claims hg => exact h.claim hg
  | leaves => exact h.withdraw
  | frees => exact h.release
  | closes hc =>
    refine ⟨h.served, h.spent, h.sorted, h.fresh, ?_⟩
    intro ho
    cases hc.symm.trans ho

/-! ## Who has a permit -/

theorem Orderly.granted_of_free (h : q.Orderly) (hf : 0 < q.permits.free) (ha : a ∈ q.line) :
    a ∈ q.permits.granted := by
  rw [← h.served, h.spent hf, List.append_nil] at ha
  exact ha

theorem Orderly.mem_waiting (h : q.Orderly) (ha : a ∈ q.line) (hn : a ∉ q.permits.granted) :
    a ∈ q.permits.waiting := by
  rw [← h.served] at ha
  exact (List.mem_append.mp ha).resolve_left hn

theorem Orderly.granted_lt_waiting (h : q.Orderly) (ha : a ∈ q.permits.granted)
    (hb : b ∈ q.permits.waiting) : a < b := by
  have hp := h.sorted
  rw [← h.served] at hp
  exact (List.pairwise_append.mp hp).2.2 a ha b hb

theorem Orderly.granted_of_lt (h : q.Orderly) (ha : a ∈ q.line) (hab : a < b)
    (hb : b ∈ q.permits.granted) : a ∈ q.permits.granted := by
  by_contra hn
  exact Nat.lt_asymm hab (h.granted_lt_waiting hb (h.mem_waiting ha hn))

theorem Orderly.granted_of_lt_head (h : q.Orderly) (ha : a ∈ q.line) (hab : a < b)
    (hb : q.permits.waiting.head? = some b) : a ∈ q.permits.granted := by
  by_contra hn
  have hw := h.mem_waiting ha hn
  have hp := h.sorted
  rw [← h.served] at hp
  have hsorted := (List.pairwise_append.mp hp).2.1
  cases hq : q.permits.waiting with
  | nil =>
    rw [hq] at hb
    cases hb
  | cons first rest =>
    rw [hq] at hb hw hsorted
    cases hb
    rcases List.mem_cons.mp hw with rfl | hm
    · exact Nat.lt_irrefl a hab
    · exact Nat.lt_asymm hab (List.rel_of_pairwise_cons hsorted hm)

/-! ## Handing over -/

theorem granted_release (hb : b ∈ p.release.granted) :
    b ∈ p.granted ∨ p.waiting.head? = some b := by
  unfold Permits.release at hb
  split at hb
  · rename_i t rest hw
    rcases List.mem_append.mp hb with hb | hb
    · exact .inl hb
    · rw [hw, List.mem_singleton.mp hb]
      exact .inr rfl
  · exact .inl hb

/-- A permit is handed to the first who waits, or to one who comes while one is free. -/
theorem Shift.granted_cases (hs : q.Shift q') (hb : b ∈ q'.permits.granted) :
    b ∈ q.permits.granted ∨ q.permits.waiting.head? = some b ∨
      0 < q.permits.free ∧ b = q.next := by
  cases hs with
  | rests hn hc => exact .inl hb
  | @joins p line n c =>
    change b ∈ (p.request n).granted at hb
    unfold Permits.request at hb
    split at hb
    · rcases List.mem_append.mp hb with hb | hb
      · exact .inl hb
      · exact .inr (.inr ⟨‹_›, List.mem_singleton.mp hb⟩)
    · exact .inl hb
  | claims hg => exact .inl (List.mem_of_mem_erase hb)
  | @leaves p before behind t n c =>
    change b ∈ (p.withdraw t).granted at hb
    unfold Permits.withdraw at hb
    split at hb
    · rcases granted_release hb with hb | hb
      · exact .inl (List.mem_of_mem_erase hb)
      · exact .inr (.inl hb)
    · exact .inl hb
  | frees =>
    rcases granted_release hb with hb | hb
    · exact .inl hb
    · exact .inr (.inl hb)
  | closes hc => exact .inl hb

/-- Whoever is handed a permit, all who came before and are still there had theirs already. -/
theorem Orderly.granted_before (h : q.Orderly) (hs : q.Shift q') (ha : a ∈ q.line) (hab : a < b)
    (hb : b ∈ q'.permits.granted) : a ∈ q.permits.granted := by
  rcases hs.granted_cases hb with hb | hb | ⟨hf, -⟩
  · exact h.granted_of_lt ha hab hb
  · exact h.granted_of_lt_head ha hab hb
  · exact h.granted_of_free hf ha

theorem waiting_release (ht : t ∈ p.release.waiting) : t ∈ p.waiting := by
  unfold Permits.release at ht
  split at ht
  · rename_i first rest hw
    rw [hw]
    exact List.mem_cons_of_mem first ht
  · exact ht

theorem Shift.waiting_cases (hs : q.Shift q') (ht : t ∈ q'.permits.waiting) :
    t ∈ q.permits.waiting ∨ t = q.next := by
  cases hs with
  | rests hn hc => exact .inl ht
  | @joins p line n c =>
    change t ∈ (p.request n).waiting at ht
    unfold Permits.request at ht
    split at ht
    · exact .inl ht
    · exact (List.mem_append.mp ht).imp_right List.mem_singleton.mp
  | claims hg => exact .inl ht
  | @leaves p before behind u n c =>
    change t ∈ (p.withdraw u).waiting at ht
    unfold Permits.withdraw at ht
    split at ht
    · exact .inl (waiting_release (p := p.claim u) ht)
    · exact .inl (List.mem_of_mem_erase ht)
  | frees => exact .inl (waiting_release ht)
  | closes hc => exact .inl ht

theorem Shift.line_cases (hs : q.Shift q') (ht : t ∈ q'.line) : t ∈ q.line ∨ t = q.next := by
  cases hs with
  | rests hn hc => exact .inl ht
  | joins => exact (List.mem_append.mp ht).imp_right List.mem_singleton.mp
  | claims hg => exact .inl ((sublist_parts _ _ _).subset ht)
  | leaves => exact .inl ((sublist_parts _ _ _).subset ht)
  | frees => exact .inl ht
  | closes hc => exact .inl ht

theorem Shift.next_le (hs : q.Shift q') : q.next ≤ q'.next := by
  cases hs with
  | rests hn hc => exact hn
  | joins => exact Nat.le_succ _
  | _ => exact Nat.le_refl _

/-- This ticket has been given, and who holds it has a permit as long as they are there. -/
structure Handed (t : Nat) (q : Queue) : Prop where
  given : t < q.next
  granted : t ∈ q.line → t ∈ q.permits.granted

theorem Orderly.handed (h : q.Orderly) (hl : t ∈ q.line) (hg : t ∈ q.permits.granted) :
    Handed t q :=
  ⟨h.fresh t hl, fun _ => hg⟩

theorem Handed.shift (ht : Handed t q) (h : q.Orderly) (hs : q.Shift q') : Handed t q' := by
  refine ⟨Nat.lt_of_lt_of_le ht.given hs.next_le, fun hl => ?_⟩
  have hold : t ∈ q.line :=
    (hs.line_cases hl).resolve_right (Nat.ne_of_lt ht.given)
  by_contra hn
  rcases hs.waiting_cases ((h.shift hs).mem_waiting hl hn) with hw | rfl
  · exact Nat.lt_irrefl t (h.granted_lt_waiting (ht.granted hold) hw)
  · exact Nat.lt_irrefl _ ht.given

end Queue

end Courier
