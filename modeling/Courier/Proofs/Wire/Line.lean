import Courier.Wire.Line

/-! # Cutting at marks

A cut that is found stays where it is when more bytes come behind it, and is found as soon as its
mark has come whole. Lines that hold no end of line are cut off in order, and a block of such lines
is cut off at the empty line.
-/

namespace Courier.Wire

variable {α : Type} [BEq α] [LawfulBEq α] {mark l a b r s : List α}

theorem cutAt?_eq (h : cutAt? mark l = some (a, b)) : l = a ++ mark ++ b := by
  induction l generalizing a with
  | nil =>
    unfold cutAt? at h
    split at h
    · rename_i hm
      cases h
      rw [List.isEmpty_iff.mp hm]
      rfl
    · cases h
  | cons x l ih =>
    unfold cutAt? at h
    split at h
    · rename_i hm
      obtain ⟨t, ht⟩ := List.isPrefixOf_iff_prefix.mp hm
      cases h
      rw [← ht, List.drop_left]
      rfl
    · split at h
      · rename_i hl
        cases h
        rw [ih hl]
        rfl
      · cases h

theorem length_of_cutAt? (h : cutAt? mark l = some (a, b)) :
    l.length = a.length + mark.length + b.length := by
  rw [cutAt?_eq h, List.length_append, List.length_append]

theorem cutAt?_cons_of_not_prefix {x : α} (h : ¬ mark <+: x :: l) :
    cutAt? mark (x :: l) = (cutAt? mark l).map fun (a, b) => (x :: a, b) := by
  rw [cutAt?, if_neg fun hm => h (List.isPrefixOf_iff_prefix.mp hm)]
  cases cutAt? mark l <;> rfl

theorem cutAt?_mark_append (mark s : List α) : cutAt? mark (mark ++ s) = some ([], s) := by
  have hm : mark.isPrefixOf (mark ++ s) = true :=
    List.isPrefixOf_iff_prefix.mpr (List.prefix_append mark s)
  cases hl : mark ++ s with
  | nil =>
    obtain ⟨rfl, rfl⟩ := List.append_eq_nil_iff.mp hl
    rfl
  | cons x l =>
    rw [hl] at hm
    rw [cutAt?, if_pos hm, ← hl, List.drop_left]

theorem cutAt?_append (h : cutAt? mark l = some (a, b)) (r : List α) :
    cutAt? mark (l ++ r) = some (a, b ++ r) := by
  induction l generalizing a with
  | nil =>
    unfold cutAt? at h
    split at h
    · rename_i hm
      cases h
      rw [List.isEmpty_iff.mp hm]
      exact cutAt?_mark_append [] r
    · cases h
  | cons x l ih =>
    unfold cutAt? at h
    split at h
    · rename_i hm
      obtain ⟨t, ht⟩ := List.isPrefixOf_iff_prefix.mp hm
      cases h
      rw [← ht, List.drop_left, List.append_assoc]
      exact cutAt?_mark_append mark (t ++ r)
    · rename_i hm
      split at h
      · rename_i hl
        cases h
        have hn : ¬ mark <+: x :: (l ++ r) := by
          -- the mark fits into what was there before, since it was found there
          intro hp
          have hlen : mark.length ≤ (x :: l).length := by
            rw [List.length_cons, length_of_cutAt? hl]
            omega
          have hpre : mark <+: x :: l :=
            List.prefix_of_prefix_length_le hp (List.prefix_append (x :: l) r) hlen
          exact hm (List.isPrefixOf_iff_prefix.mpr hpre)
        rw [List.cons_append, cutAt?_cons_of_not_prefix hn, ih hl]
        rfl
      · cases h

theorem length_lt_of_cutAt?_none (hl : cutAt? mark l = none)
    (h : cutAt? mark (l ++ r) = some (a, b)) : l.length < a.length + mark.length := by
  refine Nat.lt_of_not_le fun hle => ?_
  have hp : a ++ mark <+: l := by
    refine List.prefix_of_prefix_length_le ?_ (List.prefix_append l r) ?_
    · rw [cutAt?_eq h]
      exact List.prefix_append _ _
    · rwa [List.length_append]
  obtain ⟨t, rfl⟩ := hp
  -- whatever stands before its mark is cut there or earlier
  have hsome : ∀ pre : List α, (cutAt? mark (pre ++ mark ++ t)).isSome := by
    intro pre
    induction pre with
    | nil =>
      rw [List.nil_append, cutAt?_mark_append]
      rfl
    | cons x pre ih =>
      by_cases hx : mark <+: x :: (pre ++ mark ++ t)
      · obtain ⟨u, hu⟩ := hx
        rw [List.cons_append, List.cons_append, ← hu, cutAt?_mark_append]
        rfl
      · rw [List.cons_append, List.cons_append, cutAt?_cons_of_not_prefix hx, Option.isSome_map]
        exact ih
  have hs := hsome a
  rw [hl] at hs
  cases hs

/-! ## Marks that are passed over -/

/-- No mark begins in the first list when the second follows it. -/
def Skips (mark : List α) : List α → List α → Prop
  | [], _ => True
  | x :: a, s => ¬ mark <+: x :: (a ++ s) ∧ Skips mark a s

omit [BEq α] [LawfulBEq α] in
theorem Skips.append (ha : Skips mark a (b ++ s)) (hb : Skips mark b s) :
    Skips mark (a ++ b) s := by
  induction a with
  | nil => exact hb
  | cons x a ih =>
    refine ⟨?_, ih ha.2⟩
    have h := ha.1
    rwa [← List.append_assoc] at h

omit [BEq α] [LawfulBEq α] in
theorem Skips.lengthen {m : List α} (hm : m <+: mark) (h : Skips m a s) : Skips mark a s := by
  induction a with
  | nil => trivial
  | cons x a ih => exact ⟨fun hp => h.1 (hm.trans hp), ih h.2⟩

theorem cutAt?_skip (h : Skips mark a s) :
    cutAt? mark (a ++ s) = (cutAt? mark s).map fun (b, r) => (a ++ b, r) := by
  induction a with
  | nil => cases hs : cutAt? mark s <;> simp [hs]
  | cons x a ih =>
    rw [List.cons_append, cutAt?_cons_of_not_prefix h.1, ih h.2, Option.map_map]
    rfl

omit [BEq α] [LawfulBEq α] in
theorem Skips.of_not_infix {x y : α} (hxy : x ≠ y) (h : ¬ [x, y] <:+: a) :
    Skips [x, y] a ([x, y] ++ s) := by
  induction a with
  | nil => trivial
  | cons z a ih =>
    refine ⟨?_, ih fun hi => h (hi.trans (List.suffix_cons z a).isInfix)⟩
    intro hp
    obtain ⟨rfl, hp'⟩ := List.cons_prefix_cons.mp hp
    cases a with
    | nil => exact hxy (List.cons_prefix_cons.mp hp').1.symm
    | cons w a =>
      obtain ⟨rfl, -⟩ := List.cons_prefix_cons.mp hp'
      exact h (List.prefix_append [x, y] a).isInfix

omit [BEq α] [LawfulBEq α] in
theorem Skips.of_not_mem {x : α} (h : x ∉ a) : Skips [x] a s := by
  induction a with
  | nil => trivial
  | cons y a ih =>
    refine ⟨?_, ih fun hm => h (List.mem_cons_of_mem y hm)⟩
    intro hp
    exact h ((List.cons_prefix_cons.mp hp).1 ▸ List.mem_cons_self)

theorem cutAt?_elem {x : α} (h : x ∉ a) (s : List α) :
    cutAt? [x] (a ++ x :: s) = some (a, s) := by
  have hs : Skips [x] a ([x] ++ s) := Skips.of_not_mem h
  rw [show x :: s = [x] ++ s from rfl, cutAt?_skip hs, cutAt?_mark_append]
  simp

/-! ## Lines of bytes -/

def ended (ls : List Bytes) : Bytes :=
  ls.flatMap (· ++ crlf)

/-- A first line and more lines with the ends of line between them. -/
def joined (l : Bytes) (ls : List Bytes) : Bytes :=
  l ++ ls.flatMap (crlf ++ ·)

@[simp] theorem ended_nil : ended [] = [] := rfl
@[simp] theorem ended_cons (l : Bytes) (ls : List Bytes) :
    ended (l :: ls) = l ++ crlf ++ ended ls := rfl

@[simp] theorem joined_nil (l : Bytes) : joined l [] = l := List.append_nil l
@[simp] theorem joined_cons (l m : Bytes) (ls : List Bytes) :
    joined l (m :: ls) = l ++ crlf ++ joined m ls := by
  simp [joined]

theorem ended_eq_joined (l : Bytes) (ls : List Bytes) : ended (l :: ls) = joined l ls ++ crlf := by
  induction ls generalizing l with
  | nil => simp
  | cons m ls ih => rw [ended_cons, ih, joined_cons, List.append_assoc _ _ crlf]

theorem cutAt?_line {l : Bytes} (h : ¬ crlf <:+: l) (s : Bytes) :
    cutAt? crlf (l ++ crlf ++ s) = some (l, s) := by
  have hs : Skips crlf l (crlf ++ s) := Skips.of_not_infix (by decide) h
  rw [List.append_assoc, cutAt?_skip hs, cutAt?_mark_append]
  simp

theorem skips_crlf {m : Bytes} (hne : m ≠ []) (h : ¬ crlf <:+: m) (s : Bytes) :
    Skips headEnd crlf (m ++ crlf ++ s) := by
  have h10 : ¬ headEnd <+: 10 :: (m ++ crlf ++ s) := fun hp =>
    absurd (List.cons_prefix_cons.mp hp).1 (by decide)
  refine ⟨?_, h10, trivial⟩
  intro hp
  have hp : crlf <+: m ++ (crlf ++ s) := by
    rw [← List.append_assoc]
    exact (List.prefix_append_right_inj crlf).mp hp
  have hskip : Skips crlf m (crlf ++ s) := Skips.of_not_infix (by decide) h
  cases m with
  | nil => exact hne rfl
  | cons x m => exact hskip.1 hp

theorem cutAt?_block {l : Bytes} {ls : List Bytes} (hl : ¬ crlf <:+: l)
    (hls : ∀ m ∈ ls, m ≠ [] ∧ ¬ crlf <:+: m) (s : Bytes) :
    cutAt? headEnd (joined l ls ++ headEnd ++ s) = some (joined l ls, s) := by
  have hskip : ∀ t, Skips headEnd l (crlf ++ t) := fun t =>
    (Skips.of_not_infix (by decide) hl).lengthen (List.prefix_append crlf crlf)
  induction ls generalizing l with
  | nil =>
    have hs : Skips headEnd l (headEnd ++ s) := hskip (crlf ++ s)
    rw [joined_nil, List.append_assoc, cutAt?_skip hs, cutAt?_mark_append]
    simp
  | cons m ls ih =>
    obtain ⟨⟨hne, hm⟩, hls⟩ := List.forall_mem_cons.mp hls
    have hm' : ∃ t, joined m ls ++ headEnd ++ s = m ++ crlf ++ t := by
      cases ls with
      | nil => exact ⟨crlf ++ s, by simp [headEnd, crlf]⟩
      | cons k ls => exact ⟨joined k ls ++ headEnd ++ s, by simp⟩
    obtain ⟨t, ht⟩ := hm'
    have hcr : Skips headEnd crlf (joined m ls ++ headEnd ++ s) := by
      rw [ht]
      exact skips_crlf hne hm t
    have heq : joined l (m :: ls) ++ headEnd ++ s =
        (l ++ crlf) ++ (joined m ls ++ headEnd ++ s) := by
      simp
    rw [heq, cutAt?_skip ((hskip _).append hcr), ih hm hls, Option.map_some, joined_cons]
    exact fun t => (Skips.of_not_infix (by decide) hm).lengthen (List.prefix_append crlf crlf)

/-! ## Lines of characters -/

/-- A text without an end of line in it. -/
def OneLine (cs : List Char) : Prop :=
  ¬ ['\r', '\n'] <:+: cs

instance : DecidablePred OneLine :=
  fun cs => inferInstanceAs (Decidable (¬ ['\r', '\n'] <:+: cs))

theorem OneLine.tail {c : Char} {cs : List Char} (h : OneLine (c :: cs)) : OneLine cs :=
  fun hi => h (hi.trans (List.suffix_cons c cs).isInfix)

theorem oneLine_of_not_mem {cs : List Char} (h : '\r' ∉ cs) : OneLine cs :=
  fun hi => h (hi.subset List.mem_cons_self)

theorem oneLine_append_cons {c : Char} (hr : c ≠ '\r') (hn : c ≠ '\n') {front back : List Char} :
    OneLine (front ++ c :: back) ↔ OneLine front ∧ OneLine back := by
  constructor
  · intro h
    refine ⟨fun hi => h (hi.trans (List.prefix_append _ _).isInfix), fun hi => h (hi.trans ?_)⟩
    exact ⟨front ++ [c], [], by simp⟩
  · rintro ⟨hf, hb⟩
    induction front with
    | nil =>
      intro hi
      rcases List.infix_cons_iff.mp hi with hp | hi
      · exact hr (List.cons_prefix_cons.mp hp).1.symm
      · exact hb hi
    | cons d front ih =>
      intro hi
      rcases List.infix_cons_iff.mp hi with hp | hi
      · obtain ⟨rfl, hp'⟩ := List.cons_prefix_cons.mp hp
        cases front with
        | nil => exact hn (List.cons_prefix_cons.mp hp').1.symm
        | cons e front =>
          obtain ⟨rfl, -⟩ := List.cons_prefix_cons.mp hp'
          exact hf (List.prefix_append ['\r', '\n'] front).isInfix
      · exact ih hf.tail hi

theorem lines_cons {c : Char} {cs : List Char} (h : ¬ ['\r', '\n'] <+: c :: cs) :
    ∃ line rest, lines cs = line :: rest ∧ lines (c :: cs) = (c :: line) :: rest := by
  obtain ⟨line, rest, hl⟩ := List.exists_cons_of_ne_nil (lines_ne_nil cs)
  refine ⟨line, rest, hl, ?_⟩
  unfold lines
  split
  · contradiction
  · rename_i heq
    cases heq
    exact absurd (List.prefix_append ['\r', '\n'] _) h
  · rename_i heq
    cases heq
    rw [hl]

theorem lines_of_oneLine {cs : List Char} (h : OneLine cs) : lines cs = [cs] := by
  induction cs with
  | nil => rfl
  | cons c cs ih =>
    obtain ⟨line, rest, hl, hc⟩ := lines_cons fun hp => h hp.isInfix
    rw [ih h.tail] at hl
    cases hl
    exact hc

section Breaks

variable {cs : List Char} {ls : List (List Char)}

/-- Lines that come to their end are told apart from what follows, whatever breaks they hold. -/
theorem lines_append_lines (cs more : List Char) :
    lines (cs ++ '\r' :: '\n' :: more) = lines cs ++ lines more := by
  fun_induction lines cs with
  | case1 => rfl
  | case2 cs ih => exact congrArg ([] :: ·) ih
  | case3 c cs hne line rest hl ih =>
    have hp : ¬ ['\r', '\n'] <+: c :: (cs ++ '\r' :: '\n' :: more) := by
      intro h
      obtain ⟨hc, h⟩ := List.cons_prefix_cons.mp h
      cases cs with
      | nil => exact absurd (List.cons_prefix_cons.mp h).1 (by decide)
      | cons d cs =>
        obtain ⟨hd, -⟩ := List.cons_prefix_cons.mp h
        exact hne cs hc.symm (congrArg (· :: cs) hd.symm)
    obtain ⟨line', rest', hl', hc⟩ := lines_cons hp
    rw [ih, hl] at hl'
    cases hl'
    exact hc
  | case4 c cs _ hl => exact absurd hl (lines_ne_nil cs)

theorem lines_flatMap (ls : List (List Char)) (more : List Char) :
    lines (ls.flatMap (· ++ ['\r', '\n']) ++ more) = ls.flatMap lines ++ lines more := by
  induction ls with
  | nil => rfl
  | cons l ls ih =>
    rw [List.flatMap_cons, List.flatMap_cons, List.append_assoc, List.append_assoc,
      List.append_assoc, ← ih]
    exact lines_append_lines l _

theorem first_line_prefix {line : List Char} {rest : List (List Char)}
    (h : lines cs = line :: rest) : line <+: cs := by
  fun_induction lines cs generalizing line rest with
  | case1 =>
    cases h
    exact List.prefix_rfl
  | case2 cs ih =>
    cases h
    exact List.nil_prefix
  | case3 c cs hne line' rest' hl ih =>
    cases h
    exact List.cons_prefix_cons.mpr ⟨rfl, ih hl⟩
  | case4 c cs _ hl => exact absurd hl (lines_ne_nil cs)

theorem oneLine_of_mem_lines {line : List Char} (h : line ∈ lines cs) : OneLine line := by
  fun_induction lines cs generalizing line with
  | case1 =>
    rw [List.mem_singleton.mp h]
    decide
  | case2 cs ih =>
    rcases List.mem_cons.mp h with rfl | h
    · decide
    · exact ih h
  | case3 c cs hne first rest hl ih =>
    rw [hl] at ih
    rcases List.mem_cons.mp h with rfl | h
    · intro hi
      rcases List.infix_cons_iff.mp hi with hp | hi
      · obtain ⟨more, hmore⟩ := hp.trans
          (List.cons_prefix_cons.mpr ⟨rfl, first_line_prefix hl⟩)
        obtain ⟨hc, hcs⟩ := List.cons.inj hmore
        exact hne more hc.symm hcs.symm
      · exact ih List.mem_cons_self hi
    · exact ih (List.mem_cons_of_mem _ h)
  | case4 c cs _ hl => exact absurd hl (lines_ne_nil cs)

/-- Lines are told apart as they are exactly if none of them is broken. -/
theorem flatMap_lines_eq_iff : ls.flatMap lines = ls ↔ ∀ l ∈ ls, OneLine l := by
  induction ls with
  | nil => simp
  | cons l ls ih =>
    rw [List.flatMap_cons, List.forall_mem_cons, ← ih]
    constructor
    · intro h
      obtain ⟨first, rest, hl⟩ := List.exists_cons_of_ne_nil (lines_ne_nil l)
      have hfirst : first = l := by
        rw [hl] at h
        exact (List.cons.inj h).1
      have hmem : l ∈ lines l := by
        rw [hl, hfirst]
        exact List.mem_cons_self
      have hone := oneLine_of_mem_lines hmem
      rw [lines_of_oneLine hone] at h
      exact ⟨hone, (List.cons.inj h).2⟩
    · rintro ⟨hone, h⟩
      rw [lines_of_oneLine hone, h]
      rfl

end Breaks

theorem lines_append {cs : List Char} (h : OneLine cs) (more : List Char) :
    lines (cs ++ '\r' :: '\n' :: more) = cs :: lines more := by
  rw [lines_append_lines, lines_of_oneLine h]
  rfl

theorem lines_joined {l : List Char} {ls : List (List Char)} (hl : OneLine l)
    (hls : ∀ m ∈ ls, OneLine m) :
    lines (l ++ ls.flatMap fun m => '\r' :: '\n' :: m) = l :: ls := by
  induction ls generalizing l with
  | nil => rw [List.flatMap_nil, List.append_nil, lines_of_oneLine hl]
  | cons m ls ih =>
    obtain ⟨hm, hls⟩ := List.forall_mem_cons.mp hls
    rw [List.flatMap_cons, List.cons_append, List.cons_append, lines_append hl, ih hm hls]

end Courier.Wire
