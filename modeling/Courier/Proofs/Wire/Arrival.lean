import Courier.Proofs.Wire.Line
import Courier.Wire.Connection

/-! # Bytes on their way

What a connection still has to read stands partly in its buffer and partly in reads to come. The
operations that take bytes off it are told by the bytes ahead alone, wherever the reads cut them.
-/

namespace Courier.Wire

/-- Reads that bring the bytes, each at least one. -/
structure Cuts (cuts : List Bytes) (s : Bytes) : Prop where
  nonempty : ∀ b ∈ cuts, b ≠ []
  flatten : cuts.flatten = s

namespace Connection

/-- The connection with this buffer and these reads to come. -/
def holding (c : Connection) (buffer : Bytes) (cuts : List Bytes) : Connection :=
  { c with buffer, transport := { c.transport with reads := cuts.map .data } }

/-- The connection is the first one, with these bytes ahead of it. -/
inductive Facing (base : Connection) (s : Bytes) : Connection → Prop

  | intro {buffer : Bytes} {cuts : List Bytes} (hne : ∀ b ∈ cuts, b ≠ [])
      (hs : buffer ++ cuts.flatten = s) : Facing base s (base.holding buffer cuts)

variable {base c : Connection} {s : Bytes}

theorem facing_fresh {t : Transport} {cuts : List Bytes} (h : Cuts cuts s) :
    Facing (ofTransport t) s (ofTransport { t with reads := cuts.map .data }) :=
  .intro h.nonempty h.flatten

namespace Facing

theorem framing_eq (h : Facing base s c) : c.framing = base.framing := by
  cases h
  rfl

theorem keepAlive_eq (h : Facing base s c) : c.keepAlive = base.keepAlive := by
  cases h
  rfl

theorem broken_eq (h : Facing base s c) : c.broken = base.broken := by
  cases h
  rfl

theorem update {g : Connection → Connection} (h : Facing base s c)
    (hg : ∀ buffer cuts, g (base.holding buffer cuts) = (g base).holding buffer cuts) :
    Facing (g base) s (g c) := by
  cases h with
  | intro hne hs =>
    rw [hg]
    exact .intro hne hs

theorem breakOff (h : Facing base s c) : Facing base.breakOff s c.breakOff :=
  h.update fun _ _ => rfl

theorem inFraming (h : Facing base s c) (f : Framing) :
    Facing { base with framing := f } s { c with framing := f } :=
  h.update (g := fun c => { c with framing := f }) fun _ _ => rfl

theorem advance {taken left : Bytes} (h : Facing base s c) (hb : c.buffer = taken ++ left) :
    ∃ rest, s = taken ++ rest ∧ Facing base rest { c with buffer := left } := by
  cases h with
  | @intro buffer cuts hne hs =>
    obtain rfl : buffer = taken ++ left := hb
    refine ⟨left ++ cuts.flatten, ?_, .intro hne rfl⟩
    rw [← hs, List.append_assoc]

theorem buffer_prefix (h : Facing base s c) : c.buffer <+: s := by
  obtain ⟨rest, hs, -⟩ := h.advance (List.append_nil c.buffer).symm
  exact hs ▸ List.prefix_append _ _

theorem fill (h : Facing base s c) :
    (c.buffer = s ∧ c.fill = (.ok 0, c)) ∨
      ∃ n c', c.fill = (.ok (n + 1), c') ∧ Facing base s c' ∧ c.buffer <+: c'.buffer ∧
        c'.buffer ≠ [] ∧ c'.unread < c.unread := by
  cases h with
  | @intro buffer cuts hne hs =>
    cases cuts with
    | nil =>
      refine .inl ⟨by simpa [holding] using hs, ?_⟩
      simp [Connection.fill, Transport.read, holding]
    | cons b cuts =>
      cases b with
      | nil => exact absurd rfl (hne [] List.mem_cons_self)
      | cons x b =>
        refine .inr ⟨b.length, base.holding (buffer ++ x :: b) cuts, rfl, ?_, ?_, ?_, ?_⟩
        · refine .intro (fun d hd => hne d (List.mem_cons_of_mem _ hd)) ?_
          rw [← hs, List.flatten_cons, List.append_assoc]
        · exact List.prefix_append buffer (x :: b)
        · exact List.append_ne_nil_of_right_ne_nil _ (List.cons_ne_nil x b)
        · simp only [unread, Transport.unread, holding, List.map_cons, Transport.itemsSize,
            List.length_append, List.length_cons]
          omega

theorem cut {mark before behind : Bytes} (h : Facing base s c)
    (hc : cutAt? mark c.buffer = some (before, behind)) :
    ∃ rest, cutAt? mark s = some (before, rest) ∧
      Facing base rest { c with buffer := behind } := by
  have hb : c.buffer = (before ++ mark) ++ behind := cutAt?_eq hc
  obtain ⟨rest, hs, hf⟩ := h.advance hb
  refine ⟨rest, ?_, hf⟩
  obtain ⟨more, hm⟩ := h.buffer_prefix
  have happ := cutAt?_append hc more
  rw [hm] at happ
  rw [happ]
  have hrest : before ++ mark ++ (behind ++ more) = before ++ mark ++ rest := by
    rw [← List.append_assoc, ← hb, hm, hs]
  rw [List.append_cancel_left hrest]

theorem unread_cut {mark before behind : Bytes} (hm : mark ≠ [])
    (hc : cutAt? mark c.buffer = some (before, behind)) :
    ({ c with buffer := behind } : Connection).unread < c.unread := by
  have hl := length_of_cutAt? hc
  have hpos : 0 < mark.length := List.length_pos_iff.mpr hm
  simp only [unread]
  omega

theorem awaitLine_some {line rest : Bytes} {rounds : Nat} (h : Facing base s c)
    (hc : cutAt? crlf s = some (line, rest)) (hr : c.unread < rounds) :
    ∃ c', awaitLine rounds c = (.ok line, c') ∧ Facing base rest c' ∧ c'.unread < c.unread := by
  induction rounds generalizing c with
  | zero => omega
  | succ rounds ih =>
    unfold awaitLine
    split
    · rename_i before behind hb
      obtain ⟨rest', hs, hf⟩ := h.cut hb
      cases hc.symm.trans hs
      exact ⟨_, rfl, hf, unread_cut (by decide) hb⟩
    · rename_i hb
      rcases h.fill with ⟨hs, -⟩ | ⟨n, c', hfill, hf, -, -, hu⟩
      · rw [hs, hc] at hb
        cases hb
      · obtain ⟨c'', he, hf', hu'⟩ := ih hf (by omega)
        rw [hfill]
        exact ⟨c'', he, hf', by omega⟩

theorem awaitLine_none {rounds : Nat} (h : Facing base s c) (hc : cutAt? crlf s = none)
    (hr : c.unread < rounds) :
    ∃ c', awaitLine rounds c = (.error Fault.closedInChunkedBody.error, c') := by
  induction rounds generalizing c with
  | zero => omega
  | succ rounds ih =>
    unfold awaitLine
    split
    · rename_i before behind hb
      obtain ⟨rest', hs, -⟩ := h.cut hb
      cases hc.symm.trans hs
    · rcases h.fill with ⟨-, hfill⟩ | ⟨n, c', hfill, hf, -, -, hu⟩
      · rw [hfill]
        exact ⟨_, rfl⟩
      · rw [hfill]
        exact ih hf (by omega)

theorem takeLine_some {line rest : Bytes} (h : Facing base s c)
    (hc : cutAt? crlf s = some (line, rest)) :
    ∃ c', c.takeLine = (.ok line, c') ∧ Facing base rest c' ∧ c'.unread < c.unread :=
  awaitLine_some h hc (Nat.lt_succ_self _)

theorem takeLine_none (h : Facing base s c) (hc : cutAt? crlf s = none) :
    ∃ c', c.takeLine = (.error Fault.closedInChunkedBody.error, c') :=
  awaitLine_none h hc (Nat.lt_succ_self _)

theorem ensure_nil (h : Facing base [] c) : c.ensure = (.ok false, c) := by
  have hb : c.buffer = [] := List.prefix_nil.mp h.buffer_prefix
  rcases h.fill with ⟨-, hfill⟩ | ⟨n, c', -, hf, -, hne, -⟩
  · unfold ensure
    rw [hb, List.isEmpty_nil, if_pos rfl, hfill]
    rfl
  · exact absurd (List.prefix_nil.mp hf.buffer_prefix) hne

theorem ensure_cons (h : Facing base s c) (hs : s ≠ []) :
    ∃ c', c.ensure = (.ok true, c') ∧ Facing base s c' ∧ c'.buffer ≠ [] := by
  unfold ensure
  by_cases hb : c.buffer = []
  · rw [hb, List.isEmpty_nil, if_pos rfl]
    rcases h.fill with ⟨hs', -⟩ | ⟨n, c', hfill, hf, -, hne, -⟩
    · exact absurd (hs'.symm.trans hb) hs
    · rw [hfill]
      exact ⟨c', rfl, hf, hne⟩
  · rw [if_neg (by simpa using hb)]
    exact ⟨c, rfl, h, hb⟩

theorem take_some {n : Nat} (h : Facing base s c) (hs : s ≠ []) (hn : 0 < n) :
    ∃ c₁ piece rest c₂, c.ensure = (.ok true, c₁) ∧ c₁.takeBuffered n = (piece, c₂) ∧
      s = piece ++ rest ∧ Facing base rest c₂ ∧ piece ≠ [] ∧ piece.length ≤ n := by
  obtain ⟨c₁, he, hf, hne⟩ := h.ensure_cons hs
  obtain ⟨rest, hs, hf'⟩ := hf.advance (List.take_append_drop n c₁.buffer).symm
  refine ⟨c₁, _, rest, _, he, rfl, hs, hf', ?_, List.length_take_le n _⟩
  intro hnil
  rcases List.take_eq_nil_iff.mp hnil with hz | hb
  · omega
  · exact hne hb

end Facing

end Connection

end Courier.Wire
