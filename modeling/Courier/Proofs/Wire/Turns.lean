import Courier.Proofs.Wire.Decoding

/-! # Reading in turns

A head and a chunked body are read in turns, each of which takes something off the buffer, reads
once more, or comes to a result. Nothing bounds the turns but what is unread: each turn that another
one follows leaves less of it. What is read with a bound on the rounds is what the turns lead to.
-/

namespace Courier

/-- What a turn of a loop leads to. -/
inductive Turn (σ ρ : Type)
  | again (s : σ)
  | done (r : ρ)

namespace Turn

variable {σ ρ : Type} {turn : σ → Turn σ ρ} {t : Turn σ ρ} {s s' : σ} {n : Nat} {r : ρ}

/-- So many more turns lead to the result. -/
inductive Leads (turn : σ → Turn σ ρ) : Turn σ ρ → Nat → ρ → Prop

  | done (r : ρ) : Leads turn (.done r) 0 r

  | again {s : σ} {n : Nat} {r : ρ} (next : Leads turn (turn s) n r) :
      Leads turn (.again s) (n + 1) r

theorem Leads.of_done (h : turn s = .done r) : Leads turn (.again s) 1 r :=
  .again (h ▸ .done r)

theorem Leads.of_again (h : turn s = .again s') (next : Leads turn (.again s') n r) :
    Leads turn (.again s) (n + 1) r :=
  .again (h ▸ next)

/-- What a function makes of the turn, if it goes on from the state of another. -/
def value (f : σ → ρ) : Turn σ ρ → ρ
  | .again s => f s
  | .done r => r

/-- The state in which a turn is followed by another, or the result, is as asked. -/
def Sat (P : σ → Prop) (Q : ρ → Prop) : Turn σ ρ → Prop
  | .again s => P s
  | .done r => Q r

theorem Leads.sat {P : σ → Prop} {Q : ρ → Prop} (h : Leads turn t n r)
    (hstep : ∀ s, P s → (turn s).Sat P Q) (ht : t.Sat P Q) : Q r := by
  induction h with
  | done => exact ht
  | again _ ih => exact ih (hstep _ ht)

end Turn

namespace Wire.Connection

open Turn

variable {α : Type} {c c' : Connection}

/-! ## Turns -/

def fillTurn (c : Connection) (f : Fault) : Turn Connection (Except Error α × Connection) :=
  match c.fill with
  | (.error e, c) => .done (.error e, c)
  | (.ok 0, c) => .done (c.refuse f)
  | (.ok (_ + 1), c) => .again c

def lineTurn (c : Connection)
    (next : Bytes → Connection → Turn Connection (Except Error α × Connection)) :
    Turn Connection (Except Error α × Connection) :=
  match cutAt? crlf c.buffer with
  | some (line, rest) => next line { c with buffer := rest }
  | none => c.fillTurn .closedInChunkedBody

def headTurn (c : Connection) : Turn Connection (Except Error ResponseHead × Connection) :=
  match cutAt? headEnd c.buffer with
  | some (raw, rest) =>
    let c := { c with buffer := rest }
    match Head.parse raw with
    | .error f => .done (c.refuse f)
    | .ok h => if h.isInterim then .again c else .done (.ok h.head, c.adopt h)
  | none =>
    if maxHead < c.buffer.length then .done (c.refuse .headTooLarge)
    else c.fillTurn .closedBeforeHead

/-- What a line is to a chunked body in this place. -/
def bodyLine : ChunkState → Bytes → Connection →
    Turn Connection (Except Error (Option Bytes) × Connection)
  | .size, line, c =>
    match chunkSize line with
    | .error f => .done (.error f.error, c)
    | .ok 0 => .again (c.inChunk .trailers)
    | .ok (n + 1) => .again (c.inChunk (.data (n + 1)))
  | .dataEnd, [], c => .again (c.inChunk .size)
  | .trailers, [], c => .done (.ok none, { c with framing := .done })
  | .trailers, _ :: _, c => .again (c.inChunk .trailers)
  | _, _, c => .done (c.refuse .chunkEnd)

/-- Only between the data of two chunks and behind the last one can more than one turn be needed. -/
def bodyTurn (c : Connection) : Turn Connection (Except Error (Option Bytes) × Connection) :=
  match c.framing with
  | .chunked (.data _) => .done c.readChunk
  | .chunked state => c.lineTurn (bodyLine state)
  | _ => .done c.readChunk

/-! ## What a turn does -/

/-- The script of the reads is where it was, or a step on. -/
def Onward (c c' : Connection) : Prop :=
  c'.transport.reads = c.transport.reads ∨ c'.transport.reads = c.transport.reads.tail

/-- A turn goes on a step at most, and leaves less unread for another. -/
def Shortens (c : Connection) (t : Turn Connection (α × Connection)) : Prop :=
  t.Sat (fun c' => Onward c c' ∧ c'.unread < c.unread) fun r => Onward c r.2

inductive Filled (c : Connection) : Except Error Nat × Connection → Prop

  | ended (h : c.transport.reads = []) : Filled c (.ok 0, c)

  | failed {message : String} {reads : List ReadItem}
      (h : c.transport.reads = .fault message :: reads) :
      Filled c (.error (.transmission message),
        { c with transport := { c.transport with reads }, broken := true })

  | read {bytes : Bytes} {reads : List ReadItem} (h : c.transport.reads = .data bytes :: reads) :
      Filled c (.ok bytes.length,
        { c with transport := { c.transport with reads }, buffer := c.buffer ++ bytes })

theorem filled_fill (c : Connection) : Filled c c.fill := by
  unfold fill Transport.read
  split
  · rename_i hread
    split at hread
    · rename_i h
      cases hread
      have hc := Filled.ended h
      rwa [List.append_nil]
    · rename_i h
      cases hread
      exact .read h
    · cases hread
  · rename_i hread
    split at hread
    · cases hread
    · cases hread
    · rename_i h
      cases hread
      exact .failed h

theorem Filled.onward {r : Except Error Nat × Connection} (h : Filled c r) : Onward c r.2 := by
  cases h with
  | ended => exact .inl rfl
  | failed h => exact .inr (congrArg List.tail h).symm
  | read h => exact .inr (congrArg List.tail h).symm

theorem Filled.framing_eq {r : Except Error Nat × Connection} (h : Filled c r) :
    r.2.framing = c.framing := by
  cases h <;> rfl

theorem Filled.unread_lt {n : Nat} (h : Filled c (.ok n, c')) (hn : n ≠ 0) :
    c'.unread < c.unread := by
  cases h with
  | ended => exact absurd rfl hn
  | read h =>
    simp only [unread, Transport.unread, h, Transport.itemsSize, List.length_append]
    omega

theorem fillTurn_sat {P : Connection → Prop} {Q : Except Error α × Connection → Prop} {f : Fault}
    (failed : ∀ e c', Filled c (.error e, c') → Q (.error e, c'))
    (ended : ∀ c', Filled c (.ok 0, c') → Q (c'.refuse f))
    (read : ∀ n c', Filled c (.ok (n + 1), c') → P c') : (c.fillTurn f).Sat P Q := by
  have hf := c.filled_fill
  unfold fillTurn
  generalize c.fill = r at hf ⊢
  rcases r with ⟨e | n, c'⟩
  · exact failed e c' hf
  · cases n with
    | zero => exact ended c' hf
    | succ n => exact read n c' hf

theorem fillTurn_shortens (c : Connection) (f : Fault) :
    c.Shortens (c.fillTurn f : Turn Connection (Except Error α × Connection)) :=
  fillTurn_sat (fun _ _ h => h.onward) (fun _ h => h.onward)
    fun n _ h => ⟨h.onward, h.unread_lt (Nat.succ_ne_zero n)⟩

theorem headTurn_shortens (c : Connection) : c.Shortens c.headTurn := by
  unfold headTurn
  split
  · rename_i raw rest hc
    have hu : ({ c with buffer := rest } : Connection).unread < c.unread :=
      Facing.unread_cut (by decide) hc
    dsimp only
    split
    · exact .inl rfl
    · split
      · exact ⟨.inl rfl, hu⟩
      · rw [adopt_eq]
        exact .inl rfl
  · split
    · exact .inl rfl
    · exact c.fillTurn_shortens _

inductive Ensured (c : Connection) : Except Error Bool × Connection → Prop

  | failed {e : Error} {c' : Connection} (h : Filled c (.error e, c')) : Ensured c (.error e, c')

  | ended {c' : Connection} (h : Filled c (.ok 0, c')) : Ensured c (.ok false, c')

  | there (hne : c.buffer ≠ []) : Ensured c (.ok true, c)

  | read {n : Nat} {c' : Connection} (h : Filled c (.ok (n + 1), c')) : Ensured c (.ok true, c')

theorem ensured_ensure (c : Connection) : Ensured c c.ensure := by
  have hf := c.filled_fill
  unfold ensure
  split
  · split
    · rename_i hfill
      exact .failed (hfill ▸ hf)
    · rename_i n c' hfill
      rw [hfill] at hf
      cases n with
      | zero => exact .ended hf
      | succ n => exact .read hf
  · rename_i hne
    exact .there (by simpa using hne)

theorem Ensured.onward {r : Except Error Bool × Connection} (h : Ensured c r) : Onward c r.2 := by
  cases h with
  | failed h => exact h.onward
  | ended h => exact h.onward
  | there => exact .inl rfl
  | read h => exact h.onward

theorem onward_readChunk (h : ∀ state, c.framing = .chunked state → ∃ n, state = .data n) :
    Onward c c.readChunk.2 := by
  have he := c.ensured_ensure.onward
  unfold readChunk
  split
  · exact .inl rfl
  · unfold readLength
    split
    all_goals
      rename_i hens
      rw [hens] at he
      exact he
  · rename_i state hc
    obtain ⟨n, rfl⟩ := h state hc
    unfold readChunked
    split
    all_goals
      rename_i hens
      rw [hens] at he
      exact he
  · unfold readUntilClose
    split
    all_goals
      rename_i hens
      rw [hens] at he
      exact he

theorem bodyLine_shortens (state : ChunkState) (line : Bytes) (hc : Onward c c')
    (hu : c'.unread < c.unread) : c.Shortens (bodyLine state line c') := by
  unfold bodyLine
  split
  · split
    · exact hc
    · exact ⟨hc, hu⟩
    · exact ⟨hc, hu⟩
  · exact ⟨hc, hu⟩
  · exact hc
  · exact ⟨hc, hu⟩
  · exact hc

theorem lineTurn_shortens (c : Connection) (state : ChunkState) :
    c.Shortens (c.lineTurn (bodyLine state)) := by
  unfold lineTurn
  split
  · rename_i hc
    exact bodyLine_shortens state _ (.inl rfl) (Facing.unread_cut (by decide) hc)
  · exact c.fillTurn_shortens _

theorem bodyTurn_shortens (c : Connection) : c.Shortens c.bodyTurn := by
  unfold bodyTurn
  split
  · rename_i n hc
    exact onward_readChunk fun state hs => ⟨n, Framing.chunked.inj (hs.symm.trans hc)⟩
  · exact c.lineTurn_shortens _
  · rename_i hne
    exact onward_readChunk fun state hs => absurd hs (hne state)

theorem Onward.reads_eq (h : Onward c c') :
    ∃ step, step.length ≤ 1 ∧ c.transport.reads = step ++ c'.transport.reads := by
  rcases h with h | h
  · exact ⟨[], Nat.zero_le 1, h.symm⟩
  · rw [h]
    cases c.transport.reads with
    | nil => exact ⟨[], Nat.zero_le 1, rfl⟩
    | cons item reads => exact ⟨[item], Nat.le_refl 1, rfl⟩

/-- Turns that each leave less unread are no more than that and one, and the script goes on by no
more steps than there are turns. -/
theorem leads_bounded {turn : Connection → Turn Connection (α × Connection)} {n : Nat}
    {r : α × Connection} {c : Connection} (hturn : ∀ c : Connection, c.Shortens (turn c))
    (h : Leads turn (.again c) n r) :
    n ≤ c.unread + 1 ∧ ∃ used, used.length ≤ n ∧
      c.transport.reads = used ++ r.2.transport.reads := by
  generalize ht : Turn.again c = t at h
  induction h generalizing c with
  | done => cases ht
  | @again s n r next ih =>
    obtain rfl := Turn.again.inj ht
    have hs := hturn c
    cases hc : turn c with
    | done r' =>
      rw [hc] at next hs
      cases next
      obtain ⟨step, hle, hreads⟩ := Onward.reads_eq hs
      exact ⟨Nat.succ_le_succ (Nat.zero_le _), step, hle, hreads⟩
    | again c' =>
      rw [hc] at ih hs
      obtain ⟨hn, used, hlen, hused⟩ := ih rfl
      obtain ⟨step, hle, hreads⟩ := Onward.reads_eq hs.1
      have hlt : c'.unread < c.unread := hs.2
      refine ⟨by omega, step ++ used, ?_, ?_⟩
      · rw [List.length_append]
        omega
      · rw [hreads, hused, List.append_assoc]

/-! ## Heads -/

theorem awaitHead_eq (rounds : Nat) (c : Connection) :
    awaitHead (rounds + 1) c = c.headTurn.value (awaitHead rounds) := by
  unfold headTurn
  rw [awaitHead]
  cases cutAt? headEnd c.buffer with
  | some cut =>
    dsimp only
    cases Head.parse cut.1 with
    | error f => rfl
    | ok h =>
      dsimp only
      split <;> rfl
  | none =>
    dsimp only
    split
    · rfl
    · unfold fillTurn
      rcases c.fill with ⟨_ | _ | _, _⟩ <;> rfl

theorem awaitHead_led {rounds : Nat} (h : c.unread < rounds) :
    ∃ n, Leads headTurn (.again c) n (awaitHead rounds c) := by
  induction rounds generalizing c with
  | zero => omega
  | succ rounds ih =>
    have hs := c.headTurn_shortens
    rw [awaitHead_eq]
    cases ht : c.headTurn with
    | done r => exact ⟨1, .of_done ht⟩
    | again c' =>
      rw [ht] at hs
      have hlt : c'.unread < c.unread := hs.2
      obtain ⟨n, hn⟩ := ih (c := c') (by omega)
      exact ⟨n + 1, .of_again ht hn⟩

theorem readHead_led (c : Connection) : ∃ n, Leads headTurn (.again c) n c.readHead :=
  awaitHead_led (Nat.lt_succ_self _)

/-! ## Bodies -/

variable {state : ChunkState}

theorem bodyTurn_line (hc : c.framing = .chunked state) (hst : state.rank = 0) :
    c.bodyTurn = c.lineTurn (bodyLine state) := by
  unfold bodyTurn
  rw [hc]
  cases state with
  | data => cases hst
  | _ => rfl

theorem bodyTurn_readChunk (hc : ∀ state, c.framing = .chunked state → state.rank ≠ 0) :
    c.bodyTurn = .done c.readChunk := by
  unfold bodyTurn
  cases hf : c.framing with
  | chunked state =>
    cases state with
    | data => rfl
    | _ => exact absurd rfl (hc _ hf)
  | _ => rfl

/-- The line that is waited for is what the turns go on with. -/
inductive LineLed (state : ChunkState) (c : Connection) : Except Error Bytes × Connection → Prop

  | failed {e : Error} {c' : Connection} {n : Nat}
      (h : Leads bodyTurn (.again c) n (.error e, c')) : LineLed state c (.error e, c')

  | line {line : Bytes} {c' : Connection} (hlt : c'.unread < c.unread)
      (h : ∀ n r, Leads bodyTurn (bodyLine state line c') n r →
        ∃ m, Leads bodyTurn (.again c) m r) : LineLed state c (.ok line, c')

theorem LineLed.of_again {r : Except Error Bytes × Connection} (ht : c.bodyTurn = .again c')
    (hlt : c'.unread < c.unread) (h : LineLed state c' r) : LineLed state c r := by
  cases h with
  | failed h => exact .failed (.of_again ht h)
  | line hlt' h =>
    refine .line (Nat.lt_trans hlt' hlt) fun n r hn => ?_
    obtain ⟨m, hm⟩ := h n r hn
    exact ⟨m + 1, .of_again ht hm⟩

theorem awaitLine_led {rounds : Nat} (hc : c.framing = .chunked state) (hst : state.rank = 0)
    (h : c.unread < rounds) : LineLed state c (awaitLine rounds c) := by
  induction rounds generalizing c with
  | zero => omega
  | succ rounds ih =>
    have ht := bodyTurn_line hc hst
    have hf := c.filled_fill
    unfold lineTurn fillTurn at ht
    unfold awaitLine
    cases hcut : cutAt? crlf c.buffer with
    | some cut =>
      obtain ⟨line, rest⟩ := cut
      rw [hcut] at ht
      exact .line (Facing.unread_cut (by decide) hcut) fun n r hn => ⟨n + 1, .again (ht ▸ hn)⟩
    | none =>
      rw [hcut] at ht
      rcases hfill : c.fill with ⟨e | n, c₁⟩
      · rw [hfill] at ht
        exact .failed (.of_done ht)
      · rw [hfill] at ht hf
        cases n with
        | zero => exact .failed (.of_done ht)
        | succ n =>
          have hlt := hf.unread_lt (Nat.succ_ne_zero n)
          have hlt' : c₁.unread < rounds := by omega
          exact (ih (hf.framing_eq.trans hc) hlt').of_again ht hlt

theorem bodyLine_again {line : Bytes} (h : bodyLine state line c = .again c') :
    ∃ state', c' = c.inChunk state' ∧ (Framing.chunked state').Live := by
  unfold bodyLine at h
  split at h
  · split at h
    · cases h
    · cases h
      exact ⟨_, rfl, trivial⟩
    · cases h
      exact ⟨_, rfl, Nat.succ_pos _⟩
  · cases h
    exact ⟨_, rfl, trivial⟩
  · cases h
  · cases h
    exact ⟨_, rfl, trivial⟩
  · cases h

/-- Reads on in a chunked body, with so many rounds left. -/
def readOn (rounds : Nat) (c : Connection) : Except Error (Option Bytes) × Connection :=
  match c.framing with
  | .chunked state => readChunked rounds state c
  | _ => c.readChunk

theorem readChunked_line (rounds : Nat) (hst : state.rank = 0) :
    readChunked (rounds + 1) state c =
      match c.takeLine with
      | (.error e, c) => (.error e, c)
      | (.ok line, c) => (bodyLine state line c).value (readOn rounds) := by
  cases state with
  | data => cases hst
  | size =>
    rw [readChunked]
    rcases c.takeLine with ⟨_ | line, c⟩
    · rfl
    · dsimp only [bodyLine]
      rcases chunkSize line with _ | _ | n <;> rfl
  | _ =>
    rw [readChunked]
    rcases c.takeLine with ⟨_ | _ | _, c⟩ <;> rfl

theorem readChunked_led {rounds : Nat} (hc : c.framing = .chunked state) (h : c.unread < rounds) :
    ∃ n, Leads bodyTurn (.again c) n (readChunked rounds state c) := by
  induction rounds generalizing c state with
  | zero => omega
  | succ rounds ih =>
    by_cases hst : state.rank = 0
    · have hl : LineLed state c c.takeLine := awaitLine_led hc hst (Nat.lt_succ_self _)
      rw [readChunked_line rounds hst]
      generalize c.takeLine = r at hl ⊢
      cases hl with
      | failed h => exact ⟨_, h⟩
      | @line line c' hlt hled =>
        dsimp only
        cases hb : bodyLine state line c' with
        | done r =>
          rw [hb] at hled
          exact hled 0 r (.done r)
        | again c'' =>
          rw [hb] at hled
          obtain ⟨state', rfl, -⟩ := bodyLine_again hb
          have hu : (c'.inChunk state').unread = c'.unread := rfl
          obtain ⟨n, hn⟩ := ih (c := c'.inChunk state') rfl (by omega)
          exact hled n _ hn
    · -- the data of a chunk need a single turn
      have hr : readChunked (rounds + 1) state c = c.readChunk := by
        unfold readChunk
        rw [hc]
        cases state with
        | data => rfl
        | _ => exact absurd rfl hst
      have hb := bodyTurn_readChunk (c := c) fun state' hs =>
        Framing.chunked.inj (hc.symm.trans hs) ▸ hst
      exact ⟨1, .of_done (hr ▸ hb)⟩

theorem readChunk_led (c : Connection) : ∃ n, Leads bodyTurn (.again c) n c.readChunk := by
  by_cases hc : ∃ state, c.framing = .chunked state
  · obtain ⟨state, hc⟩ := hc
    have hr : c.readChunk = readChunked (c.unread + 2) state c := by
      unfold readChunk
      rw [hc]
    rw [hr]
    exact readChunked_led hc (by omega)
  · exact ⟨1, .of_done (bodyTurn_readChunk fun state hs => absurd ⟨state, hs⟩ hc)⟩

end Wire.Connection

end Courier
