import Mathlib.Algebra.BigOperators.Group.List.Basic
import Courier.Proofs.Wire.Conversation
import Courier.Proofs.Wire.Turns

/-! # Reading comes to an end

Whatever a peer sends and wherever it breaks off, a reading of the body gives bytes of the body that
is ahead, ends it, or fails. Each piece takes some of them off, so a reader is done after as many
calls as there are bytes, and one.
-/

namespace Courier.Wire.Connection

open Turn

def bodyAhead (c : Connection) : Decoded :=
  bodyOf c.framing c.ahead

/-- What the calls on a connection can come to. A sending or a reading may also be given up on its
way, with no result. -/
inductive Reachable (t : Transport) : Connection → Prop

  | fresh : Reachable t (ofTransport t)

  | send {c : Connection} (h : Reachable t c) (head : RequestHead) (body : Option ByteStream)
      (cells : Cells) : Reachable t (c.sendRequest head body cells).connection

  | sending {c : Connection} (h : Reachable t c) (head : RequestHead) {t' : Transport}
      (ht : t'.reads = c.transport.reads) :
      Reachable t { c.begin head.method with transport := t' }

  | readHead {c : Connection} (h : Reachable t c) : Reachable t c.readHead.2

  | readingHead {c c' : Connection} (h : Reachable t c) (ht : c.headTurn = .again c') :
      Reachable t c'

  | readChunk {c : Connection} (h : Reachable t c) : Reachable t c.readChunk.2

  | readingChunk {c c' : Connection} (h : Reachable t c) (ht : c.bodyTurn = .again c') :
      Reachable t c'

  | abort {c : Connection} (h : Reachable t c) : Reachable t c.abort

  | close {c : Connection} (h : Reachable t c) : Reachable t c.close

/-- What a reading gives of a body, and the rest of it is ahead then. -/
inductive Gives (d : Decoded) : Except Error (Option Bytes) × Connection → Prop

  | failed (e : Error) {c : Connection} (h : c.framing.Live) : Gives d (.error e, c)

  | ended {c : Connection} (h : c.framing.Live) : Gives d (.ok none, c)

  | piece {bytes : Bytes} {c : Connection} (hne : bytes ≠ []) (h : c.framing.Live)
      (hd : d = c.bodyAhead.after bytes) : Gives d (.ok (some bytes), c)

/-- The connection is somewhere in the body. -/
structure Within (d : Decoded) (c : Connection) : Prop where
  live : c.framing.Live
  body : c.bodyAhead = d

variable {c c' : Connection} {d : Decoded}

/-! ## What is ahead -/

theorem Filled.ahead_eq {n : Nat} (h : Filled c (.ok n, c')) : c'.ahead = c.ahead := by
  cases h with
  | ended => rfl
  | read h => simp [ahead, h]

theorem ahead_cut {mark before behind : Bytes} (h : cutAt? mark c.buffer = some (before, behind)) :
    cutAt? mark c.ahead = some (before, ({ c with buffer := behind } : Connection).ahead) :=
  cutAt?_append h _

theorem ahead_take (c : Connection) (n : Nat) :
    c.ahead = (c.takeBuffered n).1 ++ (c.takeBuffered n).2.ahead := by
  simp [ahead, takeBuffered, ← List.append_assoc]

theorem Filled.within {n : Nat} (h : Filled c (.ok n, c')) (hc : Within d c) : Within d c' := by
  have hfr : c'.framing = c.framing := h.framing_eq
  refine ⟨hfr ▸ hc.live, ?_⟩
  rw [bodyAhead, hfr, h.ahead_eq]
  exact hc.body

theorem Filled.buffer_ne_nil {n : Nat} (h : Filled c (.ok n, c')) (hn : n ≠ 0) :
    c'.buffer ≠ [] := by
  cases h with
  | ended => exact absurd rfl hn
  | read h =>
    exact List.append_ne_nil_of_right_ne_nil _ fun hb => hn (List.length_eq_zero_iff.mpr hb)

theorem Ensured.within {r : Except Error Bool} (h : Ensured c (r, c')) (hc : Within d c) :
    c'.framing = c.framing ∧ (r = .ok true → Within d c' ∧ c'.buffer ≠ []) := by
  cases h with
  | failed h => exact ⟨h.framing_eq, fun hr => by cases hr⟩
  | ended h => exact ⟨h.framing_eq, fun hr => by cases hr⟩
  | there hne => exact ⟨rfl, fun _ => ⟨hc, hne⟩⟩
  | read h => exact ⟨h.framing_eq, fun _ => ⟨h.within hc, h.buffer_ne_nil (Nat.succ_ne_zero _)⟩⟩

/-! ## Pieces -/

/-- Takes what the buffer holds of so many bytes, with the next framing by how many are left. -/
def takeUpTo (n : Nat) (f : Fault) (next : Nat → Framing) (c : Connection) :
    Except Error (Option Bytes) × Connection :=
  match c.ensure with
  | (.error e, c) => (.error e, c)
  | (.ok false, c) => c.refuse f
  | (.ok true, c) =>
    let (piece, c) := c.takeBuffered n
    (.ok (some piece), { c with framing := next (n - piece.length) })

/-- A framing by how many bytes are left, where the next one is another when none are. -/
structure Counts (next left : Nat → Framing) : Prop where
  pos : ∀ n, (left n).Live → 0 < n
  live : ∀ n, (next n).Live
  body : ∀ n s, bodyOf (next n) s = bodyOf (left n) s
  append : ∀ n piece rest, piece.length ≤ n →
    bodyOf (left n) (piece ++ rest) = (bodyOf (left (n - piece.length)) rest).after piece

theorem counts_length : Counts (fun n => if n = 0 then .done else .length n) .length where
  pos := fun _ h => h
  live
    | 0 => trivial
    | n + 1 => Nat.succ_pos n
  body
    | 0, s => (lengthBody_zero s).symm
    | _ + 1, _ => rfl
  append := fun _ _ _ => lengthBody_append

theorem counts_data :
    Counts (fun n => .chunked (if n = 0 then .dataEnd else .data n)) (fun n => .chunked (.data n))
    where
  pos := fun _ h => h
  live
    | 0 => trivial
    | n + 1 => Nat.succ_pos n
  body
    | 0, s => (chunkedBody_data_zero s).symm
    | _ + 1, _ => rfl
  append := fun _ _ _ => chunkedBody_data_append

theorem Within.takeUpTo {n : Nat} {next left : Nat → Framing} (hc : Within d c)
    (hn : Counts next left) (hf : c.framing = left n) (f : Fault) :
    Gives d (takeUpTo n f next c) := by
  have he := c.ensured_ensure
  have hpos : 0 < n := hn.pos n (hf ▸ hc.live)
  unfold Connection.takeUpTo
  generalize c.ensure = r at he ⊢
  rcases r with ⟨e | more, c₁⟩
  · obtain ⟨hfr, -⟩ := he.within hc
    exact .failed e (hfr ▸ hc.live)
  · obtain ⟨hfr, hmore⟩ := he.within hc
    cases more with
    | false => exact .failed f.error (hfr ▸ hc.live)
    | true =>
      obtain ⟨⟨-, hbody⟩, hb⟩ := hmore rfl
      refine .piece (fun h => ?_) (hn.live _) ?_
      · rcases List.take_eq_nil_iff.mp h with hz | hnil
        · exact absurd hz (Nat.ne_of_gt hpos)
        · exact hb hnil
      · have hle : (c₁.takeBuffered n).1.length ≤ n := List.length_take_le n _
        rw [← hbody, bodyAhead, hfr, hf, ahead_take c₁ n, hn.append n _ _ hle, ← hn.body]
        rfl

theorem Within.length {n : Nat} (hc : Within d c) (hf : c.framing = .length n) :
    Gives d c.readChunk := by
  have hr : c.readChunk = c.takeUpTo n (.closedInBody n) fun n =>
      if n = 0 then .done else .length n := by
    unfold readChunk
    rw [hf]
    rfl
  exact hr ▸ hc.takeUpTo counts_length hf _

theorem Within.data {n : Nat} (hc : Within d c) (hf : c.framing = .chunked (.data n)) :
    Gives d c.readChunk := by
  have hr : c.readChunk = c.takeUpTo n .closedInChunk fun n =>
      .chunked (if n = 0 then .dataEnd else .data n) := by
    unfold readChunk
    rw [hf]
    rfl
  exact hr ▸ hc.takeUpTo counts_data hf _

theorem Within.untilClose (hc : Within d c) (hf : c.framing = .untilClose) :
    Gives d c.readUntilClose := by
  have he := c.ensured_ensure
  unfold readUntilClose
  generalize c.ensure = r at he ⊢
  rcases r with ⟨e | more, c₁⟩
  · obtain ⟨hfr, -⟩ := he.within hc
    exact .failed e (hfr ▸ hc.live)
  · obtain ⟨hfr, hmore⟩ := he.within hc
    cases more with
    | false => exact .ended trivial
    | true =>
      obtain ⟨⟨hlive, hbody⟩, hb⟩ := hmore rfl
      refine .piece hb hlive ?_
      rw [← hbody, bodyAhead, bodyAhead, hfr, hf]
      rfl

/-! ## Turns -/

theorem Within.fillTurn (hc : Within d c) (f : Fault) :
    (c.fillTurn f).Sat (Within d) (Gives d) :=
  fillTurn_sat (fun e _ h => .failed e (h.framing_eq ▸ hc.live))
    (fun _ h => .failed f.error (h.within hc).live) fun _ _ h => h.within hc

theorem bodyLine_gives {state : ChunkState} {line s : Bytes} (hlive : c.framing.Live)
    (hst : state.rank = 0) (hc : cutAt? crlf s = some (line, c.ahead)) :
    (bodyLine state line c).Sat (Within (chunkedBody state s)) (Gives (chunkedBody state s)) := by
  cases state with
  | data => cases hst
  | size =>
    rw [chunkedBody_size hc]
    dsimp only [bodyLine]
    rcases chunkSize line with f | _ | n
    · exact .failed f.error hlive
    · exact ⟨trivial, rfl⟩
    · exact ⟨Nat.succ_pos n, rfl⟩
  | dataEnd =>
    rw [chunkedBody_dataEnd hc]
    cases line with
    | nil => exact ⟨trivial, rfl⟩
    | cons x line => exact .failed _ hlive
  | trailers =>
    rw [chunkedBody_trailers hc]
    cases line with
    | nil => exact .ended trivial
    | cons x line => exact ⟨trivial, rfl⟩

theorem Within.lineTurn {state : ChunkState} (hc : Within d c) (hf : c.framing = .chunked state)
    (hst : state.rank = 0) : (c.lineTurn (bodyLine state)).Sat (Within d) (Gives d) := by
  unfold Connection.lineTurn
  split
  · rename_i line rest hcut
    have hd : chunkedBody state c.ahead = d := by
      rw [← hc.body, bodyAhead, hf]
      rfl
    have hgives := bodyLine_gives (c := { c with buffer := rest }) hc.live hst (ahead_cut hcut)
    rwa [hd] at hgives
  · exact hc.fillTurn _

theorem Within.bodyTurn (hc : Within d c) : c.bodyTurn.Sat (Within d) (Gives d) := by
  by_cases hl : ∃ state, c.framing = .chunked state ∧ state.rank = 0
  · obtain ⟨state, hf, hst⟩ := hl
    rw [bodyTurn_line hf hst]
    exact hc.lineTurn hf hst
  · rw [bodyTurn_readChunk fun state hf hst => hl ⟨state, hf, hst⟩]
    cases hf : c.framing with
    | done =>
      have hr : c.readChunk = (.ok none, c) := by rw [readChunk, hf]
      exact hr ▸ Gives.ended hc.live
    | length n => exact hc.length hf
    | chunked state =>
      cases state with
      | data n => exact hc.data hf
      | _ => exact absurd ⟨_, hf, rfl⟩ hl
    | untilClose =>
      have hr : c.readChunk = c.readUntilClose := by rw [readChunk, hf]
      exact hr ▸ hc.untilClose hf

theorem gives_readChunk (h : c.framing.Live) : Gives c.bodyAhead c.readChunk := by
  obtain ⟨n, hn⟩ := c.readChunk_led
  have hw : Within c.bodyAhead c := ⟨h, rfl⟩
  exact hn.sat (fun _ => Within.bodyTurn) hw

/-! ## Readings one after the other -/

/-- Reading comes to an end, and its pieces are parts of the body that is ahead. -/
theorem drains_bodyAhead (h : c.framing.Live) :
    ∃ pieces e c', Drains c.readChunk pieces e c' ∧ (∀ p ∈ pieces, p ≠ []) ∧
      pieces.flatten <+: c.bodyAhead.body := by
  induction hl : c.bodyAhead.body.length using Nat.strongRecOn generalizing c with
  | ind n ih =>
    have hg := gives_readChunk h
    generalize c.readChunk = r at hg ⊢
    cases hg with
    | failed e => exact ⟨[], some e, _, .failed, by simp, List.nil_prefix⟩
    | ended => exact ⟨[], none, _, .ended, by simp, List.nil_prefix⟩
    | @piece bytes c₁ hne hlive hd =>
      have hpos : 0 < bytes.length := List.length_pos_iff.mpr hne
      rw [hd] at hl ⊢
      have hlen : bytes.length + c₁.bodyAhead.body.length = n := by
        rw [← hl, Decoded.after, List.length_append]
      obtain ⟨pieces, e, c', hdr, hall, hpre⟩ := ih _ (by omega) hlive rfl
      refine ⟨bytes :: pieces, e, c', .piece hdr, ?_, ?_⟩
      · exact List.forall_mem_cons.mpr ⟨hne, hall⟩
      · exact (List.prefix_append_right_inj bytes).mpr hpre

theorem headTurn_live (h : c.framing.Live) :
    c.headTurn.Sat (·.framing.Live) (·.2.framing.Live) := by
  have fill {e c'} (hf : Filled c (e, c')) : c'.framing.Live := hf.framing_eq ▸ h
  unfold headTurn
  split
  · dsimp only
    split
    · exact h
    · split
      · exact h
      · rw [adopt_eq]
        exact framingOf_live _ _
  · split
    · exact h
    · exact fillTurn_sat (fun _ _ => fill) (fun _ => fill) fun _ _ => fill

/-- Of every reachable connection: a count of bytes that is outstanding is not zero. -/
theorem Reachable.live {t : Transport} (h : Reachable t c) : c.framing.Live := by
  induction h with
  | fresh => trivial
  | send _ head body cells =>
    rw [(went_sendRequest _ head body cells).framing_eq]
    trivial
  | sending => trivial
  | @readHead c _ ih =>
    obtain ⟨n, hn⟩ := c.readHead_led
    exact hn.sat (fun _ => headTurn_live) ih
  | readingHead _ ht ih =>
    have hs := headTurn_live ih
    rwa [ht] at hs
  | readChunk _ ih =>
    have hg := gives_readChunk ih
    generalize Connection.readChunk _ = r at hg ⊢
    cases hg with
    | failed _ h => exact h
    | ended h => exact h
    | piece _ h => exact h
  | readingChunk _ ht ih =>
    have hw := Within.bodyTurn ⟨ih, rfl⟩
    rw [ht] at hw
    exact hw.live
  | abort _ ih => exact ih
  | close _ ih => exact ih

/-- The reading comes to its result in so many turns as are unread, and one, and takes no more of the
steps of the script than there are turns. -/
def Returns {α : Type} (turn : Connection → Turn Connection (α × Connection)) (c : Connection)
    (r : α × Connection) : Prop :=
  ∃ turns used, Leads turn (.again c) turns r ∧ turns ≤ c.unread + 1 ∧ used.length ≤ turns ∧
    c.transport.reads = used ++ r.2.transport.reads

theorem Returns.of_leads {α : Type} {turn : Connection → Turn Connection (α × Connection)}
    {r : α × Connection} {n : Nat} (hturn : ∀ c : Connection, c.Shortens (turn c))
    (h : Leads turn (.again c) n r) : Returns turn c r := by
  obtain ⟨hn, used, hle, hreads⟩ := leads_bounded hturn h
  exact ⟨n, used, h, hn, hle, hreads⟩

/-- No count of outstanding bytes is zero, each reading returns, none gives an empty piece, and the
readings up to the last piece and the one after it are no more than the bytes of the body ahead, and
one. -/
structure Ends (c : Connection) : Prop where
  length : c.framing ≠ .length 0
  data : c.framing ≠ .chunked (.data 0)
  head : Returns headTurn c c.readHead
  chunk : Returns bodyTurn c c.readChunk
  nonempty : ∀ bytes c', c.readChunk = (.ok (some bytes), c') → bytes ≠ []
  calls : ∃ pieces e c', Drains c.readChunk pieces e c' ∧
    pieces.length + 1 ≤ c.bodyAhead.body.length + 1

/-- Whatever is sent and wherever it breaks off, reading ends on every reachable connection. -/
theorem reading_ends {t : Transport} (h : Reachable t c) : Ends c := by
  have hlive := h.live
  obtain ⟨nh, hhead⟩ := c.readHead_led
  obtain ⟨nc, hchunk⟩ := c.readChunk_led
  obtain ⟨pieces, e, c', hdr, hne, hpre⟩ := drains_bodyAhead hlive
  refine ⟨?_, ?_, .of_leads headTurn_shortens hhead, .of_leads bodyTurn_shortens hchunk, ?_, ?_⟩
  · intro hf
    rw [hf] at hlive
    exact Nat.lt_irrefl 0 hlive
  · intro hf
    rw [hf] at hlive
    exact Nat.lt_irrefl 0 hlive
  · intro bytes c'' hr
    have hg := gives_readChunk hlive
    rw [hr] at hg
    cases hg with
    | piece hne => exact hne
  · have hsum : pieces.length ≤ pieces.flatten.length := by
      rw [List.length_flatten, ← List.length_map List.length]
      refine List.length_le_sum_of_one_le _ fun n hn => ?_
      obtain ⟨p, hp, rfl⟩ := List.mem_map.mp hn
      exact List.length_pos_iff.mpr (hne p hp)
    exact ⟨pieces, e, c', hdr, Nat.succ_le_succ (Nat.le_trans hsum hpre.length_le)⟩

/-- An interim head, a head that comes in two, and a chunk that breaks off. -/
def torn : Transport :=
  .ofReads [.data (Bytes.ofText "HTTP/1.1 100 Continue\r\n\r\nHTTP/1.1 200 OK\r\nTransfer-Enc"),
    .data (Bytes.ofText "oding: chunked\r\n\r\n5;x=1\r\nab"), .data (Bytes.ofText "c")]

def inTornChunk : Connection :=
  ((ofTransport torn).sendRequest ⟨.get, "/", .empty⟩ none .empty).connection.readHead.2.readChunk.2

theorem reading_ends_torn :
    Reachable torn inTornChunk ∧ inTornChunk.framing = .chunked (.data 3) ∧ Ends inTornChunk := by
  have h : Reachable torn inTornChunk := .readChunk (.readHead (.send .fresh _ _ _))
  exact ⟨h, by decide +kernel, reading_ends h⟩

end Courier.Wire.Connection
