import Courier.Proofs.Client.Collector
import Courier.Proofs.Client.Pump
import Courier.Proofs.Stream.Relay
import Courier.Proofs.Stream.Subscription

/-! # Gathering a body

Between the pump and a handler that collects the body stand the filters. What was read off the
connection is what they have been fed and what is still ahead of them; so a handler that is told of
a good end has all that they made of the body, and none of them has objected.
-/

namespace Courier

/-! ## Reading through the filters -/

namespace Subscription

open Courier.Filter (Relays)

variable {fs now : List Filter} {fed : List Bytes} {out : Bytes} {ch : Channel}

/-- What a reading comes to after the filters have been fed some chunks and released some bytes. -/
inductive ReadsOn (fs : List Filter) (fed : List Bytes) (out : Bytes) (ch : Channel) : Pull → Prop

  | on {now : List Filter} {fed' : List Bytes} {bytes : Bytes} {outcome : Polled} {ch' : Channel}
      {cells : Cells} (ho : outcome = .chunk bytes ∨ outcome = .pending ∧ bytes = [])
      (hr : Relays fs fed' (out ++ bytes) now) (hq : fed' ++ ch'.queue = fed ++ ch.queue)
      (hs : ch'.source = none) (hc : ch'.cancelled = false) (hte : ch'.terminal = ch.terminal) :
      ReadsOn fs fed out ch ⟨outcome, ⟨now, false⟩, ch', cells⟩

  | failed {p : Pull} {e : Error} (ho : p.outcome = .failed e) : ReadsOn fs fed out ch p

  | finished {p : Pull} {now : List Filter} {cells : Cells} (ho : p.outcome = .finished)
      (ht : ch.terminal = some .completed) (hr : Relays fs (fed ++ ch.queue) out now)
      (hc : (Filter.completeAll now cells).1 = .ok ()) : ReadsOn fs fed out ch p

theorem ReadsOn.congr {fed' : List Bytes} {ch' : Channel} {p : Pull} (h : ReadsOn fs fed out ch p)
    (hq : fed ++ ch.queue = fed' ++ ch'.queue) (hte : ch.terminal = ch'.terminal) :
    ReadsOn fs fed' out ch' p := by
  cases h with
  | on ho hr hq' hs hc hte' => exact .on ho hr (hq'.trans hq) hs hc (hte'.trans hte)
  | failed ho => exact .failed ho
  | finished ho ht hr hc => exact .finished ho (hte ▸ ht) (hq ▸ hr) hc

theorem readsOn_close (hr : Relays fs fed out now) (t : Terminal) (cells : Cells)
    (hq : ch.queue = []) (hte : ch.terminal = some t) (ch' : Channel) :
    ReadsOn fs fed out ch (close ⟨now, false⟩ t ch' cells) := by
  cases t with
  | failed e => exact .failed rfl
  | completed =>
    unfold close
    rcases hc : Filter.completeAll now cells with ⟨e | ⟨⟩, now', cells'⟩
    · exact .failed rfl
    · exact .finished rfl hte (by rwa [hq, List.append_nil]) (congrArg Prod.fst hc)

/-- By induction on the looks: a chunk withheld goes from the queue to the filters. -/
theorem readsOn_looks {auto : Bool} {cells : Cells} {g : Grants} {p : Pull} {s : Subscription}
    (hl : Looks auto cells s ch g p) :
    ∀ {now : List Filter} {fed : List Bytes}, s = ⟨now, false⟩ → Relays fs fed out now →
      ch.source = none → ch.cancelled = false → ReadsOn fs fed out ch p := by
  induction hl with
  | spent =>
    rintro now fed rfl hr hs hc
    exact .on (.inr ⟨rfl, rfl⟩) (by rwa [List.append_nil]) rfl hs hc rfl
  | @taken _ ch chunk bytes rest _ hq hf =>
    rintro now fed rfl hr hs hc
    rw [Channel.queue_primed hs] at hq
    refine .on (.inl rfl) (hr.push hf) ?_ ?_ ?_ ?_
    · simp [hq]
    · exact Channel.source_primed hs
    · simpa using hc
    · exact Channel.terminal_primed hs
  | @withheld _ ch chunk rest _ _ _ hq hf _ ih =>
    rintro now fed rfl hr hs hc
    rw [Channel.queue_primed hs] at hq
    have hs' : ({ ch.primed auto with queue := rest } : Channel).source = none :=
      Channel.source_primed hs
    have hr' := hr.push hf
    rw [Option.getD_none, List.append_nil] at hr'
    refine (ih rfl hr' (Channel.source_grant 1 hs') (by simpa using hc)).congr ?_ ?_
    · rw [Channel.queue_grant 1 hs', hq]
      simp
    · exact (Channel.terminal_grant 1 hs').trans (Channel.terminal_primed hs)
  | refused _ _ =>
    rintro now fed rfl _ _ _
    exact .failed rfl
  | closed hq hte =>
    rintro now fed rfl hr hs hc
    rw [Channel.queue_primed hs] at hq
    rw [Channel.terminal_primed hs] at hte
    exact readsOn_close hr _ _ hq hte _
  | waits _ _ =>
    rintro now fed rfl hr hs hc
    refine .on (.inr ⟨rfl, rfl⟩) (by rwa [List.append_nil]) ?_ ?_ ?_ ?_
    · simp [Channel.queue_primed hs]
    · exact Channel.source_primed hs
    · simpa using hc
    · exact Channel.terminal_primed hs

theorem readsOn_poll (hr : Relays fs fed out now) (hs : ch.source = none)
    (hc : ch.cancelled = false) (auto : Bool) (cells : Cells) :
    ReadsOn fs fed out ch (poll auto ⟨now, false⟩ ch cells) := by
  obtain ⟨hd, _⟩ | ⟨_, _, hp⟩ | ⟨_, hl⟩ := poll_cases auto ⟨now, false⟩ ch cells
  · cases hd
  · rw [hp]
    exact .on (.inr ⟨rfl, rfl⟩) (by rwa [List.append_nil]) rfl hs hc rfl
  · exact (readsOn_looks hl rfl hr hs hc).congr rfl rfl

end Subscription

/-! ## The handler's steps -/

namespace Streaming

open Handler
open Courier.Filter (Relays)

variable {κ η α : Type} {h : Handler η α} {k : Collector h} {fs now : List Filter}
  {s s' : Streaming κ} {state : η} {chunks : List Bytes}
  {read : Option (Except Error (Option Bytes))}

theorem stepHandler_told {result : Except Error Unit} (hv : s.verdict = some result)
    (cells : Cells) : s.stepHandler h state cells = (s, state, cells) := by
  simp only [stepHandler, hv]

theorem stepHandler_finish {result : Except Error Unit} (hv : s.verdict = none)
    (hm : h.move state = .finish result) (cells : Cells) :
    s.stepHandler h state cells =
      ({ s.withBody (s.tap.drop s.body) with tap := .gone, verdict := some result }, state,
        cells) := by
  simp only [stepHandler, hv, hm]

theorem stepHandler_move {m : Handler.Move} (hv : s.verdict = none) (hr : s.replacement = none)
    (hm : h.move state = m) (hf : ∀ result, m ≠ .finish result) (cells : Cells) :
    let out := s.tap.apply m s.channel cells
    s.stepHandler h state cells =
      ({ s with channel := out.channel, tap := out.tap },
        (out.report.map (h.observe · state)).getD state, out.cells) := by
  cases m with
  | finish result => exact absurd rfl (hf result)
  | _ => simp [stepHandler, hv, hm, body, withBody, hr]

@[simp] theorem pump_withBody (ch : Channel) : (s.withBody ch).pump = s.pump := by
  unfold withBody
  split <;> rfl

/-- The handler has the body, and neither has let go of it nor said how it ended. -/
structure Open (s : Streaming κ) : Prop extends s.Wired where
  verdict : s.verdict = none
  cancelled : s.channel.cancelled = false

/-- How far a handler has got with a body that comes to it through these filters, and of which
these chunks have been read. -/
inductive Gathering (k : Collector h) (fs : List Filter) (s : Streaming κ) (state : η)
    (chunks : List Bytes) : Prop

  | opening {o : Outlet} (ho : s.Open) (hg : k.stage state = .opening) (hb : k.gathered state = [])
      (ht : s.tap = ⟨some o, none⟩) (hf : o.filters = fs) (hs : s.channel.subscribed = false)
      (hd : chunks = s.ahead)

  | reading {fed : List Bytes} {now : List Filter} (ho : s.Open) (hg : k.stage state = .reading)
      (ht : s.tap.subscription = some ⟨now, false⟩) (hr : Relays fs fed (k.gathered state) now)
      (hd : chunks = fed ++ s.ahead)

  | complete {now : List Filter} {cells : Cells} (hv : s.verdict = none ∨ s.verdict = some (.ok ()))
      (hg : k.stage state = .ended (.ok ())) (hp : s.pump = .ended (.ok .drained))
      (hr : Relays fs chunks (k.gathered state) now)
      (hc : (Filter.completeAll now cells).1 = .ok ())

  | failed {e : Error} (hv : s.verdict = some (.error e) ∨
      s.verdict = none ∧ k.stage state = .ended (.error e))

theorem gathering_start {ω : Type} (net : Network ω κ) (now limit : Nat) (l : Lease κ) (w : ω)
    (o : Outlet) (declared : Option Nat) (hs : k.fresh state) :
    Gathering k o.filters (start net now limit l (.wire o) w) (h.openBody declared state) [] := by
  obtain ⟨hg, hb⟩ := k.opens declared state hs
  exact .opening ⟨⟨rfl, rfl, nofun, fun _ => rfl⟩, rfl, rfl⟩ hg hb rfl rfl rfl rfl

theorem Gathering.withTurn (hc : Gathering k fs s state chunks) (p : Party) :
    Gathering k fs { s with turn := p } state chunks := by
  cases hc with
  | opening ho hg hb ht hf hs hd =>
    exact .opening ⟨⟨ho.replacement, ho.source, ho.completed, ho.unended⟩, ho.verdict, ho.cancelled⟩
      hg hb ht hf hs hd
  | reading ho hg ht hr hd =>
    exact .reading ⟨⟨ho.replacement, ho.source, ho.completed, ho.unended⟩, ho.verdict, ho.cancelled⟩
      hg ht hr hd
  | complete hv hg hp hr hc => exact .complete hv hg hp hr hc
  | failed hv => exact .failed hv

theorem Open.moved (ho : s.Open) (hm : Moved s s' read) : s'.Open :=
  ⟨hm.wired ho.toWired, hm.verdict.trans ho.verdict, hm.cancelled.trans ho.cancelled⟩

theorem Gathering.moved (hc : Gathering k fs s state chunks) (hm : Moved s s' read) :
    Gathering k fs s' state (chunks ++ chunksOf read) := by
  cases hc with
  | opening ho hg hb ht hf hs hd =>
    refine .opening (ho.moved hm) hg hb (hm.tap.trans ht) hf (hm.subscribed.trans hs) ?_
    rw [hd, hm.ahead ho.cancelled]
  | reading ho hg ht hr hd =>
    refine .reading (ho.moved hm) hg (hm.tap ▸ ht) hr ?_
    rw [hd, hm.ahead ho.cancelled, List.append_assoc]
  | complete hv hg hp hr hc =>
    have he : s.pump.isEnded = true := by
      rw [hp]
      rfl
    obtain ⟨rfl, rfl⟩ := hm.ended he
    exact .complete hv hg hp ((List.append_nil chunks).symm ▸ hr) hc
  | failed hv => exact .failed (hm.verdict ▸ hv)

theorem Open.withChannel {ch : Channel} (ho : s.Open) (t : Tap) (hs : ch.source = none)
    (hc : ch.cancelled = false) (hte : ch.terminal = s.channel.terminal) :
    ({ s with channel := ch, tap := t } : Streaming κ).Open :=
  ⟨⟨ho.replacement, hs, fun hcomp => ho.completed (hte.symm.trans hcomp),
    fun hn => hte.trans (ho.unended hn)⟩, ho.verdict, hc⟩

theorem gathering_read {fed : List Bytes} (ho : s.Open) (hg : k.stage state = .reading)
    (ht : s.tap.subscription = some ⟨now, false⟩) (hr : Relays fs fed (k.gathered state) now)
    (hd : chunks = fed ++ s.ahead) (auto : Bool) (cells : Cells) :
    let out := s.tap.read auto s.channel cells
    Gathering k fs { s with channel := out.channel, tap := out.tap }
      ((out.report.map (h.observe · state)).getD state) chunks := by
  have hread := Subscription.readsOn_poll hr ho.source ho.cancelled auto cells
  simp only [Tap.read, ht]
  generalize Subscription.poll auto ⟨now, false⟩ s.channel cells = p at hread
  cases hread with
  | @on now' fed' bytes outcome ch' cells' hout hr' hq hs hc hte =>
    have hd' : chunks = fed' ++ (ch'.queue ++ s.inHand) := by
      rw [hd, Streaming.ahead, ← List.append_assoc, ← List.append_assoc, hq]
    rcases hout with rfl | ⟨rfl, rfl⟩
    · obtain ⟨hg', hb'⟩ := k.observe_chunk bytes state hg
      exact .reading (ho.withChannel _ hs hc hte) hg' rfl (hb' ▸ hr') hd'
    · rw [List.append_nil] at hr'
      exact .reading (ho.withChannel _ hs hc hte) hg rfl hr' hd'
  | @failed _ e hout =>
    simp only [hout, Tap.reported, Option.map_some, Option.getD_some]
    exact .failed (.inr ⟨ho.verdict, k.observe_error e state hg⟩)
  | @finished _ now' cells' hout hte hr' hc =>
    simp only [hout, Tap.reported, Option.map_some, Option.getD_some]
    obtain ⟨hg', hb'⟩ := k.observe_end state hg
    have hp := ho.completed hte
    have hall : chunks = fed ++ s.channel.queue := by
      simp [hd, Streaming.ahead, inHand, hp]
    exact .complete (.inl ho.verdict) hg' hp (by rwa [hb', hall]) hc

theorem gathering_subscribe {o : Outlet} (ho : s.Open) (hg : k.stage state = .opening)
    (hb : k.gathered state = []) (hf : o.filters = fs) (hs : s.channel.subscribed = false)
    (hd : chunks = s.ahead) (cells : Cells) :
    let out := Tap.apply ⟨some o, none⟩ .subscribe s.channel cells
    Gathering k fs { s with channel := out.channel, tap := out.tap }
      ((out.report.map (h.observe · state)).getD state) chunks := by
  obtain ⟨hg', hb'⟩ := k.observe_subscribed state hg
  have hr : Relays fs [] (k.gathered (h.observe (.subscribed (.ok ())) state)) fs := by
    rw [hb', hb]
    exact Filter.relays_nil fs
  simp only [Tap.apply, Outlet.subscribe, Channel.subscribe, hs, Bool.false_eq_true, if_false, hf]
  exact .reading (ho.withChannel _ ho.source ho.cancelled rfl) hg' rfl hr hd

theorem gathering_request {fed : List Bytes} (ho : s.Open) (hg : k.stage state = .reading)
    (ht : s.tap.subscription = some ⟨now, false⟩) (hr : Relays fs fed (k.gathered state) now)
    (hd : chunks = fed ++ s.ahead) (m : Nat) (cells : Cells) :
    let out := s.tap.apply (.request m) s.channel cells
    Gathering k fs { s with channel := out.channel, tap := out.tap }
      ((out.report.map (h.observe · state)).getD state) chunks := by
  obtain ⟨hg', hb'⟩ := k.observe_done state hg
  have hch : (s.tap.subscription.map (·.request m s.channel)).getD s.channel =
      s.channel.grant m := by
    simp [ht, Subscription.request]
  have hc : (s.channel.grant m).cancelled = false := by
    rw [Channel.cancelled_grant]
    exact ho.cancelled
  simp only [Tap.apply, hch, Option.map_some, Option.getD_some]
  refine .reading (ho.withChannel _ (Channel.source_grant m ho.source) hc
    (Channel.terminal_grant m ho.source)) hg' ht (hb' ▸ hr) ?_
  rw [hd, Streaming.ahead, Streaming.ahead, Channel.queue_grant m ho.source]
  rfl

theorem Gathering.handled (hc : Gathering k fs s state chunks) (cells : Cells) :
    Gathering k fs (s.stepHandler h state cells).1 (s.stepHandler h state cells).2.1 chunks := by
  cases hc with
  | opening ho hg hb ht hf hs hd =>
    rw [stepHandler_move ho.verdict ho.replacement (k.subscribes state hg) (fun _ => nofun), ht]
    exact gathering_subscribe ho hg hb hf hs hd cells
  | reading ho hg ht hr hd =>
    rcases k.reads state hg with hm | hm | ⟨m, hm⟩
    all_goals rw [stepHandler_move ho.verdict ho.replacement hm (fun _ => nofun)]
    · exact gathering_read ho hg ht hr hd true cells
    · exact gathering_read ho hg ht hr hd false cells
    · exact gathering_request ho hg ht hr hd m cells
  | complete hv hg hp hr hc =>
    rcases hv with hv | hv
    · rw [stepHandler_finish hv (k.finishes state _ hg)]
      refine .complete (.inr rfl) hg ?_ hr hc
      rw [← hp]
      exact pump_withBody _
    · rw [stepHandler_told hv]
      exact .complete (.inr hv) hg hp hr hc
  | @failed e hv =>
    rcases hv with hv | ⟨hv, hg⟩
    · rw [stepHandler_told hv]
      exact .failed (.inl hv)
    · rw [stepHandler_finish hv (k.finishes state _ hg)]
      exact .failed (.inl rfl)

/-- A body that has come to a good end has been read to the end, and what has been gathered is all
that the filters made of it, with none of them objecting. -/
theorem Gathering.outcome (hc : Gathering k fs s state chunks) {e : BodyEnd}
    (ho : s.outcome? = some (.ok e)) :
    k.stage state = .ended (.ok ()) ∧ s.pump = .ended (.ok .drained) ∧
      ∃ now cells, Relays fs chunks (k.gathered state) now ∧
        (Filter.completeAll now cells).1 = .ok () := by
  have hv : ∃ r, s.verdict = some r ∧ ∀ e', r ≠ .error e' := by
    unfold outcome? at ho
    split at ho <;> simp_all
  obtain ⟨r, hv, hr⟩ := hv
  cases hc with
  | opening hop _ _ _ _ _ _ => cases hv.symm.trans hop.verdict
  | reading hop _ _ _ _ => cases hv.symm.trans hop.verdict
  | complete _ hg hp hr hc => exact ⟨hg, hp, _, _, hr, hc⟩
  | @failed e hf =>
    rcases hf with hf | ⟨hf, _⟩
    · exact absurd (Option.some.inj (hv.symm.trans hf)) (hr e)
    · cases hv.symm.trans hf

end Streaming

end Courier
