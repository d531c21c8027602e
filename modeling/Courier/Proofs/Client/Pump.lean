import Courier.Client.Streaming
import Courier.Proofs.Stream.Channel

/-! # What a step of the pump does

The pump is the producer of the body's channel. Whatever it does, it leaves the handler's part of
the stream alone, keeps the bytes it has read in order, and tells the end once.
-/

namespace Courier.Streaming

open Channel

variable {ω κ : Type} {net : Network ω κ} {now limit : Nat} {s s' : Streaming κ} {w : ω}

/-- The ways a step of the pump can go. -/
inductive Pumps (net : Network ω κ) (now limit : Nat) (s : Streaming κ) (w : ω) :
    Option (Except Error (Option Bytes)) × Streaming κ × ω → Prop

  | ended (hp : s.pump.isEnded = true) : Pumps net now limit s w (none, s, w)

  | waits {chunk : Bytes} {ch : Channel} (hp : s.pump = .sending chunk)
      (hs : Sends s.channel chunk (none, ch)) :
      Pumps net now limit s w (none, { s with channel := ch }, w)

  | sent {chunk : Bytes} {ch : Channel} (hp : s.pump = .sending chunk)
      (hs : Sends s.channel chunk (some (.ok ()), ch)) :
      Pumps net now limit s w (none, { s with
        channel := ch
        pump := .reading (.start now (net.chunkDelay s.lease.connection w) limit) }, w)

  | refused {chunk : Bytes} {ch : Channel} {e : Error} (hp : s.pump = .sending chunk)
      (hs : Sends s.channel chunk (some (.error e), ch)) :
      Pumps net now limit s w (none, s.stop ch.dropProducer (.ok .abandoned), w)

  | cut {wait : Wait} {k : Wake} (hp : s.pump = .reading wait)
      (hc : s.channel.cancelled = true) :
      Pumps net now limit s w
        (none, s.stop ({ s.channel with producer := k } : Channel).dropProducer (.ok .abandoned), w)

  | idle {wait : Wait} {k : Wake} (hp : s.pump = .reading wait)
      (hw : wait.status now = .pending) :
      Pumps net now limit s w (none, { s with channel := { s.channel with producer := k } }, w)

  | expired {wait : Wait} {k : Wake} (hp : s.pump = .reading wait)
      (hw : wait.status now = .expired) :
      Pumps net now limit s w
        (none, s.stop
          (({ s.channel with producer := k } : Channel).fail (.socketTimeout limit duringBody))
          (.error (.socketTimeout limit duringBody)), w)

  | read {wait : Wait} {k : Wake} {result : Except Error (Option Bytes)}
      {s' : Streaming κ} {w' : ω} (hp : s.pump = .reading wait) (hw : wait.status now = .ready)
      (hr : readChunk net { s with channel := { s.channel with producer := k } } w =
        (result, s', w')) :
      Pumps net now limit s w (some result, s', w')

theorem pumps_stepPump (net : Network ω κ) (now limit : Nat) (s : Streaming κ) (w : ω) :
    Pumps net now limit s w (s.stepPump net now limit w) := by
  unfold stepPump
  split
  · rename_i hp
    refine .ended ?_
    rw [hp]
    rfl
  · rename_i chunk hp
    have hs := sends_send s.channel chunk
    split
    · rename_i he
      rw [he] at hs
      exact .waits hp hs
    · rename_i he
      rw [he] at hs
      exact .sent hp hs
    · rename_i he
      rw [he] at hs
      exact .refused hp hs
  · rename_i wait hp
    obtain ⟨k, hk, hc⟩ := s.channel.watchCancelled_cases
    split
    · rename_i he
      rw [he] at hk hc
      dsimp only at hk
      subst hk
      exact .cut hp (hc rfl)
    · rename_i he
      rw [he] at hk
      dsimp only at hk
      subst hk
      split
      · exact .idle hp ‹_›
      · exact .expired hp ‹_›
      · exact .read hp ‹_› rfl

/-- A chunk that has been read and not been sent. Empty ones do not count: they are never queued. -/
def inHand (s : Streaming κ) : List Bytes :=
  match s.pump with
  | .sending chunk => [chunk].filter (!·.isEmpty)
  | _ => []

/-- Chunks that have been read and not been taken by the handler. -/
def ahead (s : Streaming κ) : List Bytes :=
  s.channel.queue ++ s.inHand

/-- The bytes that a step of the pump has read. -/
def bytesOf : Option (Except Error (Option Bytes)) → Bytes
  | some (.ok (some chunk)) => chunk
  | _ => []

/-- The same as chunks, of which an empty one does not count. -/
def chunksOf (read : Option (Except Error (Option Bytes))) : List Bytes :=
  [bytesOf read].filter (!·.isEmpty)

theorem flatten_chunksOf (read : Option (Except Error (Option Bytes))) :
    (chunksOf read).flatten = bytesOf read := by
  rw [chunksOf, List.flatten_filter_not_isEmpty, List.flatten_singleton]

/-- The body comes off the wire, and no end is told before the pump has come to it. -/
structure Wired (s : Streaming κ) : Prop where
  replacement : s.replacement = none
  source : s.channel.source = none
  completed : s.channel.terminal = some .completed → s.pump = .ended (.ok .drained)
  unended : s.pump.isEnded = false → s.channel.terminal = none

/-- The pump has moved and has read this. It drains a connection by reading the end of the body. -/
structure Moved (s s' : Streaming κ) (read : Option (Except Error (Option Bytes))) : Prop where
  tap : s'.tap = s.tap
  verdict : s'.verdict = s.verdict
  subscribed : s'.channel.subscribed = s.channel.subscribed
  cancelled : s'.channel.cancelled = s.channel.cancelled
  ahead : s.channel.cancelled = false → s'.ahead = s.ahead ++ chunksOf read
  wired : s.Wired → s'.Wired
  ended : s.pump.isEnded = true → s' = s ∧ read = none
  goes : s'.pump.isEnded = false → read = none ∨ ∃ chunk, read = some (.ok (some chunk))
  drained : s.pump.isEnded = false → s'.pump = .ended (.ok .drained) → read = some (.ok none)

theorem Moved.stop {l : Lease κ} {k : Wake} {e : Terminal} {result : Except Error BodyEnd}
    {read : Option (Except Error (Option Bytes))} (hp : s.pump.isEnded = false)
    (ha : s.channel.cancelled = false → s.inHand = []) (he : e = .completed → result = .ok .drained)
    (hr : bytesOf read = []) (hd : result = .ok .drained → read = some (.ok none)) :
    Moved s
      (({ s with lease := l } : Streaming κ).stop
        (({ s.channel with producer := k } : Channel).finish e) result) read where
  tap := rfl
  verdict := rfl
  subscribed := rfl
  cancelled := rfl
  ahead hc := by
    rw [chunksOf, hr, Streaming.ahead, Streaming.ahead, ha hc]
    simp [Streaming.stop, finish, inHand]
  wired hw := by
    refine ⟨hw.replacement, hw.source, fun hc => ?_, fun hn => nomatch hn⟩
    have hn := hw.unended hp
    simp only [Streaming.stop, finish, hn, Option.none_or, Option.some.injEq] at hc
    rw [Streaming.stop, he hc]
  ended hn := nomatch hp.symm.trans hn
  goes hn := nomatch hn
  drained _ hend := hd (Pump.ended.inj hend)

theorem Moved.keeps {l : Lease κ} {ch : Channel} {p : Pump}
    {read : Option (Except Error (Option Bytes))} (hp : s.pump.isEnded = false)
    (hp' : p.isEnded = false) (hsub : ch.subscribed = s.channel.subscribed)
    (hcan : ch.cancelled = s.channel.cancelled) (hsrc : ch.source = s.channel.source)
    (hter : ch.terminal = s.channel.terminal)
    (hr : read = none ∨ ∃ chunk, read = some (.ok (some chunk)))
    (ha : ({ s with lease := l, channel := ch, pump := p } : Streaming κ).ahead =
      s.ahead ++ chunksOf read) :
    Moved s { s with lease := l, channel := ch, pump := p } read where
  tap := rfl
  verdict := rfl
  subscribed := hsub
  cancelled := hcan
  ahead _ := ha
  wired hw := by
    have hn := hter.trans (hw.unended hp)
    exact ⟨hw.replacement, hsrc.trans hw.source, (fun hc => nomatch hn.symm.trans hc), fun _ => hn⟩
  ended hn := nomatch hp.symm.trans hn
  goes _ := hr
  drained _ hend := nomatch hp'.symm.trans (congrArg Pump.isEnded hend)

theorem isEnded_of_reading {wait : Wait} (hp : s.pump = .reading wait) :
    s.pump.isEnded = false := by
  rw [hp]
  rfl

theorem isEnded_of_sending {chunk : Bytes} (hp : s.pump = .sending chunk) :
    s.pump.isEnded = false := by
  rw [hp]
  rfl

theorem Moved.readChunk {k : Wake} {wait : Wait} {result : Except Error (Option Bytes)} {w' : ω}
    (hp : s.pump = .reading wait)
    (hr : Streaming.readChunk net { s with channel := { s.channel with producer := k } } w =
      (result, s', w')) : Moved s s' (some result) := by
  have hn := isEnded_of_reading hp
  have hh : s.inHand = [] := by simp [inHand, hp]
  unfold Streaming.readChunk at hr
  rcases hc : net.readChunk s.lease.connection w with ⟨e | _ | chunk, connection, w''⟩
  all_goals
    simp only [hc, Prod.mk.injEq] at hr
    obtain ⟨rfl, rfl, rfl⟩ := hr
  · exact .stop hn (fun _ => hh) nofun rfl nofun
  · exact .stop hn (fun _ => hh) (fun _ => rfl) rfl fun _ => rfl
  · refine .keeps hn rfl rfl rfl rfl rfl (.inr ⟨chunk, rfl⟩) ?_
    rw [Streaming.ahead, Streaming.ahead, hh, List.append_nil]
    rfl

theorem Pumps.moved {r : Option (Except Error (Option Bytes)) × Streaming κ × ω}
    (h : Pumps net now limit s w r) : Moved s r.2.1 r.1 := by
  have hnone : s.ahead = s.ahead ++ chunksOf none := (List.append_nil _).symm
  cases h with
  | ended hp =>
    exact ⟨rfl, rfl, rfl, rfl, fun _ => hnone, id, fun _ => ⟨rfl, rfl⟩, fun _ => .inl rfl,
      fun hn => nomatch hn.symm.trans hp⟩
  | waits hp hs =>
    have hn := isEnded_of_sending hp
    cases hs with
    | asleep _ => exact .keeps hn hn rfl rfl rfl rfl (.inl rfl) hnone
    | suspended _ _ _ => exact .keeps hn hn rfl rfl rfl rfl (.inl rfl) hnone
  | sent hp hs =>
    have hn := isEnded_of_sending hp
    cases hs with
    | empty he =>
      refine .keeps hn rfl rfl rfl rfl rfl (.inl rfl) ?_
      simp [Streaming.ahead, inHand, hp, he, chunksOf, bytesOf]
    | accepted he _ _ =>
      refine .keeps hn rfl rfl rfl rfl rfl (.inl rfl) ?_
      simp [Streaming.ahead, inHand, hp, he, chunksOf, bytesOf]
  | refused hp hs =>
    have hn := isEnded_of_sending hp
    cases hs with
    | refused _ hc => exact .stop hn (fun hc' => nomatch hc.symm.trans hc') nofun rfl nofun
  | cut hp hc =>
    have hn := isEnded_of_reading hp
    exact .stop hn (fun hc' => nomatch hc.symm.trans hc') nofun rfl nofun
  | idle hp _ =>
    have hn := isEnded_of_reading hp
    exact .keeps hn hn rfl rfl rfl rfl (.inl rfl) hnone
  | expired hp _ =>
    have hn := isEnded_of_reading hp
    exact .stop hn (fun _ => by simp [inHand, hp]) nofun rfl nofun
  | read hp _ hr => exact .readChunk hp hr

end Courier.Streaming
