import Courier.Proofs.Stream.Duct

/-! # Demand is conserved

What a consumer asks for is still outstanding, in the queue, or has been answered with a chunk. A
chunk that a filter withholds is made good by another unit of demand, so it is not counted.
-/

namespace Courier

namespace Channel

variable {ch ch' ch'' : Channel}

/-- The second channel comes from the first with so many units asked for and replaced, so many
chunks sent by a producer and so many returned. A cancel throws chunks away, and demand stops at
its greatest value; otherwise the account is exact. -/
structure Accounted (ch ch' : Channel) (asked replaced sent returned : Nat) : Prop where
  cancelled : ch.cancelled = true → ch'.cancelled = true
  load_le : ch'.load + returned ≤ ch.load + asked
  load_eq : ch'.cancelled = false → ch.load + asked < wordSize 64 →
    ch'.load + returned = ch.load + asked
  demand_le : ch'.demand + sent + ch.unmoved.length ≤
    ch.demand + asked + replaced + ch'.unmoved.length

namespace Accounted

theorem same (hc : ch'.cancelled = ch.cancelled) (hd : ch'.demand = ch.demand)
    (hq : ch'.queue = ch.queue) (hs : ch'.source = ch.source) : Accounted ch ch' 0 0 0 0 where
  cancelled h := hc.trans h
  load_le := by simp [load, hd, hq]
  load_eq _ _ := by simp [load, hd, hq]
  demand_le := by simp [unmoved, hd, hs]

theorem refl (ch : Channel) : Accounted ch ch 0 0 0 0 := same rfl rfl rfl rfl

theorem trans {a r s n a' r' s' n' : Nat} (h : Accounted ch ch' a r s n)
    (h' : Accounted ch' ch'' a' r' s' n') :
    Accounted ch ch'' (a + a') (r + r') (s + s') (n + n') where
  cancelled hc := h'.cancelled (h.cancelled hc)
  load_le := by
    have := h.load_le
    have := h'.load_le
    omega
  load_eq hc hw := by
    have hc' : ch'.cancelled = false := by
      cases hx : ch'.cancelled with
      | false => rfl
      | true => exact absurd (h'.cancelled hx) (by simp [hc])
    have hl := h.load_eq hc' (by omega)
    have hl' := h'.load_eq hc (by omega)
    omega
  demand_le := by
    have := h.demand_le
    have := h'.demand_le
    omega

theorem grant (ch : Channel) (n : Nat) : Accounted ch (ch.grant n) n 0 0 0 where
  cancelled h := by simpa using h
  load_le := load_grant_le ch n
  load_eq hc hw := by
    refine load_grant (by simpa using hc) ?_
    simp only [load, maxDemand] at hw ⊢
    omega
  demand_le := demand_grant_le ch n

theorem cancel (ch : Channel) : Accounted ch ch.cancel 0 0 0 0 where
  cancelled _ := cancelled_cancel ch
  load_le := load_cancel_le ch
  load_eq hc := by simp at hc
  demand_le := by simpa using demand_cancel_le ch

theorem primed (auto : Bool) (ch : Channel) :
    Accounted ch (ch.primed auto) (ch.ownGrant auto) 0 0 0 where
  cancelled h := by simpa using h
  load_le := Nat.le_of_eq (load_primed auto ch)
  load_eq _ _ := load_primed auto ch
  demand_le := Nat.le_of_eq (by simpa using demand_primed auto ch)

theorem pop {chunk : Bytes} {rest : List Bytes} (hq : ch.queue = chunk :: rest) :
    Accounted ch { ch with queue := rest } 0 0 0 1 where
  cancelled h := h
  load_le := by simp [load, hq, Nat.add_assoc]
  load_eq _ _ := by simp [load, hq, Nat.add_assoc]
  demand_le := by simp [unmoved]

/-- The unit granted for a chunk withheld takes the place of the one spent on it. -/
theorem withhold {chunk : Bytes} {rest : List Bytes} (hq : ch.queue = chunk :: rest) :
    Accounted ch (Channel.grant { ch with queue := rest } 1) 0 1 0 0 := by
  have hl : ch.load = ({ ch with queue := rest } : Channel).load + 1 := by
    simp [load, hq, Nat.add_assoc]
  have hg := grant { ch with queue := rest } 1
  constructor
  · exact hg.cancelled
  · rw [hl]
    exact hg.load_le
  · intro hc hw
    rw [hl] at hw ⊢
    exact hg.load_eq hc hw
  · exact hg.demand_le

theorem refuse {chunk : Bytes} {rest : List Bytes} (hq : ch.queue = chunk :: rest) :
    Accounted ch (Channel.cancel { ch with queue := rest }) 0 0 0 0 := by
  have h := (pop hq).trans (cancel { ch with queue := rest })
  exact ⟨h.cancelled, Nat.le_of_succ_le h.load_le, fun hc => by simp at hc, h.demand_le⟩

end Accounted

end Channel

namespace Rehearsal.Duct

open Channel

variable {d₀ d d' : Duct} {e : Event} {t : List Event}

theorem accounted_sends {ch : Channel} {chunk : Bytes}
    {r : Option (Except Error Unit) × Channel} (h : Sends ch chunk r) :
    Accounted ch r.2 0 0 (Event.accepted? (.sent chunk r.1)).toList.length 0 := by
  cases h with
  | asleep _ => exact .refl ch
  | empty hn =>
    rw [hn]
    exact .same rfl rfl rfl rfl
  | refused _ _ => exact .same rfl rfl rfl rfl
  | accepted hn _ hd =>
    simp only [Event.accepted?, if_neg hn]
    constructor
    · exact id
    · simp only [load, List.length_append, List.length_singleton]
      omega
    · intro _ _
      simp only [load, List.length_append, List.length_singleton]
      omega
    · simp only [unmoved, Option.toList, List.length_singleton]
      omega
  | suspended _ _ _ => exact .same rfl rfl rfl rfl

/-- By induction on the looks: each takes a chunk off, and grants again for one withheld. -/
theorem accounted_looks {auto : Bool} {cells : Cells} {s : Subscription} {ch : Channel}
    {g : Grants} {p : Pull} (h : Subscription.Looks auto cells s ch g p) :
    Accounted ch p.channel g.own g.replaced 0 p.outcome.chunk?.toList.length := by
  induction h with
  | spent => exact .refl _
  | taken hq _ => exact (Accounted.primed auto _).trans (.pop hq)
  | withheld hq _ _ ih =>
    have hw := ((Accounted.primed auto _).trans (.withhold hq)).trans ih
    simpa using hw
  | refused hq _ => exact (Accounted.primed auto _).trans (.refuse hq)
  | @closed s ch e _ _ =>
    rw [s.channel_close, s.chunk?_close]
    refine (Accounted.primed auto ch).trans (.same ?_ ?_ ?_ ?_) <;> rfl
  | @waits s ch _ _ => refine (Accounted.primed auto ch).trans (.same ?_ ?_ ?_ ?_) <;> rfl

/-! ## Steps -/

/-- A step from one state to another that shows this event. -/
def Accounts (d : Duct) (e : Event) (d' : Duct) : Prop :=
  Accounted d.channel d'.channel (e.requestedUnits + e.ownUnits) e.replacedUnits
    e.accepted?.toList.length e.returned?.toList.length

theorem accounts_dropProducer (d : Duct) :
    Accounts d (.ended (.failed droppedProducer)) d.dropProducer := by
  unfold Accounts Duct.dropProducer
  cases d.producer with
  | gone => exact .refl _
  | idle => exact .same rfl rfl rfl rfl
  | sending _ => exact .same rfl rfl rfl rfl

theorem accounts_watch (d : Duct) : Accounts d .quiet d.watchCancelled.2 := by
  obtain ⟨w, _, he⟩ := watch_cases d
  rw [he]
  exact .same rfl rfl rfl rfl

theorem accounted_drop (s : Subscription) (ch : Channel) :
    Accounted ch (s.drop ch) 0 0 0 0 := by
  unfold Subscription.drop Subscription.cancel
  cases s.done with
  | true => exact .same rfl rfl rfl rfl
  | false =>
    have hl : Accounted ch { ch with consumer := ch.consumer.leave } 0 0 0 0 :=
      .same rfl rfl rfl rfl
    exact hl.trans (.cancel _)

theorem accounts_subscribe (d : Duct) (o : Outlet) : Accounts d .quiet (d.subscribe o).2 := by
  unfold Accounts Duct.subscribe Outlet.subscribe Channel.subscribe
  cases d.channel.subscribed with
  | true => exact .refl _
  | false =>
    have hs : Accounted d.channel { d.channel with subscribed := true } 0 0 0 0 :=
      .same rfl rfl rfl rfl
    cases d.subscription with
    | none => exact hs
    | some s => exact hs.trans (accounted_drop s _)

theorem accounts_dropOutlet (d : Duct) (o : Outlet) :
    Accounts d (if o.attached then .quiet else .cancelled) (d.dropOutlet o) := by
  unfold Accounts Duct.dropOutlet Outlet.drop
  cases o.attached with
  | true => exact .refl _
  | false => exact .cancel _

theorem accounts_request (d : Duct) (s : Subscription) (n : Nat) :
    Accounts d (.requested (!s.done) n) (d.request s n) := by
  unfold Accounts Duct.request Subscription.request
  cases s.done with
  | true => exact .refl _
  | false => exact .grant _ n

theorem accounts_cancel (d : Duct) (s : Subscription) : Accounts d .cancelled (d.cancel s) := by
  unfold Accounts Duct.cancel Subscription.cancel
  cases s.done with
  | true => exact .refl _
  | false => exact .cancel _

theorem accounts_look (d : Duct) (s : Subscription) (auto : Bool) :
    Accounts d (.polled auto (d.look s auto).1 (s.pollGrants auto d.channel))
      (d.look s auto).2 := by
  unfold Accounts Duct.look
  obtain ⟨_, hg, hp⟩ | ⟨_, hg, hp⟩ | ⟨_, hl⟩ :=
    Subscription.poll_cases auto s d.channel d.cells
  · rw [hp, hg]
    exact .refl _
  · rw [hp, hg]
    exact .refl _
  · have hr : Accounted d.channel { d.channel with consumer := d.channel.consumer.resume }
        0 0 0 0 := .same rfl rfl rfl rfl
    have ha := hr.trans (accounted_looks hl)
    simpa [Event.requestedUnits, Event.ownUnits, Event.replacedUnits, Event.accepted?,
      Event.returned?] using ha

theorem Step.accounts (h : Step d e d') : Accounts d e d' := by
  cases h with
  | @send chunk hp =>
    obtain ⟨r, hr, h1, p, _, h2⟩ := send_cases d chunk
    unfold Accounts
    rw [h1, h2]
    exact accounted_sends hr
  | giveUp _ => exact .same rfl rfl rfl rfl
  | watch _ => exact accounts_watch d
  | complete _ => exact .same rfl rfl rfl rfl
  | fail _ _ => exact .same rfl rfl rfl rfl
  | dropProducer _ => exact accounts_dropProducer d
  | subscribe _ => exact accounts_subscribe d _
  | dropOutlet _ => exact accounts_dropOutlet d _
  | request n _ => exact accounts_request d _ n
  | look auto _ => exact accounts_look d _ auto
  | leave _ => exact .same rfl rfl rfl rfl
  | cancel _ => exact accounts_cancel d _
  | dropSubscription _ => exact accounted_drop _ _

/-! ## Runs -/

theorem Run.accounted (h : Run d₀ t d) :
    Accounted d₀.channel d.channel (requestedUnits t + ownUnits t) (replacedUnits t)
      (accepted t).length (returned t).length := by
  induction h with
  | nil => exact .refl _
  | snoc _ hs ih =>
    have ha := ih.trans hs.accounts
    simp only [requestedUnits_snoc, ownUnits_snoc, replacedUnits_snoc, accepted_snoc,
      returned_snoc, List.length_append]
    rwa [Nat.add_add_add_comm] at ha

theorem own_looks {cells : Cells} {s : Subscription} {ch : Channel} {g : Grants} {p : Pull}
    (h : Subscription.Looks false cells s ch g p) : g.own = 0 := by
  induction h with
  | withheld _ _ _ ih => simp [ownGrant, ih]
  | _ => rfl

theorem own_pollGrants (s : Subscription) (ch : Channel) : (s.pollGrants false ch).own = 0 := by
  obtain ⟨_, hg, _⟩ | ⟨_, hg, _⟩ | ⟨_, hl⟩ := Subscription.poll_cases false s ch default
  · rw [hg, Grants.own_none]
  · rw [hg, Grants.own_none]
  · exact own_looks hl

theorem Step.ownUnits (h : Step d e d') (hp : e.isPull = false) : e.ownUnits = 0 := by
  cases h with
  | look auto _ =>
    cases auto with
    | false => exact own_pollGrants _ _
    | true => cases hp
  | @dropOutlet o _ => cases o.attached <;> rfl
  | _ => rfl

theorem Run.ownUnits (h : Run d₀ t d) (hp : ∀ e ∈ t, e.isPull = false) : ownUnits t = 0 := by
  induction h with
  | nil => rfl
  | @snoc t d d' e _ hs ih =>
    have hlast := hs.ownUnits (hp e (by simp))
    rw [ownUnits_snoc, ih fun e he => hp e (List.mem_append_left _ he), hlast]

inductive Fresh : Duct → Prop

  | piped (filters : List Filter) (cells : Cells) : Fresh (piped filters cells)

  | poured (chunks : List Bytes) (filters : List Filter) (cells : Cells) :
      Fresh (poured chunks filters cells)

theorem Fresh.load (h : Fresh d₀) : d₀.channel.load = 0 := by
  cases h with
  | piped filters cells => rfl
  | poured chunks filters cells => exact load_drainSource _

/-- The units asked for are outstanding, in the queue or answered, unless the stream has been
cancelled or the demand has reached its greatest value. So the chunks sent, or moved from memory,
never outnumber the units granted, and without a pull the chunks returned never outnumber the units
asked for. -/
theorem demand_conserved (h₀ : Fresh d₀) (h : Run d₀ t d) :
    (d.channel.cancelled = false → requestedUnits t + ownUnits t < wordSize 64 →
      requestedUnits t + ownUnits t =
        d.channel.demand + d.channel.queue.length + (returned t).length) ∧
    d.channel.demand + (accepted t).length + d₀.channel.unmoved.length ≤
      requestedUnits t + ownUnits t + replacedUnits t + d.channel.unmoved.length ∧
    ((∀ e ∈ t, e.isPull = false) → (returned t).length ≤ requestedUnits t) := by
  have ha := h.accounted
  have hl := h₀.load
  have hd : d₀.channel.demand = 0 := by
    simp only [load] at hl
    omega
  refine ⟨fun hc hw => ?_, ?_, fun hp => ?_⟩
  · have he := ha.load_eq hc (by omega)
    simp only [load] at he hl
    omega
  · have := ha.demand_le
    omega
  · have := ha.load_le
    have := h.ownUnits hp
    omega

/-- Chunks with an even number of bytes are withheld. -/
def oddOnly : Filter :=
  .ofRule ⟨"odd-only", fun _ chunk => .ok (if chunk.length % 2 = 1 then some chunk else none),
    fun _ => .ok ()⟩

theorem demand_conserved_past_withheld :
    let d₀ := poured [[1, 2], [3]] [oddOnly] default
    let t := [.quiet, .requested true 1, .polled false (.chunk [3]) ⟨0, 1⟩]
    Fresh d₀ ∧ (∀ e ∈ t, e.isPull = false) ∧ ∃ d, Run d₀ t d ∧
      1 = d.channel.demand + d.channel.queue.length + 1 ∧
      d.channel.demand + 0 + 2 ≤ 1 + 0 + 1 + d.channel.unmoved.length ∧
      (returned t).length ≤ 1 := by
  have h₀ : Fresh (poured [[1, 2], [3]] [oddOnly] default) := .poured _ _ _
  have hn : Run (poured [[1, 2], [3]] [oddOnly] default) [] _ := .nil
  have hr := hn |>.snoc (.subscribe rfl) |>.snoc (.request 1 rfl) |>.snoc (.look false rfl)
  have hp : ∀ e ∈ [Event.quiet, .requested true 1, .polled false (.chunk [3]) ⟨0, 1⟩],
      e.isPull = false := by simp [Event.isPull]
  obtain ⟨h1, h2, h3⟩ := demand_conserved h₀ hr
  exact ⟨h₀, hp, _, hr, h1 rfl (by decide), h2, h3 hp⟩

end Rehearsal.Duct

end Courier
