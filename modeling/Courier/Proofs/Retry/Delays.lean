import Mathlib.Order.Bounds.Basic
import Mathlib.Order.Interval.Set.Basic
import Mathlib.Algebra.Order.Interval.Set.Monoid
import Mathlib.Tactic.Ring
import Courier.Retry.Backoff

/-! # The delays that generators bring about

A delay is drawn from a range that ends where the curve of doublings stands, within the limit. Every
number of the range is drawn by some generator and no other number by any, so what can be said of
all generators at once is said of the curve. Computed in words of 64 bits, the delay is the same: no
step on the way to it is without a result.
-/

namespace Courier

/-! ## Drawing -/

namespace Generator

theorem value_below_lt {bound : Nat} (hb : 0 < bound) (g : Generator) :
    (below bound g).value < bound := by
  induction g with
  | nil => exact hb
  | cons w rest ih =>
    unfold below
    dsimp only
    split
    · refine Nat.div_lt_of_lt_mul ?_
      exact Nat.mul_lt_mul_of_pos_right w.toNat_lt hb
    · exact ih

theorem pred_le_zone (bound : Nat) : bound - 1 ≤ zone bound :=
  Nat.sub_le_sub_right (Nat.le_mul_of_pos_right bound (Nat.pow_pos (by decide))) 1

/-- The least word whose product with the bound reaches the number is not passed over. -/
theorem exists_word {bound v : Nat} (hv : v < bound) (hb : bound ≤ wordSize 64) :
    ∃ w : UInt64, w.toNat * bound / wordSize 64 = v ∧
      w.toNat * bound % wordSize 64 ≤ zone bound := by
  have hpos : 0 < bound := Nat.zero_lt_of_lt hv
  obtain ⟨w, r, hr, hw⟩ : ∃ w r, r < bound ∧ w * bound = v * wordSize 64 + r := by
    refine ⟨(v * wordSize 64 + (bound - 1)) / bound,
      (bound - 1) - (v * wordSize 64 + (bound - 1)) % bound, by omega, ?_⟩
    have hmod := Nat.mod_lt (v * wordSize 64 + (bound - 1)) hpos
    have hdiv := Nat.div_add_mod' (v * wordSize 64 + (bound - 1)) bound
    omega
  have hlast : v * wordSize 64 + wordSize 64 ≤ bound * wordSize 64 := by
    rw [← Nat.succ_mul]
    exact Nat.mul_le_mul_right _ hv
  have hlt : w < wordSize 64 := by
    refine Nat.lt_of_mul_lt_mul_right (a := bound) ?_
    rw [hw, Nat.mul_comm (wordSize 64)]
    omega
  refine ⟨UInt64.ofNat w, ?_⟩
  rw [UInt64.toNat_ofNat_of_lt' hlt, hw]
  have hrest : r < wordSize 64 := Nat.lt_of_lt_of_le hr hb
  constructor
  · rw [Nat.mul_comm, Nat.mul_add_div (wordSize_pos 64), Nat.div_eq_of_lt hrest, Nat.add_zero]
  · rw [Nat.mul_comm, Nat.mul_add_mod, Nat.mod_eq_of_lt hrest]
    exact Nat.le_trans (Nat.le_sub_one_of_lt hr) (pred_le_zone bound)

theorem range_below {bound : Nat} (hpos : 0 < bound) (hb : bound ≤ wordSize 64) :
    Set.range (fun g => (below bound g).value) = Set.Ico 0 bound := by
  ext v
  constructor
  · rintro ⟨g, rfl⟩
    exact ⟨Nat.zero_le _, value_below_lt hpos g⟩
  · rintro ⟨-, hv⟩
    obtain ⟨w, hdiv, hmod⟩ := exists_word hv hb
    refine ⟨[w], ?_⟩
    simp only [below, if_pos hmod, hdiv]

end Generator

/-! ## Words of 64 bits

An operation has no result where the machine has none. -/

namespace Words

/-- A word moved up by so many bits, fewer than it has. -/
def shift? (w : UInt64) (bits : Nat) : Option UInt64 :=
  if bits < 64 then some (w <<< UInt64.ofNat bits) else none

def add? (a b : UInt64) : Option UInt64 :=
  if a.toNat + b.toNat < wordSize 64 then some (a + b) else none

/-- The product, or the largest word if there is no room for it. -/
def mulCapped (a b : UInt64) : UInt64 :=
  if a.toNat * b.toNat < wordSize 64 then a * b else UInt64.ofNat Duration.maxMillis

def least (a b : UInt64) : UInt64 :=
  if a ≤ b then a else b

/-- A number drawn from a range that is not empty. -/
def draw? (bound : UInt64) (g : Generator) : Option Generator.Choice :=
  if bound = 0 then none else some (g.below bound.toNat)

theorem toNat_eq_zero {w : UInt64} : w.toNat = 0 ↔ w = 0 :=
  UInt64.toNat_inj (b := 0)

theorem shift?_one {bits : Nat} (h : bits < 64) :
    ∃ w, shift? 1 bits = some w ∧ w.toNat = 2 ^ bits := by
  refine ⟨_, if_pos h, ?_⟩
  have hpow : 2 ^ bits < 2 ^ 64 := Nat.pow_lt_pow_right (by decide) h
  have hbits : (UInt64.ofNat bits).toNat = bits :=
    UInt64.toNat_ofNat_of_lt' (Nat.lt_trans h (by decide))
  rw [UInt64.toNat_shiftLeft, hbits, Nat.mod_eq_of_lt h, UInt64.toNat_one, Nat.one_shiftLeft,
    Nat.mod_eq_of_lt hpow]

theorem add?_eq {a b : UInt64} (h : a.toNat + b.toNat < wordSize 64) :
    ∃ w, add? a b = some w ∧ w.toNat = a.toNat + b.toNat :=
  ⟨a + b, if_pos h, Nat.mod_eq_of_lt h⟩

theorem draw?_eq {bound : UInt64} (h : bound.toNat ≠ 0) (g : Generator) :
    draw? bound g = some (g.below bound.toNat) :=
  if_neg (mt toNat_eq_zero.mpr h)

theorem toNat_mulCapped (a b : UInt64) :
    (mulCapped a b).toNat = min (a.toNat * b.toNat) Duration.maxMillis := by
  unfold mulCapped
  split
  · rename_i h
    exact (Nat.mod_eq_of_lt h).trans (Nat.min_eq_left (Nat.le_pred_of_lt h)).symm
  · rename_i h
    exact (Nat.min_eq_right (Nat.le_trans (Nat.pred_le _) (Nat.le_of_not_lt h))).symm

theorem toNat_least (a b : UInt64) : (least a b).toNat = min a.toNat b.toNat := by
  unfold least
  split
  · rename_i h
    exact (Nat.min_eq_left h).symm
  · rename_i h
    exact (Nat.min_eq_right (Nat.le_of_not_le h)).symm

end Words

namespace Duration

theorem millis_le (d : Duration) : d.millis ≤ maxMillis :=
  Nat.min_le_right _ _

theorem lt_wordSize {n : Nat} (h : n ≤ maxMillis) : n < wordSize 64 :=
  Nat.lt_of_le_of_lt h (by decide)

def word (d : Duration) : UInt64 :=
  UInt64.ofNat d.millis

theorem toNat_word (d : Duration) : d.word.toNat = d.millis :=
  UInt64.toNat_ofNat_of_lt' (lt_wordSize d.millis_le)

end Duration

namespace Backoff

open Words

variable {b : Backoff} {attempt attempt' : Nat}

def ceiling? (b : Backoff) (attempt : Nat) : Option UInt64 := do
  let factor ← shift? 1 (min (min attempt b.maxRetries) 62)
  return least (mulCapped b.base.word factor) b.limit.word

/-- The delay, computed in words throughout. -/
def delay? (b : Backoff) (attempt : Nat) (g : Generator) : Option Generator.Choice :=
  match b.kind with
  | .none => some (g.fixed 0)
  | .fixed => some (g.fixed b.base.word.toNat)
  | .fullJitter => do
    let top ← b.ceiling? attempt
    if top = 0 then return g.fixed 0 else draw? top g
  | .equalJitter => do
    let top ← b.ceiling? attempt
    let half := top / 2
    if half = 0 then return g.fixed 0
    else
      let c ← draw? half g
      let sum ← add? half (UInt64.ofNat c.value)
      return { c with value := sum.toNat }

theorem ceiling_le (b : Backoff) (attempt : Nat) : b.ceiling attempt ≤ b.limit.millis :=
  Nat.min_le_right _ _

theorem ceiling?_eq (b : Backoff) (attempt : Nat) :
    ∃ top, b.ceiling? attempt = some top ∧ top.toNat = b.ceiling attempt := by
  obtain ⟨factor, hf, hpow⟩ := @shift?_one (min (min attempt b.maxRetries) 62) (by omega)
  refine ⟨least (mulCapped b.base.word factor) b.limit.word, ?_, ?_⟩
  · simp only [ceiling?, hf]
    rfl
  · rw [toNat_least, toNat_mulCapped, hpow, Duration.toNat_word, Duration.toNat_word]
    rfl

/-- Each step of the computation in words has a result, and the last one is the delay. -/
theorem delay?_eq (b : Backoff) (attempt : Nat) (g : Generator) :
    b.delay? attempt g = some (b.delay attempt g) := by
  obtain ⟨top, htop, hnat⟩ := b.ceiling?_eq attempt
  unfold delay? delay
  cases b.kind with
  | none => rfl
  | fixed =>
    dsimp only
    rw [Duration.toNat_word]
  | fullJitter =>
    simp only [htop, ← hnat, Option.bind_eq_bind, Option.bind_some]
    by_cases hz : top.toNat = 0
    · rw [if_pos hz, if_pos (toNat_eq_zero.mp hz)]
      rfl
    · rw [if_neg hz, if_neg (mt toNat_eq_zero.mpr hz), draw?_eq hz]
  | equalJitter =>
    simp only [htop, ← hnat, Option.bind_eq_bind, Option.bind_some]
    have hhalf : (top / 2).toNat = top.toNat / 2 := UInt64.toNat_div top 2
    by_cases hz : top.toNat / 2 = 0
    · rw [if_pos hz, if_pos (toNat_eq_zero.mp (hhalf.trans hz))]
      rfl
    · rw [← hhalf] at hz ⊢
      rw [if_neg hz, if_neg (mt toNat_eq_zero.mpr hz), draw?_eq hz]
      have hdrawn := Generator.value_below_lt (Nat.pos_of_ne_zero hz) g
      have htop := top.toNat_lt
      have hc : (UInt64.ofNat (g.below (top / 2).toNat).value).toNat =
          (g.below (top / 2).toNat).value :=
        UInt64.toNat_ofNat_of_lt' (Nat.lt_trans hdrawn (top / 2).toNat_lt)
      -- twice the half is still a word
      have hsum : (top / 2).toNat + (g.below (top / 2).toNat).value < wordSize 64 := by
        change _ < 2 ^ 64
        omega
      obtain ⟨sum, hadd, hvalue⟩ := add?_eq (hc ▸ hsum)
      simp only [Option.bind_some, hadd, hvalue, hc]
      rfl

/-! ## What generators bring about -/

def delays (b : Backoff) (attempt : Nat) : Set Nat :=
  Set.range fun g => (b.delay attempt g).value

def fullRange (height : Nat) : Set Nat :=
  if height = 0 then {0} else Set.Ico 0 height

def equalRange (height : Nat) : Set Nat :=
  if height < 2 then {0} else Set.Ico (height / 2) (2 * (height / 2))

theorem ceiling_lt (b : Backoff) (attempt : Nat) : b.ceiling attempt < wordSize 64 :=
  Duration.lt_wordSize (Nat.le_trans (b.ceiling_le attempt) b.limit.millis_le)

theorem delays_of_full (hk : b.kind = .fullJitter) (attempt : Nat) :
    b.delays attempt = fullRange (b.ceiling attempt) := by
  unfold delays delay fullRange
  simp only [hk]
  split
  · exact Set.range_const
  · rename_i hz
    exact Generator.range_below (Nat.pos_of_ne_zero hz) (b.ceiling_lt attempt).le

theorem delays_of_equal (hk : b.kind = .equalJitter) (attempt : Nat) :
    b.delays attempt = equalRange (b.ceiling attempt) := by
  have hhalf : b.ceiling attempt / 2 = 0 ↔ b.ceiling attempt < 2 := by omega
  unfold delays delay equalRange
  simp only [hk, hhalf]
  split
  · exact Set.range_const
  · rename_i hz
    have hlt := b.ceiling_lt attempt
    have hdrawn := @Generator.range_below (b.ceiling attempt / 2) (by omega) (by omega)
    calc Set.range (fun g =>
          b.ceiling attempt / 2 + (Generator.below (b.ceiling attempt / 2) g).value)
        = (b.ceiling attempt / 2 + ·) '' Set.Ico 0 (b.ceiling attempt / 2) := by
          rw [← hdrawn, ← Set.range_comp]
          rfl
      _ = Set.Ico (b.ceiling attempt / 2) (2 * (b.ceiling attempt / 2)) := by
          rw [Set.image_const_add_Ico, Nat.add_zero, ← Nat.two_mul]

theorem isGreatest_fullRange (height : Nat) : IsGreatest (fullRange height) (height - 1) := by
  unfold fullRange
  split
  · rename_i hz
    rw [hz]
    exact isGreatest_singleton
  · refine ⟨⟨Nat.zero_le _, by omega⟩, ?_⟩
    rintro v ⟨-, hv⟩
    exact Nat.le_sub_one_of_lt hv

theorem isGreatest_equalRange (height : Nat) :
    IsGreatest (equalRange height) (2 * (height / 2) - 1) := by
  unfold equalRange
  split
  · have hz : 2 * (height / 2) - 1 = 0 := by omega
    rw [hz]
    exact isGreatest_singleton
  · refine ⟨⟨by omega, by omega⟩, ?_⟩
    rintro v ⟨-, hv⟩
    exact Nat.le_sub_one_of_lt hv

/-! ## The curve -/

/-- The base doubled so many times within the limit, in numbers of any size. -/
def curve (base limit doublings : Nat) : Nat :=
  min (base * 2 ^ doublings) limit

theorem curve_mono (base limit : Nat) : Monotone (curve base limit) := by
  intro m n hmn
  have hpow : 2 ^ m ≤ 2 ^ n := Nat.pow_le_pow_right (by decide) hmn
  have hmul := Nat.mul_le_mul_left base hpow
  unfold curve
  omega

/-- The largest word is no less than any limit, so it does not show. -/
theorem ceiling_eq_curve (b : Backoff) (attempt : Nat) :
    b.ceiling attempt =
      curve b.base.millis b.limit.millis (min (min attempt b.maxRetries) 62) := by
  unfold ceiling curve
  rw [Nat.min_assoc, Nat.min_eq_right b.limit.millis_le]
  rfl

theorem ceiling_mono (b : Backoff) : Monotone b.ceiling := by
  intro m n hmn
  rw [ceiling_eq_curve, ceiling_eq_curve]
  exact curve_mono _ _ (by omega)

theorem ceiling_of_le (h : b.maxRetries ≤ attempt) :
    b.ceiling attempt = b.ceiling b.maxRetries := by
  rw [ceiling_eq_curve, ceiling_eq_curve, Nat.min_eq_right h, Nat.min_self]

/-- The two kinds of jitter differ in how far below the curve they end. -/
def top (b : Backoff) (attempt : Nat) : Nat :=
  match b.kind with
  | .equalJitter => 2 * (b.ceiling attempt / 2) - 1
  | _ => b.ceiling attempt - 1

theorem isGreatest_delays (hk : b.kind.isJittered = true) (attempt : Nat) :
    IsGreatest (b.delays attempt) (b.top attempt) := by
  unfold top
  cases hkind : b.kind with
  | none =>
    rw [hkind] at hk
    cases hk
  | fixed =>
    rw [hkind] at hk
    cases hk
  | equalJitter =>
    rw [delays_of_equal hkind]
    exact isGreatest_equalRange _
  | fullJitter =>
    rw [delays_of_full hkind]
    exact isGreatest_fullRange _

theorem top_le (b : Backoff) (attempt : Nat) : b.top attempt ≤ b.ceiling attempt := by
  unfold top
  split <;> omega

theorem top_mono (b : Backoff) : Monotone b.top := by
  intro m n hmn
  have hc : b.ceiling m ≤ b.ceiling n := b.ceiling_mono hmn
  unfold top
  split <;> omega

theorem ofMillis_le {n : Nat} {limit : Duration} (h : n ≤ limit.millis) :
    (Duration.ofMillis n).nanos ≤ limit.nanos := by
  have hn : n ≤ limit.nanos / 1000000 := Nat.le_trans h (Nat.min_le_left _ _)
  exact (Nat.le_div_iff_mul_le (by decide)).mp hn

/-- Whatever the durations, the bound on retries, the attempt and the generator: no step of the
computation in words goes past the word, and none draws from an empty range. With jitter no delay is
longer than the limit, the least upper bound of the delays that generators bring about never falls
from one attempt to a later one, and from as many attempts on as there are retries the delays stay
what they are. -/
theorem delays_within_limit (b : Backoff) :
    (∀ attempt g, b.delay? attempt g = some (b.delay attempt g)) ∧
    (b.kind.isJittered = true →
      (∀ attempt g, (Duration.ofMillis (b.delay attempt g).value).nanos ≤ b.limit.nanos) ∧
      ∃ top : Nat → Nat, (∀ attempt, IsLUB (b.delays attempt) (top attempt)) ∧ Monotone top ∧
        ∀ attempt, b.maxRetries ≤ attempt →
          top attempt = top b.maxRetries ∧ b.delay attempt = b.delay b.maxRetries) := by
  refine ⟨b.delay?_eq, fun hk => ⟨?_, b.top, ?_, b.top_mono, ?_⟩⟩
  · intro attempt g
    have hdelay : (b.delay attempt g).value ≤ b.top attempt :=
      (isGreatest_delays hk attempt).2 (Set.mem_range_self g)
    exact ofMillis_le (hdelay.trans ((b.top_le attempt).trans (b.ceiling_le attempt)))
  · exact fun attempt => (isGreatest_delays hk attempt).isLUB
  · intro attempt h
    have hc := ceiling_of_le h
    constructor
    · simp only [top, hc]
    · funext g
      simp only [delay, hc]

/-- A base of one and a half milliseconds, a limit of more milliseconds than a word holds. -/
theorem delays_within_limit_beyond_words :
    let b := equalJitter (.ofMicros 1500) (.ofSeconds (wordSize 64)) 100
    (∀ g, b.delay? 3 g = some (b.delay 3 g)) ∧ (b.delay 3 []).value = 4 ∧
      (Duration.ofMillis (b.delay 3 []).value).nanos ≤ b.limit.nanos ∧
      b.delay 1000 = b.delay 100 := by
  intro b
  obtain ⟨hwords, hjitter⟩ := delays_within_limit b
  obtain ⟨hlimit, _, _, _, hstays⟩ := hjitter rfl
  exact ⟨hwords 3, by decide, hlimit 3 [], (hstays 1000 (by decide)).2⟩

/-- The bound on the doublings shows only where even so many do not bring the base to the limit. -/
theorem curve_eq_iff {base limit : Nat} (doublings : Nat) :
    curve base limit (min doublings 62) = curve base limit doublings ↔
      base = 0 ∨ doublings ≤ 62 ∨ limit ≤ base * 2 ^ 62 := by
  rcases Nat.le_total doublings 62 with hd | hd
  · rw [Nat.min_eq_left hd]
    exact iff_of_true rfl (.inr (.inl hd))
  · rw [Nat.min_eq_right hd]
    constructor
    · intro he
      by_contra hn
      obtain ⟨hbase, hmore, hlimit⟩ : 0 < base ∧ 62 < doublings ∧ base * 2 ^ 62 < limit := by omega
      have hpow : 2 ^ 62 < 2 ^ doublings := Nat.pow_lt_pow_right (by decide) hmore
      have hmul := Nat.mul_lt_mul_of_pos_left hpow hbase
      unfold curve at he
      omega
    · have hpow : 2 ^ 62 ≤ 2 ^ doublings := Nat.pow_le_pow_right (by decide) hd
      have hmul := Nat.mul_le_mul_left base hpow
      rintro (rfl | hle | hlimit)
      · simp [curve]
      · rw [Nat.le_antisymm hle hd]
      · unfold curve
        omega

/-- Take a base and a limit of whole milliseconds below 2⁶⁴. The delays with full jitter are all the
milliseconds below the height of the curve, and those with equal jitter run from the half of it to
twice that half, where the curve is the base doubled once for each attempt up to the bound on
retries, and no more than 62 times, within the limit. That is the curve without the last bound, in
numbers of any size, just if there are no more doublings than that, or 62 of them bring the base to
the limit, as they do with a base of four milliseconds or more. -/
theorem delays_on_curve {base limit : Nat} (maxRetries attempt : Nat) (hb : base < wordSize 64)
    (hl : limit < wordSize 64) :
    let doublings := min attempt maxRetries
    let height := curve base limit (min doublings 62)
    (fullJitter (.ofMillis base) (.ofMillis limit) maxRetries).delays attempt = fullRange height ∧
    (equalJitter (.ofMillis base) (.ofMillis limit) maxRetries).delays attempt =
      equalRange height ∧
    (height = curve base limit doublings ↔
      base = 0 ∨ doublings ≤ 62 ∨ limit ≤ base * 2 ^ 62) ∧
    (4 ≤ base → height = curve base limit doublings) := by
  have hbase : (Duration.ofMillis base).millis = base :=
    Duration.millis_ofMillis (Nat.le_pred_of_lt hb)
  have hlimit : (Duration.ofMillis limit).millis = limit :=
    Duration.millis_ofMillis (Nat.le_pred_of_lt hl)
  have hceiling (kind : BackoffKind) :
      ceiling ⟨kind, .ofMillis base, .ofMillis limit, maxRetries⟩ attempt =
        curve base limit (min (min attempt maxRetries) 62) := by
    rw [ceiling_eq_curve, hbase, hlimit]
  refine ⟨?_, ?_, curve_eq_iff _, ?_⟩
  · rw [delays_of_full rfl]
    exact congrArg fullRange (hceiling .fullJitter)
  · rw [delays_of_equal rfl]
    exact congrArg equalRange (hceiling .equalJitter)
  · intro h
    have hmax : limit < 2 ^ 64 := hl
    exact (curve_eq_iff _).mpr (.inr (.inr (by omega)))

/-- A tenth of a second doubled twice. -/
theorem delays_on_curve_twice_doubled :
    (fullJitter (.ofMillis 100) (.ofMillis 10000) 30).delays 2 = Set.Ico 0 400 ∧
    (equalJitter (.ofMillis 100) (.ofMillis 10000) 30).delays 2 = Set.Ico 200 400 := by
  obtain ⟨hfull, hequal, -⟩ :=
    delays_on_curve 30 2 (show 100 < wordSize 64 by decide) (show 10000 < wordSize 64 by decide)
  exact ⟨hfull, hequal⟩

/-- One millisecond doubled 63 times goes past a limit of 9 · 10¹⁸, and with equal jitter the delay
should be at least half of that. None is: the longest is a millisecond short of 2⁶². -/
theorem delays_short_of_curve :
    let b := equalJitter (.ofMillis 1) (.ofMillis (9 * 10 ^ 18)) 63
    let height := curve 1 (9 * 10 ^ 18) (min 63 b.maxRetries)
    equalRange height = Set.Ico (45 * 10 ^ 17) (9 * 10 ^ 18) ∧
      b.delays 63 = Set.Ico (2 ^ 61) (2 ^ 62) ∧ b.delays 63 ≠ equalRange height := by
  intro b height
  have hceiling : b.ceiling 63 = 2 ^ 62 := by decide +kernel
  have hheight : height = 9 * 10 ^ 18 := by decide +kernel
  have hrange : equalRange height = Set.Ico (45 * 10 ^ 17) (9 * 10 ^ 18) := by
    rw [hheight]
    rfl
  have hdelays : b.delays 63 = Set.Ico (2 ^ 61) (2 ^ 62) := by
    rw [delays_of_equal rfl, hceiling]
    rfl
  refine ⟨hrange, hdelays, ?_⟩
  intro he
  have hmem : 2 ^ 61 ∈ Set.Ico (45 * 10 ^ 17) (9 * 10 ^ 18) := by
    rw [← hrange, ← he, hdelays]
    exact ⟨Nat.le_refl _, by decide⟩
  exact absurd hmem.1 (by decide)

end Backoff

end Courier
