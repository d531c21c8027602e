import Courier.Interceptor

/-! # The order of the hooks

However interceptors were added one after the other, the chain is the list of them sorted by
priority, with equals as they were added. A request passes their hooks from the first to the last
and a response from the last to the first. What hooks that note what they are handed have noted
shows which of them ran, and on what.
-/

namespace Courier

/-! ## Sorting -/

section

variable {β γ : Type} {key : β → Int} {l m n : List β}

/-- The second list has the members of the first in the order of their keys. Those of one key stand
as they stood. -/
structure SortsBy (key : β → Int) (l m : List β) : Prop where
  sorted : m.Pairwise fun a b => key a ≤ key b
  stable : ∀ k, m.filter (key · = k) = l.filter (key · = k)

namespace SortsBy

theorem nil : SortsBy key [] [] :=
  ⟨.nil, fun _ => rfl⟩

theorem mergeSort (key : β → Int) (l : List β) :
    SortsBy key l (l.mergeSort fun a b => key a ≤ key b) := by
  have htrans : ∀ a b c : β, decide (key a ≤ key b) = true → decide (key b ≤ key c) = true →
      decide (key a ≤ key c) = true := by
    simp only [decide_eq_true_eq]
    exact fun _ _ _ => Int.le_trans
  have htotal : ∀ a b : β, (decide (key a ≤ key b) || decide (key b ≤ key a)) = true := by
    simp only [Bool.or_eq_true, decide_eq_true_eq]
    exact fun a b => Int.le_total (key a) (key b)
  constructor
  · simpa only [decide_eq_true_eq] using List.pairwise_mergeSort htrans htotal l
  · intro k
    have hperm := (List.mergeSort_perm l fun a b => key a ≤ key b).filter (key · = k)
    -- Those of one key are in order already, so sorting keeps them as a sublist.
    have hsub : (l.filter (key · = k)).Sublist (l.mergeSort fun a b => key a ≤ key b) := by
      refine List.sublist_mergeSort htrans htotal ?_ List.filter_sublist
      refine List.pairwise_of_forall_mem_list fun a ha b hb => ?_
      simp only [List.mem_filter, decide_eq_true_eq] at ha hb ⊢
      exact Int.le_of_eq (ha.2.trans hb.2.symm)
    have hfilter := hsub.filter (key · = k)
    rw [List.filter_filter, List.filter_congr (fun a _ => Bool.and_self _)] at hfilter
    exact (hfilter.eq_of_length hperm.length_eq.symm).symm

/-- To sort, add to what is sorted and sort again comes to the same as to sort once. -/
theorem concat (h : SortsBy key l m) (a : β) :
    SortsBy key (l ++ [a]) ((m ++ [a]).mergeSort fun a b => key a ≤ key b) := by
  have hs := mergeSort key (m ++ [a])
  refine ⟨hs.sorted, fun k => ?_⟩
  rw [hs.stable, List.filter_append, List.filter_append, h.stable]

theorem head_le {a b : β} (hs : (a :: m).Pairwise fun a b => key a ≤ key b)
    (h : ∀ k, (a :: m).filter (key · = k) = (b :: n).filter (key · = k)) : key a ≤ key b := by
  have hb : b ∈ (a :: m).filter (key · = key b) := by
    rw [h]
    simp
  rcases List.mem_cons.mp (List.mem_filter.mp hb).1 with rfl | hb
  · exact Int.le_refl _
  · exact (List.pairwise_cons.mp hs).1 b hb

theorem eq_of_sorted (hm : m.Pairwise fun a b => key a ≤ key b)
    (hn : n.Pairwise fun a b => key a ≤ key b)
    (h : ∀ k, m.filter (key · = k) = n.filter (key · = k)) : m = n := by
  induction m generalizing n with
  | nil =>
    cases n with
    | nil => rfl
    | cons b n => simpa using h (key b)
  | cons a m ih =>
    cases n with
    | nil => simpa using h (key a)
    | cons b n =>
      have hk : key a = key b := Int.le_antisymm (head_le hm h) (head_le hn fun k => (h k).symm)
      have hcons : a = b ∧ m.filter (key · = key b) = n.filter (key · = key b) := by
        simpa [hk] using h (key b)
      obtain ⟨rfl, -⟩ := hcons
      refine congrArg (a :: ·) (ih hm.of_cons hn.of_cons fun k => ?_)
      have hf := h k
      by_cases ha : key a = k
      · simpa [ha] using hf
      · simpa [ha] using hf

theorem unique (hm : SortsBy key l m) (hn : SortsBy key l n) : m = n :=
  eq_of_sorted hm.sorted hn.sorted fun k => (hm.stable k).trans (hn.stable k).symm

end SortsBy

end

/-! ## Passing -/

/-- The same state with another memory. -/
def HookState.withMemory {ξ ζ : Type} (s : HookState ξ) (memory : ζ) : HookState ζ :=
  ⟨s.attributes, s.cells, memory⟩

namespace Interceptor

variable {ξ α β ι : Type}

/-- How a pass ends, by the hooks that it has not got past: with none left the message is through,
or else the next one refuses it. -/
inductive Ends : List (Hook ξ α) → α × HookState ξ → Except Error α × HookState ξ → Prop

  | through (message : α) (state : HookState ξ) : Ends [] (message, state) (.ok message, state)

  | refused {hook : Hook ξ α} {hooks : List (Hook ξ α)} {message : α} {state left : HookState ξ}
      {e : Error} (h : hook message state = (.error e, left)) :
      Ends (hook :: hooks) (message, state) (.error e, left)

/-- A pass goes from hook to hook. The first is handed the message, each further one what the one
before it has made of the message and of the state; the last thing on the trail is what comes out
behind all hooks, or what was handed to the one that refused it. -/
structure Passes (hooks : List (Hook ξ α)) (message : α) (state : HookState ξ)
    (trail : List (α × HookState ξ)) (outcome : Except Error α × HookState ξ) : Prop where
  first : trail[0]? = some (message, state)
  next : ∀ i given, trail[i + 1]? = some given → ∃ hook before, hooks[i]? = some hook ∧
    trail[i]? = some before ∧ hook before.1 before.2 = (.ok given.1, given.2)
  ending : ∃ last, trail.getLast? = some last ∧ Ends (hooks.drop (trail.length - 1)) last outcome

variable {hook : Hook ξ α} {hooks : List (Hook ξ α)} {message message' : α}
  {state state' : HookState ξ} {outcome : Except Error α × HookState ξ}

theorem Passes.refused {e : Error} (h : hook message state = (.error e, state')) :
    Passes (hook :: hooks) message state [(message, state)] (.error e, state') := by
  constructor
  · rfl
  · rintro i given ⟨⟩
  · exact ⟨_, rfl, .refused h⟩

theorem Passes.accepted {trail : List (α × HookState ξ)}
    (h : hook message state = (.ok message', state'))
    (hp : Passes hooks message' state' trail outcome) :
    Passes (hook :: hooks) message state ((message, state) :: trail) outcome := by
  constructor
  · rfl
  · rintro (_ | i) given hg
    · cases hp.first.symm.trans hg
      exact ⟨hook, _, rfl, rfl, h⟩
    · exact hp.next i given hg
  · obtain ⟨last, hl, he⟩ := hp.ending
    cases trail with
    | nil => cases hl
    | cons given trail => exact ⟨last, hl, he⟩

/-- What is handed on in a pass. -/
def trail : List (Hook ξ α) → α → HookState ξ → List (α × HookState ξ)
  | [], message, state => [(message, state)]
  | hook :: hooks, message, state =>
    (message, state) ::
      match hook message state with
      | (.ok message, state) => trail hooks message state
      | (.error _, _) => []

theorem passes (hooks : List (Hook ξ α)) (message : α) (state : HookState ξ) :
    Passes hooks message state (trail hooks message state) (runHooks hooks message state) := by
  induction hooks generalizing message state with
  | nil =>
    constructor
    · rfl
    · rintro i given ⟨⟩
    · exact ⟨_, rfl, .through message state⟩
  | cons hook hooks ih =>
    rw [trail, runHooks]
    rcases h : hook message state with ⟨e | message', state'⟩
    · exact .refused h
    · exact (ih message' state').accepted h

/-! ## Noting -/

/-- Does what the hook does, and notes first what it is handed. -/
def noting (note : α → HookState ξ → β) (hook : Hook ξ α) : Hook (ξ × List β) α :=
  fun message state =>
    let own := state.withMemory state.memory.1
    let (result, left) := hook message own
    (result, left.withMemory (left.memory, state.memory.2 ++ [note message own]))

/-- Hooks that note what they are handed note one thing each, in the order of the pass; those behind
one that refuses note nothing. -/
theorem runHooks_noting (hook : ι → Hook ξ α) (note : ι → α → HookState ξ → β) (is : List ι)
    (message : α) (state : HookState ξ) (noted : List β) :
    let outcome := runHooks (is.map hook) message state
    runHooks (is.map fun i => noting (note i) (hook i)) message
        (state.withMemory (state.memory, noted)) =
      (outcome.1, outcome.2.withMemory (outcome.2.memory, noted ++
        List.zipWith (fun i given => note i given.1 given.2) is
          (trail (is.map hook) message state))) := by
  induction is generalizing message state noted with
  | nil => simp [runHooks]
  | cons i is ih =>
    have hn : noting (note i) (hook i) message (state.withMemory (state.memory, noted)) =
        ((hook i message state).1, (hook i message state).2.withMemory
          ((hook i message state).2.memory, noted ++ [note i message state])) := rfl
    simp only [List.map_cons, runHooks, trail, hn, List.zipWith_cons_cons]
    rcases hook i message state with ⟨e | message', state'⟩
    · simp
    · simp only [ih]
      simp

/-- What a hook of an interceptor has been handed. -/
inductive Visit (ξ : Type)
  | request (i : Interceptor ξ) (given : Request) (state : HookState ξ)
  | response (i : Interceptor ξ) (given : Response) (state : HookState ξ)

/-- An interceptor that notes what its hooks are handed, and is the same otherwise. -/
def attentive (i : Interceptor ξ) : Interceptor (ξ × List (Visit ξ)) where
  name := i.name
  priority := i.priority
  onRequest := noting (.request i) i.onRequest
  onResponse := noting (.response i) i.onResponse

end Interceptor

/-! ## Chains -/

namespace InterceptorChain

open Interceptor

variable {ξ : Type} {c : InterceptorChain ξ} {l : List (Interceptor ξ)}

theorem sortsBy_add (h : SortsBy (·.priority) l c.interceptors) (i : Interceptor ξ) :
    SortsBy (·.priority) (l ++ [i]) (c.add i).interceptors :=
  h.concat i

theorem sortsBy_foldl (h : SortsBy (·.priority) l c.interceptors) (is : List (Interceptor ξ)) :
    SortsBy (·.priority) (l ++ is) (is.foldl add c).interceptors := by
  induction is generalizing l c with
  | nil => simpa using h
  | cons i is ih =>
    rw [List.append_cons]
    exact ih (sortsBy_add h i)

/-- Equals stand as they were added, whatever was added between them. -/
example :
    let named (name : String) (priority : Int) : Interceptor Unit :=
      { passive name with priority }
    let chain := ofList [named "late" 10, named "first" 0, named "early" (-5), named "second" 0]
    chain.interceptors.map (·.name) = ["early", "first", "second", "late"] := by
  cbv

def attentive (c : InterceptorChain ξ) : InterceptorChain (ξ × List (Visit ξ)) :=
  ⟨c.interceptors.map Interceptor.attentive⟩

theorem attentive_add (c : InterceptorChain ξ) (i : Interceptor ξ) :
    (c.add i).attentive = c.attentive.add i.attentive := by
  have hmap : ((c.interceptors ++ [i]).mergeSort fun a b => a.priority ≤ b.priority).map
        Interceptor.attentive =
      ((c.interceptors ++ [i]).map Interceptor.attentive).mergeSort fun a b =>
        a.priority ≤ b.priority :=
    List.map_mergeSort fun _ _ _ _ => rfl
  simp only [attentive, add, hmap, List.map_append, List.map_singleton]

theorem attentive_foldl (c : InterceptorChain ξ) (is : List (Interceptor ξ)) :
    (is.map Interceptor.attentive).foldl add c.attentive = (is.foldl add c).attentive := by
  induction is generalizing c with
  | nil => rfl
  | cons i is ih =>
    rw [List.map_cons, List.foldl_cons, ← attentive_add]
    exact ih (c.add i)

/-- A state in which nothing has been noted but these visits. -/
def recalling (state : HookState ξ) (visits : List (Visit ξ)) : HookState (ξ × List (Visit ξ)) :=
  state.withMemory (state.memory, visits)

/-- Whatever is added in whatever order, the chain is what was added, sorted by priority and
otherwise as it was. A request passes its hooks from the first to the last and a response from the
last to the first, each handed what the one before has made of the message and of the state, up to
the first one that refuses. Interceptors that note what they are handed have noted just that: none
has run but those of the pass, once each and in its order. -/
theorem hooks_in_order (is : List (Interceptor ξ)) :
    let chain := ofList is
    let noters := ofList (is.map Interceptor.attentive)
    (∀ l, SortsBy (·.priority) is l ↔ l = chain.interceptors) ∧
      (∀ request state, ∃ trail,
        let outcome := chain.onRequest request state
        Passes (chain.interceptors.map (·.onRequest)) request state trail outcome ∧
          noters.onRequest request (recalling state []) =
            (outcome.1, recalling outcome.2 (List.zipWith (fun i given =>
              .request i given.1 given.2) chain.interceptors trail))) ∧
      ∀ response state, ∃ trail,
        let outcome := chain.onResponse response state
        Passes (chain.interceptors.reverse.map (·.onResponse)) response state trail outcome ∧
          noters.onResponse response (recalling state []) =
            (outcome.1, recalling outcome.2 (List.zipWith (fun i given =>
              .response i given.1 given.2) chain.interceptors.reverse trail)) := by
  intro chain noters
  have hsorted : SortsBy (·.priority) is chain.interceptors :=
    sortsBy_foldl (c := empty) (l := []) .nil is
  have hnoters : noters = chain.attentive := attentive_foldl empty is
  refine ⟨fun l => ⟨fun h => h.unique hsorted, ?_⟩, fun request state => ?_,
    fun response state => ?_⟩
  · rintro rfl
    exact hsorted
  · refine ⟨_, passes _ request state, ?_⟩
    rw [hnoters, onRequest, attentive, List.map_map]
    exact runHooks_noting (·.onRequest) Visit.request chain.interceptors request state []
  · refine ⟨_, passes _ response state, ?_⟩
    rw [hnoters, onResponse, attentive, ← List.map_reverse, List.map_map]
    exact runHooks_noting (·.onResponse) Visit.response chain.interceptors.reverse response state []

end InterceptorChain

end Courier
