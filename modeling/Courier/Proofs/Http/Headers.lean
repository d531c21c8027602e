import Courier.Http.Headers

/-! # Header fields as a multimap

What a name has is the list of its values, in order. Each change of the fields changes that list
for one name, in whatever case it is written, and leaves the fields of the other names as they are
spelled and as they stand.
-/

namespace Courier

namespace Headers

variable {h : Headers} {name other value : String} {e : String × String}

theorem named_self (name value : String) : named name (name, value) = true :=
  Text.sameFold_refl name

theorem named_congr (hs : Text.sameFold other name = true) : named other = named name := by
  funext e
  rw [Text.sameFold_iff] at hs
  rw [named, named, Text.sameFold, Text.sameFold, hs]

theorem named_eq_false (hne : Text.sameFold other name = false) (he : named other e = true) :
    named name e = false := by
  rw [named, Text.sameFold_iff] at he
  rw [← hne, named, Text.sameFold, Text.sameFold, he]

/-! ## The fields of a name, and the others -/

def under (h : Headers) (name : String) : List (String × String) :=
  h.entries.filter (named name)

def besides (h : Headers) (names : List String) : List (String × String) :=
  h.entries.filter fun e => names.all fun name => !named name e

theorem all_congr (h : Headers) (hs : Text.sameFold other name = true) :
    h.all other = h.all name := by
  rw [all, all, named_congr hs]

theorem first?_eq_head? (h : Headers) (name : String) : h.first? name = (h.all name).head? := by
  rw [first?, all, List.head?_map, List.head?_filter]

theorem contains_iff : h.contains name = true ↔ h.all name ≠ [] := by
  simp [contains, all]

theorem contains_of_first? (hf : h.first? name = some value) : h.contains name = true := by
  rw [first?_eq_head?] at hf
  exact contains_iff.mpr fun hnil => by simp [hnil] at hf

theorem firstMatches_iff : h.firstMatches name value = true ↔
    ∃ v, (h.all name).head? = some v ∧ Text.sameFold (Text.trim v) value = true := by
  rw [firstMatches, first?_eq_head?]
  cases (h.all name).head? <;> simp

/-! ## What is inserted -/

theorem filter_insert (h : Headers) {p : String × String → Bool}
    (hp : ∀ e, named name e = true → p e = false) :
    (h.insert name value).entries.filter p = h.entries.filter p := by
  have hnew : p (name, value) = false := hp _ (named_self name value)
  unfold insert
  induction h.entries with
  | nil => simp [inserted, hnew]
  | cons e es ih =>
    unfold inserted
    split
    · rename_i he
      have hrest : (es.filter fun d => !named name d).filter p = es.filter p := by
        rw [List.filter_filter]
        refine List.filter_congr fun d _ => ?_
        cases hd : named name d with
        | true => simp [hp d hd]
        | false => simp
      simp [hnew, hp e he, hrest]
    · simp only [List.filter_cons, ih]

theorem under_insert_of_ne (h : Headers) (hne : Text.sameFold other name = false) :
    (h.insert other value).under name = h.under name :=
  h.filter_insert fun _ he => named_eq_false hne he

theorem besides_insert (h : Headers) {names : List String} (hn : name ∈ names) :
    (h.insert name value).besides names = h.besides names := by
  refine h.filter_insert fun e he => ?_
  simp only [List.all_eq_false]
  exact ⟨name, hn, by simp [he]⟩

theorem under_insert (h : Headers) (name value : String) :
    (h.insert name value).under name = [(name, value)] := by
  unfold under insert
  induction h.entries with
  | nil => simp [inserted, named_self]
  | cons e es ih =>
    unfold inserted
    split
    · rw [List.filter_cons_of_pos (named_self name value), List.filter_filter]
      simp
    · rename_i hn
      rwa [List.filter_cons_of_neg hn]

theorem all_insert (h : Headers) (name value : String) :
    (h.insert name value).all name = [value] :=
  congrArg (List.map Prod.snd) (h.under_insert name value)

theorem all_insert_of_ne (h : Headers) (hne : Text.sameFold other name = false) :
    (h.insert other value).all name = h.all name :=
  congrArg (List.map Prod.snd) (h.under_insert_of_ne hne)

theorem contains_insert_of_ne (h : Headers) (hne : Text.sameFold other name = false) :
    (h.insert other value).contains name = h.contains name := by
  rw [Bool.eq_iff_iff, contains_iff, contains_iff, h.all_insert_of_ne hne]

theorem first?_insert (h : Headers) (name value : String) :
    (h.insert name value).first? name = some value := by
  rw [first?_eq_head?, all_insert, List.head?_cons]

theorem insert_of_not_contains (hc : h.contains name = false) (value : String) :
    h.insert name value = h.append name value := by
  obtain ⟨entries⟩ := h
  refine congrArg Headers.mk ?_
  induction entries with
  | nil => rfl
  | cons e es ih =>
    obtain ⟨he, hes⟩ := Bool.or_eq_false_iff.mp (hc : (named name e || es.any _) = false)
    rw [inserted, he, if_neg Bool.false_ne_true]
    exact congrArg (e :: ·) (ih hes)

theorem getElem?_insert (h : Headers) (name value : String) :
    (h.insert name value).entries[h.entries.findIdx (named name)]? = some (name, value) := by
  unfold insert
  induction h.entries with
  | nil => rfl
  | cons e es ih =>
    unfold inserted
    rw [List.findIdx_cons]
    split
    · rename_i he
      rw [he, cond_true, List.getElem?_cons_zero]
    · rename_i he
      rw [Bool.eq_false_iff.mpr he, cond_false, List.getElem?_cons_succ]
      exact ih

/-! ### In two passes -/

/-- Of the fields of the name only the first is left, and none if there has been one before. -/
def keepFirst (name : String) : Bool → List (String × String) → List (String × String)
  | _, [] => []
  | seen, e :: r =>
    if named name e then if seen then keepFirst name true r else e :: keepFirst name true r
    else e :: keepFirst name seen r

/-- The first field of the name is written over, and then all later ones are dropped. -/
def insertInPasses (h : Headers) (name value : String) : Headers :=
  match h.entries.findIdx? (named name) with
  | some i => ⟨keepFirst name false (h.entries.set i (name, value))⟩
  | none => h.append name value

theorem keepFirst_true (name : String) (es : List (String × String)) :
    keepFirst name true es = es.filter fun d => !named name d := by
  induction es with
  | nil => rfl
  | cons e es ih =>
    rw [keepFirst, List.filter_cons, ih]
    cases named name e <;> rfl

theorem keepFirst_set (value : String) {es : List (String × String)} {i : Nat}
    (hi : es.findIdx? (named name) = some i) :
    keepFirst name false (es.set i (name, value)) = inserted name value es := by
  induction es generalizing i with
  | nil => cases hi
  | cons e es ih =>
    rw [List.findIdx?_cons] at hi
    rw [inserted]
    split at hi
    · rename_i he
      obtain rfl : 0 = i := by simpa using hi
      rw [if_pos he, List.set_cons_zero, keepFirst, if_pos (named_self name value),
        if_neg Bool.false_ne_true, keepFirst_true]
    · rename_i he
      obtain ⟨j, hj, rfl⟩ := Option.map_eq_some_iff.mp hi
      rw [if_neg he, List.set_cons_succ, keepFirst, if_neg he, ih hj]

theorem insert_eq_insertInPasses (h : Headers) (name value : String) :
    h.insert name value = h.insertInPasses name value := by
  unfold insertInPasses
  cases hi : h.entries.findIdx? (named name) with
  | some i => exact congrArg Headers.mk (keepFirst_set value hi).symm
  | none =>
    refine insert_of_not_contains ?_ value
    rw [contains, List.any_eq_false]
    intro e he hn
    exact Bool.false_ne_true ((List.findIdx?_eq_none_iff.mp hi e he).symm.trans hn)

/-! ## What is taken out -/

theorem under_remove (h : Headers) (name : String) : (h.remove name).2.under name = [] := by
  rw [under, remove, List.filter_filter, List.filter_eq_nil_iff]
  intro e _
  simp

theorem besides_remove (h : Headers) {names : List String} (hn : name ∈ names) :
    (h.remove name).2.besides names = h.besides names := by
  rw [besides, remove, List.filter_filter]
  refine List.filter_congr fun e _ => ?_
  cases he : named name e with
  | false => simp
  | true =>
    rw [Bool.not_true, Bool.and_false, eq_comm, List.all_eq_false]
    exact ⟨name, hn, by simp [he]⟩

theorem all_remove_of_ne (h : Headers) (hne : Text.sameFold other name = false) :
    (h.remove other).2.all name = h.all name := by
  rw [all, remove, List.filter_filter, all]
  refine congrArg _ (List.filter_congr fun e _ => ?_)
  cases he : named other e with
  | false => simp
  | true => simp [named_eq_false hne he]

/-! ## Changes, one after another -/

inductive Change where
  | append (name value : String)
  | insert (name value : String)
  | remove (name : String)

namespace Change

def apply (h : Headers) : Change → Headers
  | .append name value => h.append name value
  | .insert name value => h.insert name value
  | .remove name => (h.remove name).2

/-- The same change of a map that gives each name its values, in order. -/
def onValues (values : String → List String) : Change → String → List String
  | .append name value, other =>
    if Text.sameFold name other then values other ++ [value] else values other
  | .insert name value, other => if Text.sameFold name other then [value] else values other
  | .remove name, other => if Text.sameFold name other then [] else values other

end Change

def after (h : Headers) (changes : List Change) : Headers :=
  changes.foldl Change.apply h

theorem all_append (h : Headers) (name value other : String) :
    (h.append name value).all other =
      if Text.sameFold name other then h.all other ++ [value] else h.all other := by
  have hone : named other (name, value) = Text.sameFold name other := rfl
  unfold append all
  rw [List.filter_append, List.map_append, List.filter_cons, hone]
  split <;> simp

theorem all_apply (h : Headers) (c : Change) : (c.apply h).all = c.onValues h.all := by
  funext other
  cases c with
  | append name value => exact h.all_append name value other
  | insert name value =>
    rw [Change.apply, Change.onValues]
    split
    · rename_i hs
      rw [← all_congr _ hs, all_insert]
    · rename_i hs
      exact h.all_insert_of_ne (Bool.eq_false_iff.mpr hs)
  | remove name =>
    rw [Change.apply, Change.onValues]
    split
    · rename_i hs
      rw [← all_congr _ hs]
      exact congrArg (List.map Prod.snd) (h.under_remove name)
    · rename_i hs
      exact h.all_remove_of_ne (Bool.eq_false_iff.mpr hs)

/-- After any changes a name has the values that the same changes give it in the map. -/
theorem all_after (h : Headers) (changes : List Change) :
    (h.after changes).all = changes.foldl Change.onValues h.all := by
  induction changes generalizing h with
  | nil => rfl
  | cons c changes ih =>
    rw [List.foldl_cons, ← all_apply]
    exact ih (c.apply h)

/-! ## The multimap -/

/-- An inserted value is the only one of its name, in the place of the first of them and spelled
as it is given, and all else is as it was. -/
structure Inserts (h : Headers) (name value : String) (h' : Headers) : Prop where
  only : h'.under name = [(name, value)]
  all : h'.all name = [value]
  inPlace : h'.entries[h.entries.findIdx (named name)]? = some (name, value)
  atEnd : h.contains name = false → h'.entries = h.entries ++ [(name, value)]
  others : h'.besides [name] = h.besides [name]
  inPasses : h' = h.insertInPasses name value

/-- What is taken out is what the name had, none of it is left, and all else is as it was. -/
structure Removes (h : Headers) (name : String) (result : List String × Headers) : Prop where
  returned : result.1 = h.all name
  gone : result.2.all name = []
  others : result.2.besides [name] = h.besides [name]

/-- The look-ups read the fields as the map does. -/
structure Reads (h : Headers) (values : String → List String) : Prop where
  all : h.all = values
  first : ∀ name, h.first? name = (values name).head?
  contains : ∀ name, h.contains name = true ↔ values name ≠ []
  firstMatches : ∀ name value, h.firstMatches name value = true ↔
    ∃ v, (values name).head? = some v ∧ Text.sameFold (Text.trim v) value = true

theorem inserts_insert (h : Headers) (name value : String) :
    Inserts h name value (h.insert name value) where
  only := h.under_insert name value
  all := h.all_insert name value
  inPlace := h.getElem?_insert name value
  atEnd hc := congrArg entries (insert_of_not_contains hc value)
  others := h.besides_insert (List.mem_singleton_self name)
  inPasses := h.insert_eq_insertInPasses name value

theorem removes_remove (h : Headers) (name : String) : Removes h name (h.remove name) where
  returned := rfl
  gone := congrArg (List.map Prod.snd) (h.under_remove name)
  others := h.besides_remove (List.mem_singleton_self name)

theorem reads_all (h : Headers) : h.Reads h.all where
  all := rfl
  first := h.first?_eq_head?
  contains _ := contains_iff
  firstMatches _ _ := firstMatches_iff

/-- Header fields are a multimap whose names have no case and whose entries have an order. -/
theorem refines_multimap (h : Headers) :
    (∀ name value other, (h.append name value).all other =
      if Text.sameFold name other then h.all other ++ [value] else h.all other) ∧
    (∀ name value, Inserts h name value (h.insert name value)) ∧
    (∀ name, Removes h name (h.remove name)) ∧
    ∀ changes, (h.after changes).Reads (changes.foldl Change.onValues h.all) := by
  refine ⟨h.all_append, h.inserts_insert, h.removes_remove, fun changes => ?_⟩
  rw [← all_after]
  exact (h.after changes).reads_all

example : (ofList [("b", "1"), ("X-a", "2"), ("c", "3"), ("x-A", "4")]).insert "x-a" "5" =
    ofList [("b", "1"), ("x-a", "5"), ("c", "3")] := by
  decide +kernel

end Headers

end Courier
