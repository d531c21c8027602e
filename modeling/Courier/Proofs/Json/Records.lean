import Courier.Json.Decode
import Courier.Proofs.Json.Reading

/-! # What is read out of what was put in

Numbers, lists, names and records that are turned into JSON are read out of it again. A record may
leave out its last fields, and these are then found to be missing.
-/

namespace Courier.Json

variable {α : Type}

/-- A signed integer of 64 bits. -/
def IsLong (i : Int) : Prop :=
  -(wordSize 63 : Int) ≤ i ∧ i < wordSize 63

instance (i : Int) : Decidable (IsLong i) :=
  inferInstanceAs (Decidable (_ ∧ _))

/-! ## Reading out -/

theorem natural?_ofNat {n bound : Nat} (h : n < bound) : natural? bound (ofNat n) = some n := by
  simp [natural?, ofNat, h]

theorem integer?_ofInt {i : Int} (h : IsLong i) : integer? (ofInt i) = some i := by
  obtain ⟨hl, hu⟩ := h
  unfold integer? ofInt
  dsimp only
  rw [if_neg (by decide)]
  by_cases hneg : i < 0
  · have hzero : ¬(i.natAbs = 0) := by omega
    have hsmall : ¬(wordSize 63 < i.natAbs) := by omega
    have habs : -(i.natAbs : Int) = i := by omega
    rw [if_pos (decide_eq_true hneg), decide_eq_false hzero, decide_eq_false hsmall,
      if_neg (by decide), habs]
  · have hbig : i.natAbs < wordSize 63 := by omega
    have habs : (i.natAbs : Int) = i := by omega
    rw [decide_eq_false hneg, if_neg (by decide), if_pos hbig, habs]

theorem list?_array {read? : Json → Option α} {put : α → Json} {as : List α}
    (h : ∀ a ∈ as, read? (put a) = some a) : list? read? (array (as.map put)) = some as := by
  unfold list?
  dsimp only
  induction as with
  | nil => rfl
  | cons a as ih =>
    rw [List.map_cons, List.mapM_cons, h a List.mem_cons_self,
      ih fun b hb => h b (List.mem_cons_of_mem a hb)]
    rfl

theorem valuesOf_cons_self (name : String) (value : Json)
    (members : List (Option String × Json)) :
    valuesOf ((some name, value) :: members) name = value :: valuesOf members name := by
  simp [valuesOf]

theorem valuesOf_cons_of_ne {name other : String} (h : other ≠ name) (value : Json)
    (members : List (Option String × Json)) :
    valuesOf ((some other, value) :: members) name = valuesOf members name := by
  simp [valuesOf, h]

theorem valuesOf_eq_nil {name : String} {members : List (String × Json)}
    (h : ∀ m ∈ members, m.1 ≠ name) :
    valuesOf (members.map fun (name, value) => (some name, value)) name = [] := by
  induction members with
  | nil => rfl
  | cons m ms ih =>
    rw [List.map_cons, valuesOf_cons_of_ne (h m List.mem_cons_self)]
    exact ih fun n hn => h n (List.mem_cons_of_mem m hn)

/-- The names are looked up one after another, so the induction is on them; what matters of the
members is what they have under the names that are left. -/
theorem mapM_valuesOf {names : List String} {values : List Json} (hnd : names.Nodup)
    (hle : values.length ≤ names.length) {members : List (Option String × Json)}
    (hm : ∀ name ∈ names, valuesOf members name =
      valuesOf ((names.zip values).map fun (name, value) => (some name, value)) name) :
    (names.mapM fun name =>
      match valuesOf members name with
      | [] => some none
      | [value] => some (some value)
      | _ => none) =
        some (values.map some ++ List.replicate (names.length - values.length) none) := by
  induction names generalizing values with
  | nil =>
    obtain rfl := List.eq_nil_of_length_eq_zero (Nat.le_zero.mp hle)
    rfl
  | cons name names ih =>
    obtain ⟨hnew, hnd⟩ := List.nodup_cons.mp hnd
    rw [List.mapM_cons, hm name List.mem_cons_self]
    cases values with
    | nil =>
      rw [ih hnd (Nat.zero_le _) fun n hn => by
        rw [hm n (List.mem_cons_of_mem name hn), List.zip_nil_right, List.zip_nil_right]]
      rfl
    | cons value values =>
      have hothers : ∀ m ∈ names.zip values, m.1 ≠ name := fun m hmem heq =>
        hnew (heq ▸ (List.of_mem_zip hmem).1)
      rw [ih hnd (Nat.le_of_succ_le_succ hle) fun n hn => by
        have hne : name ≠ n := fun heq => hnew (heq ▸ hn)
        rw [hm n (List.mem_cons_of_mem name hn), List.zip_cons_cons, List.map_cons,
          valuesOf_cons_of_ne hne]]
      rw [List.zip_cons_cons, List.map_cons, valuesOf_cons_self, valuesOf_eq_nil hothers]
      simp

theorem fields?_record {names : List String} {values : List Json} (hnd : names.Nodup)
    (hle : values.length ≤ names.length) :
    (record (names.zip values)).fields? names =
      some (values.map some ++ List.replicate (names.length - values.length) none) := by
  have hnamed : ((names.zip values).map fun (name, value) =>
      ((some name : Option String), value)).all (·.1.isSome) = true := by
    simp
  unfold record fields?
  dsimp only
  rw [if_pos hnamed]
  exact mapM_valuesOf hnd hle fun _ _ => rfl

/-! ## Exactness -/

theorem isExact_ofNat {n : Nat} (h : n < wordSize 64) : (ofNat n).isExact = true := by
  simp [isExact, ofNat, Numeral.isWhole, h]

theorem isExact_ofInt {i : Int} (h : IsLong i) : (ofInt i).isExact = true := by
  obtain ⟨hl, hu⟩ := h
  have hsize : wordSize 63 + wordSize 63 = wordSize 64 := rfl
  have hlt : i.natAbs < wordSize 64 := by omega
  simp [isExact, ofInt, Numeral.isWhole, hlt]

theorem itemsExact_map {put : α → Json} {as : List α} (h : ∀ a ∈ as, (put a).isExact = true) :
    itemsExact (as.map put) = true := by
  induction as with
  | nil => rfl
  | cons a as ih =>
    rw [List.map_cons, itemsExact, h a List.mem_cons_self,
      ih fun b hb => h b (List.mem_cons_of_mem a hb)]
    rfl

theorem isExact_record {members : List (String × Json)}
    (h : ∀ m ∈ members, m.2.isExact = true) : (record members).isExact = true := by
  unfold record isExact
  induction members with
  | nil => rfl
  | cons m ms ih =>
    rw [List.map_cons, membersExact, h m List.mem_cons_self,
      ih fun n hn => h n (List.mem_cons_of_mem m hn)]
    rfl

/-! ## Depth -/

theorem depth_lt_record {members : List (String × Json)} {m : String × Json} (h : m ∈ members) :
    m.2.depth < (record members).depth := by
  unfold record
  rw [depth]
  induction members with
  | nil => cases h
  | cons n ns ih =>
    rw [List.map_cons, depthMembers]
    rcases List.mem_cons.mp h with rfl | h
    · omega
    · have := ih h
      omega

end Courier.Json
