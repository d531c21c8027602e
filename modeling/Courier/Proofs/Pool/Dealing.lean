import Courier.Pool.Permits

/-! # Permits dealt out to a line

Where nobody waits while a permit is free, permits are as if dealt out from the front to a line of
tickets. In that form joining and leaving the line, and taking a permit up and giving one back, are
changes of the line and of the number of permits, and it is plain that whoever goes away may as well
have gone before whatever another did.
-/

namespace Courier

namespace Permits

variable {p : Permits} {n t u : Nat} {tickets : List Nat} {c : Bool}

/-- So many permits for those in line, of whom the first have theirs. -/
def ofLine (n : Nat) (tickets : List Nat) (closed : Bool) : Permits :=
  ⟨n - tickets.length, tickets.drop n, tickets.take n, closed⟩

theorem eq_ofLine (h : 0 < p.free → p.waiting = []) :
    p = ofLine (p.free + p.granted.length) (p.granted ++ p.waiting) p.closed := by
  obtain ⟨free, waiting, granted, closed⟩ := p
  rcases Nat.eq_zero_or_pos free with rfl | hf
  · simp [ofLine]
  · obtain rfl : waiting = [] := h hf
    simp [ofLine, List.take_of_length_le]

/-- Those who have a permit and those who have not, where there are not enough or all have one. -/
theorem ofLine_append {front rest : List Nat}
    (h : rest = [] ∧ front.length ≤ n ∨ front.length = n) :
    ofLine n (front ++ rest) c = ⟨n - front.length, rest, front, c⟩ := by
  rcases h with ⟨rfl, hle⟩ | rfl
  · simp [ofLine, List.take_of_length_le hle, List.drop_eq_nil_of_le hle]
  · simp [ofLine]

theorem parted (n : Nat) (tickets : List Nat) :
    tickets.drop n = [] ∧ (tickets.take n).length ≤ n ∨ (tickets.take n).length = n := by
  rcases Nat.le_total tickets.length n with hle | hle
  · exact .inl ⟨List.drop_eq_nil_of_le hle, List.length_take_le n tickets⟩
  · exact .inr (List.length_take_of_le hle)

theorem request_ofLine : (ofLine n tickets c).request t = ofLine n (tickets ++ [t]) c := by
  by_cases hn : tickets.length < n
  · have hfree : 0 < n - tickets.length := Nat.sub_pos_of_lt hn
    have hle : (tickets ++ [t]).length ≤ n := by
      rw [List.length_append]
      exact hn
    simp only [ofLine, request, if_pos hfree, List.take_of_length_le hle,
      List.drop_eq_nil_of_le hle, List.take_of_length_le (Nat.le_of_lt hn),
      List.drop_eq_nil_of_le (Nat.le_of_lt hn), List.length_append, List.length_singleton,
      Nat.sub_add_eq]
  · have hle : n ≤ tickets.length := Nat.le_of_not_lt hn
    have hfree : n - tickets.length = 0 := Nat.sub_eq_zero_of_le hle
    have hfree' : n - (tickets ++ [t]).length = 0 := by
      rw [List.length_append]
      omega
    simp only [ofLine, request, hfree, hfree', Nat.lt_irrefl, if_false,
      List.drop_append_of_le_length hle, List.take_append_of_le_length hle]

theorem release_ofLine : (ofLine n tickets c).release = ofLine (n + 1) tickets c := by
  by_cases hn : n < tickets.length
  · have hdrop : tickets.drop n = tickets[n] :: tickets.drop (n + 1) :=
      List.drop_eq_getElem_cons hn
    have htake : tickets.take (n + 1) = tickets.take n ++ [tickets[n]] :=
      List.take_succ_eq_append_getElem hn
    have hfree : n + 1 - tickets.length = n - tickets.length := by omega
    simp only [ofLine, release, hdrop, htake, hfree]
  · have hle : tickets.length ≤ n := Nat.le_of_not_lt hn
    have hle' : tickets.length ≤ n + 1 := Nat.le_succ_of_le hle
    simp only [ofLine, release, List.drop_eq_nil_of_le hle, List.drop_eq_nil_of_le hle',
      List.take_of_length_le hle, List.take_of_length_le hle', Nat.sub_add_comm hle]

theorem pos_of_mem_take (h : t ∈ tickets.take n) : 0 < n := by
  rcases Nat.eq_zero_or_pos n with rfl | hn
  · cases h
  · exact hn

theorem erase_of_mem_take (h : t ∈ tickets.take n) :
    tickets.erase t = (tickets.take n).erase t ++ tickets.drop n := by
  have herase := List.erase_append_left (tickets.drop n) h
  rwa [List.take_append_drop] at herase

theorem erase_of_not_mem_take (h : t ∉ tickets.take n) :
    tickets.erase t = tickets.take n ++ (tickets.drop n).erase t := by
  have herase := List.erase_append_right (tickets.drop n) h
  rwa [List.take_append_drop] at herase

theorem claim_ofLine (h : t ∈ tickets.take n) :
    (ofLine n tickets c).claim t = ofLine (n - 1) (tickets.erase t) c := by
  have hpos := pos_of_mem_take h
  have hlen := List.length_erase_of_mem h
  have hparts : tickets.drop n = [] ∧ ((tickets.take n).erase t).length ≤ n - 1 ∨
      ((tickets.take n).erase t).length = n - 1 := by
    rw [hlen]
    exact (parted n tickets).imp (And.imp id fun hle => Nat.sub_le_sub_right hle 1)
      (congrArg (· - 1))
  have hfree : n - tickets.length = n - 1 - ((tickets.take n).erase t).length := by
    have hfirst := List.length_pos_of_mem h
    rw [hlen]
    rw [List.length_take] at hfirst ⊢
    omega
  rw [erase_of_mem_take h, ofLine_append hparts, ← hfree]
  rfl

theorem withdraw_ofLine : (ofLine n tickets c).withdraw t = ofLine n (tickets.erase t) c := by
  unfold withdraw
  split
  · rename_i hg
    have ht : t ∈ tickets.take n := List.contains_iff_mem.mp hg
    rw [claim_ofLine ht, release_ofLine, Nat.sub_add_cancel (pos_of_mem_take ht)]
  · rename_i hg
    have ht : t ∉ tickets.take n := fun hm => hg (List.contains_iff_mem.mpr hm)
    have hparts : (tickets.drop n).erase t = [] ∧ (tickets.take n).length ≤ n ∨
        (tickets.take n).length = n := by
      refine (parted n tickets).imp (And.imp (fun hnil => ?_) id) id
      rw [hnil, List.erase_nil]
    have hfree : n - tickets.length = n - (tickets.take n).length := by
      rw [List.length_take]
      omega
    rw [erase_of_not_mem_take ht, ofLine_append hparts, ← hfree]
    rfl

theorem close_ofLine : (ofLine n tickets c).close = ofLine n tickets true := rfl

theorem mem_take_erase (hu : u ∈ tickets.take n) (hne : u ≠ t) : u ∈ (tickets.erase t).take n := by
  by_cases ht : t ∈ tickets.take n
  · rw [erase_of_mem_take ht, List.take_append]
    refine List.mem_append_left _ ?_
    rw [List.take_of_length_le]
    · exact (List.mem_erase_of_ne hne).mpr hu
    · exact Nat.le_trans List.length_erase_le (List.length_take_le n tickets)
  · rw [erase_of_not_mem_take ht, List.take_append]
    refine List.mem_append_left _ ?_
    rw [List.take_of_length_le (List.length_take_le n tickets)]
    exact hu

theorem mem_take_of_granted (hu : u ∈ p.granted) :
    u ∈ (p.granted ++ p.waiting).take (p.free + p.granted.length) := by
  rw [List.take_append, List.take_of_length_le (Nat.le_add_left _ _)]
  exact List.mem_append_left _ hu

/-! ## Going away sooner or later -/

section Line

variable (hp : 0 < p.free → p.waiting = [])

include hp

theorem withdraw_release (t : Nat) : p.release.withdraw t = (p.withdraw t).release := by
  rw [eq_ofLine hp, release_ofLine, withdraw_ofLine, withdraw_ofLine, release_ofLine]

theorem withdraw_withdraw (t u : Nat) :
    (p.withdraw u).withdraw t = (p.withdraw t).withdraw u := by
  rw [eq_ofLine hp, withdraw_ofLine, withdraw_ofLine, withdraw_ofLine, withdraw_ofLine,
    List.erase_comm]

theorem withdraw_request (ht : t ∈ p.granted ++ p.waiting) (u : Nat) :
    (p.request u).withdraw t = (p.withdraw t).request u := by
  rw [eq_ofLine hp, request_ofLine, withdraw_ofLine, withdraw_ofLine, request_ofLine,
    List.erase_append_left _ ht]

theorem withdraw_request_self (ht : t ∉ p.granted ++ p.waiting) :
    (p.request t).withdraw t = p := by
  have hline (n : Nat) (c : Bool) :
      ((ofLine n (p.granted ++ p.waiting) c).request t).withdraw t =
        ofLine n (p.granted ++ p.waiting) c := by
    rw [request_ofLine, withdraw_ofLine, List.erase_append_right _ ht, List.erase_cons_head,
      List.append_nil]
  have hdealt := hline (p.free + p.granted.length) p.closed
  rwa [← eq_ofLine hp] at hdealt

theorem withdraw_close (t : Nat) : p.close.withdraw t = (p.withdraw t).close := by
  rw [eq_ofLine hp, close_ofLine, withdraw_ofLine, withdraw_ofLine, close_ofLine]

theorem release_request (u : Nat) : (p.request u).release = p.release.request u := by
  rw [eq_ofLine hp, request_ofLine, release_ofLine, release_ofLine, request_ofLine]

theorem release_close : p.close.release = p.release.close := by
  rw [eq_ofLine hp, close_ofLine, release_ofLine, release_ofLine, close_ofLine]

theorem withdraw_claim (hu : u ∈ p.granted) (hne : u ≠ t) :
    (p.claim u).withdraw t = (p.withdraw t).claim u := by
  have hu' := mem_take_of_granted hu
  rw [eq_ofLine hp, claim_ofLine hu', withdraw_ofLine, withdraw_ofLine,
    claim_ofLine (mem_take_erase hu' hne), List.erase_comm]

theorem release_claim (hu : u ∈ p.granted) : (p.claim u).release = p.release.claim u := by
  have hu' := mem_take_of_granted hu
  have hpos : 0 < p.free + p.granted.length :=
    Nat.add_pos_right _ (List.length_pos_of_mem hu)
  have hu'' : u ∈ (p.granted ++ p.waiting).take (p.free + p.granted.length + 1) :=
    List.take_subset_take_left _ (Nat.le_succ _) hu'
  rw [eq_ofLine hp, claim_ofLine hu', release_ofLine, release_ofLine, claim_ofLine hu'',
    Nat.sub_add_cancel hpos, Nat.add_sub_cancel]

end Line

end Permits

end Courier
