import Mathlib.Data.List.Nodup

/-! # Places of the elements with a property

A place in a list is what stands before it and behind it. Its number counts the elements with the
property that stand before it. -/

namespace Dmn.Occurrence

variable {α κ : Type*} (p : α → Bool)

/-- The element is the one of number `k` with the property. -/
structure At (xs : List α) (k : ℕ) (front : List α) (x : α) (back : List α) : Prop where
  split : xs = front ++ x :: back
  has : p x = true
  number : front.countP p = k

variable {p} {xs front back : List α} {x : α} {k : ℕ}

theorem At.filter (h : At p xs k front x back) :
    xs.filter p = front.filter p ++ x :: back.filter p := by
  rw [h.split, List.filter_append, List.filter_cons_of_pos h.has]

theorem At.getElem? (h : At p xs k front x back) : (xs.filter p)[k]? = some x := by
  have hlength : (front.filter p).length = k := by rw [← List.countP_eq_length_filter, h.number]
  rw [h.filter, List.getElem?_append_right (Nat.le_of_eq hlength), hlength, Nat.sub_self]
  rfl

/-- The first place. -/
theorem exists_at_zero (h : xs.find? p = some x) : ∃ front back, At p xs 0 front x back := by
  obtain ⟨hx, front, back, rfl, hfront⟩ := List.find?_eq_some_iff_append.mp h
  exact ⟨front, back, rfl, hx, List.countP_eq_zero.mpr fun a ha => by simpa using hfront a ha⟩

/-- The place behind one. -/
theorem At.ahead (h : At p xs k front x back) {y : α} (hy : back.find? p = some y) :
    ∃ front back, At p xs (k + 1) front y back := by
  obtain ⟨hp, before, behind, rfl, hbefore⟩ := List.find?_eq_some_iff_append.mp hy
  refine ⟨front ++ x :: before, behind, ?_, hp, ?_⟩
  · rw [h.split, List.append_assoc, List.cons_append]
  · have hnone : before.countP p = 0 :=
      List.countP_eq_zero.mpr fun a ha => by simpa using hbefore a ha
    rw [List.countP_append, List.countP_cons_of_pos h.has, h.number, hnone]

/-- The place before one. -/
theorem At.behind (h : At p xs k front x back) {y : α} (hy : front.reverse.find? p = some y) :
    ∃ j front back, k = j + 1 ∧ At p xs j front y back := by
  obtain ⟨hp, before, behind, hreverse, hbefore⟩ := List.find?_eq_some_iff_append.mp hy
  have hfront : front = behind.reverse ++ y :: before.reverse := by
    rw [← List.reverse_reverse front, hreverse, List.reverse_append, List.reverse_cons,
      List.append_assoc, List.singleton_append]
  have hnone : before.reverse.countP p = 0 := by
    rw [List.countP_reverse]
    exact List.countP_eq_zero.mpr fun a ha => by simpa using hbefore a ha
  refine ⟨behind.reverse.countP p, behind.reverse, before.reverse ++ x :: back, ?_, ?_, hp, rfl⟩
  · rw [← h.number, hfront, List.countP_append, List.countP_cons_of_pos hp, hnone]
  · rw [h.split, hfront, List.append_assoc, List.cons_append]

/-- The last place has none behind it. -/
theorem At.find?_back (h : At p xs k front x back) :
    back.find? p = (xs.filter p)[k + 1]? := by
  have hlength : (front.filter p).length = k := by rw [← List.countP_eq_length_filter, h.number]
  rw [h.filter, List.getElem?_append_right (by omega), hlength, Nat.add_sub_cancel_left,
    List.getElem?_cons_succ, ← List.head?_eq_getElem?, List.head?_filter]

/-- The first place has none before it. -/
theorem At.find?_front (h : At p xs k front x back) :
    front.reverse.find? p = if k = 0 then none else (xs.filter p)[k - 1]? := by
  have hlength : (front.filter p).length = k := by rw [← List.countP_eq_length_filter, h.number]
  rw [← List.head?_filter, List.filter_reverse, List.head?_reverse, List.getLast?_eq_getElem?,
    hlength, h.filter]
  by_cases hk : k = 0
  · rw [if_pos hk, List.length_eq_zero_iff.mp (hlength.trans hk)]
    rfl
  · rw [if_neg hk, List.getElem?_append_left (by omega)]

/-! ## Keys -/

section Keys

variable [DecidableEq κ] (key : α → κ)

/-- What stands before an element, which its key tells apart. -/
theorem takeWhile_key (hkeys : ((front ++ x :: back).map key).Nodup) :
    (front ++ x :: back).takeWhile (fun a => key a ≠ key x) = front := by
  have hne : ∀ a ∈ front, key a ≠ key x := by
    intro a ha heq
    rw [List.map_append, List.map_cons, List.nodup_append] at hkeys
    exact hkeys.2.2 (key a) (List.mem_map_of_mem ha) (key x) List.mem_cons_self heq
  rw [List.takeWhile_append_of_pos (by simpa using hne), List.takeWhile_cons_of_neg (by simp),
    List.append_nil]

theorem dropWhile_key (hkeys : ((front ++ x :: back).map key).Nodup) :
    (front ++ x :: back).dropWhile (fun a => key a ≠ key x) = x :: back := by
  have hall := List.takeWhile_append_dropWhile (p := fun a => key a ≠ key x)
    (l := front ++ x :: back)
  rw [takeWhile_key key hkeys] at hall
  exact List.append_cancel_left hall

end Keys

end Dmn.Occurrence
