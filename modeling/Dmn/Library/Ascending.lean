import Mathlib.Data.List.Pairwise

/-! # Going through an ascending list by its elements

A cursor is the element that was found last. -/

namespace Dmn.Ascending

variable {α : Type*} (r : α → α → Prop) [DecidableRel r]

/-- The element behind the cursor, or the first one. -/
def next (xs : List α) : Option α → Option α
  | none => xs.head?
  | some cursor => xs.find? fun x => r cursor x

/-- The elements that are still to be found. -/
def ahead (xs : List α) : Option α → List α
  | none => xs
  | some cursor => xs.filter fun x => r cursor x

variable {r} {xs : List α} {cursor : Option α} {x : α}

theorem ahead_eq_nil (h : next r xs cursor = none) : ahead r xs cursor = [] := by
  cases cursor with
  | none => exact List.head?_eq_none_iff.mp h
  | some cursor =>
      refine List.filter_eq_nil_iff.mpr fun y hy => ?_
      exact List.find?_eq_none.mp h y hy

/-- In an ascending list, a cursor is behind the elements in front of it. -/
theorem filter_behind (hasymm : ∀ a b, r a b → ¬ r b a) {behind rest : List α}
    (hsorted : (behind ++ x :: rest).Pairwise r) :
    (behind ++ x :: rest).filter (fun y => r x y) = rest := by
  obtain ⟨-, hrest, hbehind⟩ := List.pairwise_append.mp hsorted
  have hdropped : behind.filter (fun y => r x y) = [] := by
    refine List.filter_eq_nil_iff.mpr fun y hy => ?_
    simpa using hasymm y x (hbehind y hy x List.mem_cons_self)
  have hself : ¬ r x x := fun h => hasymm x x h h
  have hkept : rest.filter (fun y => r x y) = rest := by
    refine List.filter_eq_self.mpr fun y hy => ?_
    simpa using (List.pairwise_cons.mp hrest).1 y hy
  rw [List.filter_append, hdropped, List.filter_cons_of_neg (by simpa using hself), hkept]
  rfl

/-- What is found is the first one of the elements ahead. -/
theorem ahead_next (htrans : ∀ a b c, r a b → r b c → r a c) (hasymm : ∀ a b, r a b → ¬ r b a)
    (hsorted : xs.Pairwise r) (h : next r xs cursor = some x) :
    ahead r xs cursor = x :: ahead r xs (some x) := by
  cases cursor with
  | none =>
      obtain ⟨rest, rfl⟩ := List.head?_eq_some_iff.mp h
      have hrest : (x :: rest).filter (fun y => r x y) = rest := by
        have hbehind : ([] ++ x :: rest).Pairwise r := hsorted
        exact filter_behind hasymm hbehind
      exact congrArg (x :: ·) hrest.symm
  | some cursor =>
      obtain ⟨hx, behind, rest, rfl, hbehind⟩ := List.find?_eq_some_iff_append.mp h
      have hlt : r cursor x := by simpa using hx
      have hdropped : behind.filter (fun y => r cursor y) = [] := by
        refine List.filter_eq_nil_iff.mpr fun y hy => ?_
        simpa using hbehind y hy
      have hkept : rest.filter (fun y => r cursor y) = rest := by
        refine List.filter_eq_self.mpr fun y hy => ?_
        have hxy := (List.pairwise_cons.mp (List.pairwise_append.mp hsorted).2.1).1 y hy
        simpa using htrans cursor x y hlt hxy
      show (behind ++ x :: rest).filter (fun y => r cursor y) =
        x :: (behind ++ x :: rest).filter (fun y => r x y)
      rw [filter_behind hasymm hsorted, List.filter_append, hdropped,
        List.filter_cons_of_pos (by simpa using hlt), hkept]
      rfl

end Dmn.Ascending
