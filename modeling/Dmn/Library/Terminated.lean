import Mathlib.Data.List.TakeWhile

/-! # Terminated texts

A text ends before the first occurrence of a symbol, whatever is behind it. -/

namespace Dmn.Terminated

variable {α : Type*} [DecidableEq α] {stop : α} {text : List α}

/-! ## In front of the symbol -/

theorem notMem_takeWhile (stop : α) (xs : List α) : stop ∉ xs.takeWhile (· ≠ stop) := by
  intro h
  simpa using List.mem_takeWhile_imp h

theorem forall_ne (h : stop ∉ text) : ∀ a ∈ text, decide (a ≠ stop) = true := by
  intro a ha
  apply decide_eq_true
  rintro rfl
  exact h ha

theorem takeWhile_append (h : stop ∉ text) (xs : List α) :
    (text ++ xs).takeWhile (· ≠ stop) = text ++ xs.takeWhile (· ≠ stop) :=
  List.takeWhile_append_of_pos (forall_ne h)

theorem takeWhile_append_cons (h : stop ∉ text) (xs : List α) :
    (text ++ stop :: xs).takeWhile (· ≠ stop) = text := by
  rw [takeWhile_append h]
  simp

theorem dropWhile_append_cons (h : stop ∉ text) (xs : List α) :
    (text ++ stop :: xs).dropWhile (· ≠ stop) = stop :: xs := by
  rw [List.dropWhile_append_of_pos (forall_ne h)]
  simp

theorem takeWhile_of_notMem (h : stop ∉ text) : text.takeWhile (· ≠ stop) = text := by
  simpa using takeWhile_append h []

/-- A text that is cut at the symbol is one that has no such symbol, as it is. -/
theorem takeWhile_eq_iff {xs : List α} (h : stop ∈ xs → stop ∈ text) :
    xs.takeWhile (· ≠ stop) = text ↔ xs = text ∧ stop ∉ text := by
  constructor
  · intro heq
    have htext : stop ∉ text := heq ▸ notMem_takeWhile stop xs
    rw [takeWhile_of_notMem (mt h htext)] at heq
    exact ⟨heq, htext⟩
  · rintro ⟨rfl, htext⟩
    exact takeWhile_of_notMem htext

/-! ## Cutting at the symbol -/

theorem length_takeWhile_lt {xs : List α} (h : stop ∈ xs) :
    (xs.takeWhile (· ≠ stop)).length < xs.length := by
  induction xs with
  | nil => simp at h
  | cons x xs ih =>
    by_cases hstop : x = stop
    · simp [hstop]
    · have hrest : stop ∈ xs := (List.mem_cons.mp h).resolve_left (Ne.symm hstop)
      simpa [hstop] using ih hrest

theorem take_length_takeWhile (stop : α) (xs : List α) :
    xs.take (xs.takeWhile (· ≠ stop)).length = xs.takeWhile (· ≠ stop) :=
  (List.prefix_iff_eq_take.mp (List.takeWhile_prefix _)).symm

theorem drop_length_takeWhile (stop : α) (xs : List α) :
    xs.drop ((xs.takeWhile (· ≠ stop)).length + 1) = (xs.dropWhile (· ≠ stop)).drop 1 := by
  have hdrop := @List.drop_length_add_append _ (xs.takeWhile (· ≠ stop))
    (xs.dropWhile (· ≠ stop)) 1
  rwa [List.takeWhile_append_dropWhile] at hdrop

/-! ## The position of the symbol -/

/-- Where a text of a longer one ends, if it does. -/
def position (stop : α) (xs : List α) : Option ℕ :=
  if stop ∈ xs then some (xs.takeWhile (· ≠ stop)).length else none

theorem position_of_mem {xs : List α} (h : stop ∈ xs) :
    position stop xs = some (xs.takeWhile (· ≠ stop)).length := if_pos h

theorem position_of_notMem {xs : List α} (h : stop ∉ xs) : position stop xs = none := if_neg h

theorem position_cons_self (stop : α) (xs : List α) : position stop (stop :: xs) = some 0 := by
  simp [position]

theorem position_cons_of_ne {a : α} (h : a ≠ stop) (xs : List α) :
    position stop (a :: xs) = (position stop xs).map (· + 1) := by
  by_cases hstop : stop ∈ xs
  · rw [position_of_mem hstop, position_of_mem (List.mem_cons_of_mem a hstop)]
    simp [h]
  · rw [position_of_notMem hstop, position_of_notMem (by simp [hstop, Ne.symm h])]
    rfl

end Dmn.Terminated
