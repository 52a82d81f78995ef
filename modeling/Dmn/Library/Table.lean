import Mathlib.Tactic.TypeStar

/-! # Keyed tables

A table is a list of rows with a key. An operation on a key concerns the first row
that has it. -/

namespace Dmn.Table

variable {α κ : Type*} [DecidableEq κ] (key : α → κ)

/-- The first row with this key. -/
def lookup (k : κ) (rows : List α) : Option α := rows.find? fun row => key row = k

/-- Put a row in the place of the first one with its key, or behind all rows. -/
def put (x : α) : List α → List α
  | [] => [x]
  | row :: rows => if key row = key x then x :: rows else row :: put x rows

/-- Change the first row with this key. -/
def modify (k : κ) (f : α → α) : List α → List α
  | [] => []
  | row :: rows => if key row = k then f row :: rows else row :: modify k f rows

/-- Drop all rows with this key. -/
def erase (k : κ) (rows : List α) : List α := rows.filter fun row => key row ≠ k

/-! ## Lookup -/

theorem lookup_cons_of_eq {k : κ} {row : α} (rows : List α) (h : key row = k) :
    lookup key k (row :: rows) = some row := by
  simp [lookup, h]

theorem lookup_cons_of_ne {k : κ} {row : α} (rows : List α) (h : key row ≠ k) :
    lookup key k (row :: rows) = lookup key k rows := by
  simp [lookup, h]

theorem key_of_lookup {k : κ} {rows : List α} {row : α} (h : lookup key k rows = some row) :
    key row = k := by
  simpa using List.find?_some h

theorem mem_of_lookup {k : κ} {rows : List α} {row : α} (h : lookup key k rows = some row) :
    row ∈ rows :=
  List.mem_of_find?_eq_some h

theorem lookup_eq_none_iff {k : κ} {rows : List α} :
    lookup key k rows = none ↔ ∀ row ∈ rows, key row ≠ k := by
  simp [lookup]

theorem lookup_of_mem {rows : List α} {row : α} (h : row ∈ rows) (hkeys : (rows.map key).Nodup) :
    lookup key (key row) rows = some row := by
  induction rows with
  | nil => cases h
  | cons first rows ih =>
      rw [List.map_cons, List.nodup_cons] at hkeys
      rcases List.mem_cons.mp h with rfl | hmem
      · exact lookup_cons_of_eq key rows rfl
      · have hne : key first ≠ key row := by
          intro heq
          rw [heq] at hkeys
          exact hkeys.1 (List.mem_map_of_mem hmem)
        rw [lookup_cons_of_ne key rows hne]
        exact ih hmem hkeys.2

/-- Rows with one key are one row. -/
theorem eq_of_key_eq {rows : List α} {row row' : α} (h : row ∈ rows) (h' : row' ∈ rows)
    (hkeys : (rows.map key).Nodup) (heq : key row = key row') : row = row' := by
  have hrow := lookup_of_mem key h hkeys
  rw [heq, lookup_of_mem key h' hkeys] at hrow
  exact (Option.some.inj hrow).symm

theorem exists_lookup_of_findIdx? {k : κ} {rows : List α} {i : Nat}
    (h : rows.findIdx? (fun row => key row = k) = some i) :
    ∃ row, lookup key k rows = some row := by
  obtain ⟨hi, hkey, _⟩ := List.findIdx?_eq_some_iff_getElem.mp h
  rw [← Option.isSome_iff_exists, lookup, List.find?_isSome]
  exact ⟨rows[i], List.getElem_mem hi, hkey⟩

/-! ## Putting a row -/

theorem lookup_put_self (x : α) (rows : List α) :
    lookup key (key x) (put key x rows) = some x := by
  induction rows with
  | nil => exact lookup_cons_of_eq key [] rfl
  | cons row rows ih =>
      by_cases h : key row = key x
      · simp only [put, if_pos h]
        exact lookup_cons_of_eq key rows rfl
      · simp only [put, if_neg h]
        rw [lookup_cons_of_ne key _ h]
        exact ih

theorem lookup_put_of_ne {k : κ} {x : α} (rows : List α) (h : key x ≠ k) :
    lookup key k (put key x rows) = lookup key k rows := by
  induction rows with
  | nil => exact lookup_cons_of_ne key [] h
  | cons row rows ih =>
      by_cases hrow : key row = key x
      · have hk : key row ≠ k := by
          rw [hrow]
          exact h
        simp only [put, if_pos hrow]
        rw [lookup_cons_of_ne key _ h, lookup_cons_of_ne key _ hk]
      · simp only [put, if_neg hrow]
        by_cases hk : key row = k
        · rw [lookup_cons_of_eq key _ hk, lookup_cons_of_eq key _ hk]
        · rw [lookup_cons_of_ne key _ hk, lookup_cons_of_ne key _ hk, ih]

/-- Putting the row that is there changes nothing. -/
theorem put_of_lookup {x : α} {rows : List α} (h : lookup key (key x) rows = some x) :
    put key x rows = rows := by
  induction rows with
  | nil => cases h
  | cons row rows ih =>
      by_cases hrow : key row = key x
      · rw [lookup_cons_of_eq key _ hrow] at h
        cases h
        simp [put]
      · rw [lookup_cons_of_ne key _ hrow] at h
        simp only [put, if_neg hrow]
        rw [ih h]

theorem put_of_lookup_none {x : α} {rows : List α} (h : lookup key (key x) rows = none) :
    put key x rows = rows ++ [x] := by
  induction rows with
  | nil => rfl
  | cons row rows ih =>
      have hrow : key row ≠ key x := (lookup_eq_none_iff key).mp h row (by simp)
      rw [lookup_cons_of_ne key _ hrow] at h
      simp only [put, if_neg hrow]
      rw [ih h]
      rfl

/-- A row is put behind all rows, or in the place of the first one with its key. -/
theorem put_cases (x : α) (rows : List α) :
    (∀ row ∈ rows, key row ≠ key x) ∧ put key x rows = rows ++ [x] ∨
      ∃ front old back, rows = front ++ old :: back ∧ key old = key x ∧
        (∀ row ∈ front, key row ≠ key x) ∧ put key x rows = front ++ x :: back := by
  induction rows with
  | nil => exact .inl ⟨nofun, rfl⟩
  | cons row rows ih =>
      by_cases hkey : key row = key x
      · exact .inr ⟨[], row, rows, rfl, hkey, nofun, by simp [put, hkey]⟩
      · have hput : put key x (row :: rows) = row :: put key x rows := if_neg hkey
        rw [hput]
        rcases ih with ⟨hnone, hlast⟩ | ⟨front, old, back, rfl, hold, hfront, hplace⟩
        · left
          rw [hlast]
          exact ⟨List.forall_mem_cons.mpr ⟨hkey, hnone⟩, rfl⟩
        · right
          rw [hplace]
          exact ⟨row :: front, old, back, rfl, hold,
            List.forall_mem_cons.mpr ⟨hkey, hfront⟩, rfl⟩

theorem lookup_append_of_none {k : κ} {rows : List α} (x : α) (h : lookup key k rows = none)
    (hx : key x = k) : lookup key k (rows ++ [x]) = some x := by
  induction rows with
  | nil => exact lookup_cons_of_eq key [] hx
  | cons row rows ih =>
      have hrow : key row ≠ k := (lookup_eq_none_iff key).mp h row (by simp)
      rw [lookup_cons_of_ne key _ hrow] at h
      rw [List.cons_append, lookup_cons_of_ne key _ hrow]
      exact ih h

/-! ## Changing a row -/

/-- A changed row is found under its new key, unless another row has that key. -/
theorem lookup_modify {k k' : κ} {f : α → α} {rows : List α} {row : α}
    (h : lookup key k rows = some row) (hkey : key (f row) = k')
    (hfree : k' = k ∨ lookup key k' rows = none) :
    lookup key k' (modify key k f rows) = some (f row) := by
  induction rows with
  | nil => cases h
  | cons first rows ih =>
      by_cases hfirst : key first = k
      · rw [lookup_cons_of_eq key _ hfirst] at h
        cases h
        rw [modify, if_pos hfirst]
        exact lookup_cons_of_eq key _ hkey
      · have hne : key first ≠ k' := by
          rcases hfree with heq | hnone
          · rw [heq]
            exact hfirst
          · exact (lookup_eq_none_iff key).mp hnone first (by simp)
        rw [lookup_cons_of_ne key _ hfirst] at h
        rw [lookup_cons_of_ne key _ hne] at hfree
        rw [modify, if_neg hfirst, lookup_cons_of_ne key _ hne]
        exact ih h hfree

theorem lookup_modify_of_ne {k k' : κ} {f : α → α} (h : ∀ row, key (f row) = key row)
    (rows : List α) (hne : k' ≠ k) : lookup key k' (modify key k f rows) = lookup key k' rows := by
  induction rows with
  | nil => rfl
  | cons row rows ih =>
      by_cases hrow : key row = k
      · have hkey : key row ≠ k' := fun heq => hne (heq.symm.trans hrow)
        rw [modify, if_pos hrow, lookup_cons_of_ne key _ (by rwa [h]), lookup_cons_of_ne key _ hkey]
      · by_cases hkey : key row = k'
        · rw [modify, if_neg hrow, lookup_cons_of_eq key _ hkey, lookup_cons_of_eq key _ hkey]
        · rw [modify, if_neg hrow, lookup_cons_of_ne key _ hkey, lookup_cons_of_ne key _ hkey, ih]

/-- A change that leaves the row it is about. -/
theorem modify_eq_self {k : κ} {f : α → α} {rows : List α}
    (h : ∀ row, lookup key k rows = some row → f row = row) : modify key k f rows = rows := by
  induction rows with
  | nil => rfl
  | cons row rows ih =>
      by_cases hrow : key row = k
      · rw [modify, if_pos hrow, h row (lookup_cons_of_eq key rows hrow)]
      · rw [modify, if_neg hrow, ih]
        intro found hfound
        rw [← lookup_cons_of_ne key rows hrow] at hfound
        exact h found hfound

/-- A change that is undone. -/
theorem modify_modify_of_inverse {k : κ} {f g : α → α} (hkey : ∀ row, key (g row) = key row)
    (hinverse : ∀ row, f (g row) = row) (rows : List α) :
    modify key k f (modify key k g rows) = rows := by
  induction rows with
  | nil => rfl
  | cons row rows ih =>
      by_cases hrow : key row = k
      · rw [modify, if_pos hrow, modify, if_pos (by rwa [hkey]), hinverse]
      · rw [modify, if_neg hrow, modify, if_neg hrow, ih]

/-- Only the first row with the key is changed. -/
theorem getElem?_modify (k : κ) (f : α → α) (rows : List α) (i : Nat) :
    (modify key k f rows)[i]? =
      if rows.findIdx? (fun row => key row = k) = some i then (rows[i]?).map f else rows[i]? := by
  induction rows generalizing i with
  | nil => simp [modify]
  | cons row rows ih =>
      by_cases hrow : key row = k
      · cases i with
        | zero => simp [modify, hrow, List.findIdx?_cons]
        | succ i => simp [modify, hrow, List.findIdx?_cons]
      · cases i with
        | zero => simp [modify, hrow, List.findIdx?_cons]
        | succ i => simp [modify, hrow, List.findIdx?_cons, ih]

/-- A change that keeps the keys keeps every row in its place. -/
theorem findIdx?_modify {k : κ} {f : α → α} (h : ∀ row, key (f row) = key row) (k' : κ)
    (rows : List α) :
    (modify key k f rows).findIdx? (fun row => key row = k') =
      rows.findIdx? (fun row => key row = k') := by
  induction rows with
  | nil => rfl
  | cons row rows ih =>
      by_cases hrow : key row = k
      · simp [modify, hrow, List.findIdx?_cons, h]
      · simp [modify, hrow, List.findIdx?_cons, ih]

theorem modify_append_of_none {k : κ} {f : α → α} {rows : List α} {x : α}
    (h : lookup key k rows = none) (hx : key x = k) :
    modify key k f (rows ++ [x]) = rows ++ [f x] := by
  induction rows with
  | nil => exact if_pos hx
  | cons row rows ih =>
      have hrow : key row ≠ k := (lookup_eq_none_iff key).mp h row List.mem_cons_self
      rw [lookup_cons_of_ne key rows hrow] at h
      rw [List.cons_append, modify, if_neg hrow, ih h, List.cons_append]

theorem map_modify {β : Type*} {g : α → β} {k : κ} {f : α → α}
    (h : ∀ row, g (f row) = g row) (rows : List α) : (modify key k f rows).map g = rows.map g := by
  induction rows with
  | nil => rfl
  | cons row rows ih =>
      by_cases hrow : key row = k
      · simp [modify, hrow, h]
      · simp [modify, hrow, ih]

/-- A change that keeps the keys keeps what is true of them. -/
theorem forall_key_modify {p : κ → Prop} {k : κ} {f : α → α} {rows : List α}
    (hf : ∀ row, key (f row) = key row) (h : ∀ row ∈ rows, p (key row)) :
    ∀ row ∈ modify key k f rows, p (key row) := by
  intro row hrow
  have hmem : key row ∈ (modify key k f rows).map key := List.mem_map_of_mem hrow
  rw [map_modify key hf] at hmem
  obtain ⟨other, hother, heq⟩ := List.mem_map.mp hmem
  exact heq ▸ h other hother

/-- A row is the changed one, or was there under another key. -/
theorem mem_modify {k : κ} {f : α → α} {rows : List α} {row row' : α}
    (h : lookup key k rows = some row) (hkeys : (rows.map key).Nodup)
    (hmem : row' ∈ modify key k f rows) : row' = f row ∨ row' ∈ rows ∧ key row' ≠ k := by
  induction rows with
  | nil => cases hmem
  | cons first rows ih =>
      rw [List.map_cons, List.nodup_cons] at hkeys
      by_cases hfirst : key first = k
      · rw [lookup_cons_of_eq key _ hfirst] at h
        cases h
        rw [modify, if_pos hfirst] at hmem
        rcases List.mem_cons.mp hmem with rfl | hrest
        · exact .inl rfl
        · refine .inr ⟨List.mem_cons_of_mem _ hrest, fun heq => hkeys.1 ?_⟩
          rw [hfirst, ← heq]
          exact List.mem_map_of_mem hrest
      · rw [lookup_cons_of_ne key _ hfirst] at h
        rw [modify, if_neg hfirst] at hmem
        rcases List.mem_cons.mp hmem with rfl | hrest
        · exact .inr ⟨List.mem_cons_self, hfirst⟩
        · rcases ih h hkeys.2 hrest with heq | ⟨hold, hne⟩
          · exact .inl heq
          · exact .inr ⟨List.mem_cons_of_mem _ hold, hne⟩

theorem mem_modify_of_ne {k : κ} {f : α → α} {rows : List α} {row : α} (h : row ∈ rows)
    (hne : key row ≠ k) : row ∈ modify key k f rows := by
  induction rows with
  | nil => cases h
  | cons first rows ih =>
      by_cases hfirst : key first = k
      · rw [modify, if_pos hfirst]
        rcases List.mem_cons.mp h with rfl | hrest
        · exact absurd hfirst hne
        · exact List.mem_cons_of_mem _ hrest
      · rw [modify, if_neg hfirst]
        rcases List.mem_cons.mp h with rfl | hrest
        · exact List.mem_cons_self
        · exact List.mem_cons_of_mem _ (ih hrest)

theorem mem_modify_self {k : κ} {f : α → α} {rows : List α} {row : α}
    (h : lookup key k rows = some row) : f row ∈ modify key k f rows := by
  induction rows with
  | nil => cases h
  | cons first rows ih =>
      by_cases hfirst : key first = k
      · rw [lookup_cons_of_eq key _ hfirst] at h
        cases h
        rw [modify, if_pos hfirst]
        exact List.mem_cons_self
      · rw [lookup_cons_of_ne key _ hfirst] at h
        rw [modify, if_neg hfirst]
        exact List.mem_cons_of_mem _ (ih h)

theorem countP_modify {k : κ} {f : α → α} {rows : List α} {row : α} (p : α → Bool)
    (h : lookup key k rows = some row) :
    (modify key k f rows).countP p + (if p row then 1 else 0) =
      rows.countP p + (if p (f row) then 1 else 0) := by
  induction rows with
  | nil => cases h
  | cons first rows ih =>
      by_cases hfirst : key first = k
      · rw [lookup_cons_of_eq key _ hfirst] at h
        cases h
        simp only [modify, if_pos hfirst, List.countP_cons]
        omega
      · rw [lookup_cons_of_ne key _ hfirst] at h
        have hrest := ih h
        simp only [modify, if_neg hfirst, List.countP_cons]
        omega

/-! ## Dropping rows -/

theorem erase_cons (k : κ) (row : α) (rows : List α) : erase key k (row :: rows) =
    if key row = k then erase key k rows else row :: erase key k rows := by
  by_cases h : key row = k
  · simp [erase, h]
  · simp [erase, h]

theorem mem_erase_iff {k : κ} {rows : List α} {row : α} :
    row ∈ erase key k rows ↔ row ∈ rows ∧ key row ≠ k := by
  simp [erase]

theorem erase_of_lookup_none {k : κ} {rows : List α} (h : lookup key k rows = none) :
    erase key k rows = rows := by
  rw [lookup_eq_none_iff] at h
  rw [erase, List.filter_eq_self]
  intro row hrow
  simpa using h row hrow

/-- One row is dropped if the keys differ. -/
theorem erase_append_of_none {k : κ} {rows : List α} {x : α} (h : lookup key k rows = none)
    (hx : key x = k) : erase key k (rows ++ [x]) = rows := by
  rw [erase, List.filter_append, ← erase, erase_of_lookup_none key h]
  simp [hx]

theorem countP_erase {k : κ} {rows : List α} {row : α} (p : α → Bool)
    (h : lookup key k rows = some row) (hkeys : (rows.map key).Nodup) :
    (erase key k rows).countP p + (if p row then 1 else 0) = rows.countP p := by
  induction rows with
  | nil => cases h
  | cons first rows ih =>
      rw [List.map_cons, List.nodup_cons] at hkeys
      by_cases hfirst : key first = k
      · rw [lookup_cons_of_eq key _ hfirst] at h
        cases h
        have hnone : lookup key k rows = none := by
          rw [lookup_eq_none_iff]
          intro other hother heq
          apply hkeys.1
          rw [hfirst, ← heq]
          exact List.mem_map_of_mem hother
        rw [erase_cons, if_pos hfirst, erase_of_lookup_none key hnone, List.countP_cons]
      · rw [lookup_cons_of_ne key _ hfirst] at h
        have hrest := ih h hkeys.2
        rw [erase_cons, if_neg hfirst, List.countP_cons, List.countP_cons]
        omega

theorem lookup_erase_self (k : κ) (rows : List α) : lookup key k (erase key k rows) = none := by
  rw [lookup_eq_none_iff]
  intro row hrow
  simpa [erase] using (List.mem_filter.mp hrow).2

theorem lookup_erase_of_ne {k k' : κ} (rows : List α) (hne : k' ≠ k) :
    lookup key k' (erase key k rows) = lookup key k' rows := by
  induction rows with
  | nil => rfl
  | cons row rows ih =>
      rw [erase_cons]
      by_cases hrow : key row = k
      · have hkey : key row ≠ k' := fun heq => hne (heq.symm.trans hrow)
        rw [if_pos hrow, ih, lookup_cons_of_ne key _ hkey]
      · rw [if_neg hrow]
        by_cases hkey : key row = k'
        · rw [lookup_cons_of_eq key _ hkey, lookup_cons_of_eq key _ hkey]
        · rw [lookup_cons_of_ne key _ hkey, lookup_cons_of_ne key _ hkey, ih]

/-- Rows that were erased and put stay so when that is done again, however far it got. -/
theorem put_put_erase_again {k : κ} {x y : α} (rows : List α) (hx : key x ≠ k) (hy : key y ≠ k)
    (hxy : key y ≠ key x) : ∀ rows' ∈ [rows, erase key k rows, put key x (erase key k rows),
      put key y (put key x (erase key k rows))],
        put key y (put key x (erase key k rows')) = put key y (put key x (erase key k rows)) := by
  have herased : lookup key k (erase key k rows) = none := lookup_erase_self key k rows
  have hput : lookup key k (put key x (erase key k rows)) = none := by
    rw [lookup_put_of_ne key _ hx, herased]
  have hputs : lookup key k (put key y (put key x (erase key k rows))) = none := by
    rw [lookup_put_of_ne key _ hy, hput]
  have hx' : lookup key (key x) (put key y (put key x (erase key k rows))) = some x := by
    rw [lookup_put_of_ne key _ hxy, lookup_put_self]
  intro rows' hrows'
  simp only [List.mem_cons, List.not_mem_nil, or_false] at hrows'
  rcases hrows' with rfl | rfl | rfl | rfl
  · rfl
  · rw [erase_of_lookup_none key herased]
  · rw [erase_of_lookup_none key hput, put_of_lookup key (lookup_put_self key x _)]
  · rw [erase_of_lookup_none key hputs, put_of_lookup key hx',
      put_of_lookup key (lookup_put_self key y _)]

end Dmn.Table
