import Dmn.Verification.Design.Saving
import Dmn.Verification.Formula.Attempts

/-! # Saving a view design after a failed attempt

A failed attempt is harmless up to the place where it changes the formula of the first column. From
there on that formula has an item name, which the next attempt refuses. -/

namespace Dmn.Design

/-- A change of a column that removes the cause of a failed attempt. -/
inductive Edit where
  | formula (i : Nat) (formula : List UInt8)
  | itemName (i : Nat) (itemName : List UInt8)
  | sorting (i : Nat) (sort : Sorting) (categorized : Bool)

namespace Edit

def index : Edit → Nat
  | .formula i _ | .itemName i _ | .sorting i _ _ => i

def change (codePage : CharCode Char UInt8) : Edit → Column → Column
  | .formula _ code, column => column.setFormula code
  | .itemName _ name, column => column.setItemName codePage name
  | .sorting _ sort categorized, column => column.setSorting sort categorized

def apply (codePage : CharCode Char UInt8) (edit : Edit) : View → View :=
  View.modifyColumn edit.index (edit.change codePage)

end Edit

namespace View

open Exec Native

variable (env : Env)

def edited (edits : List Edit) (v : View) : View :=
  edits.foldl (fun v edit => edit.apply env.codePage v) v

/-! ## The first column -/

def firstFormula (v : View) : List UInt8 := ((v.columns[0]?).map Column.formula).getD []

def firstName (v : View) : List UInt8 := ((v.columns[0]?).map Column.itemName).getD []

def firstTitle (v : View) : List UInt8 := ((v.columns[0]?).map Column.title).getD []

def setFirst (formula : List UInt8) : View → View :=
  modifyColumn 0 fun column => { column with formula := formula }

theorem exec_withFormula_zero {α : Type} (x : Formula.M α) (s : Called View) :
    exec (withFormula 0 x) s = ((exec x ⟨s.calls, firstFormula s.value⟩).1,
      ⟨(exec x ⟨s.calls, firstFormula s.value⟩).2.calls,
        setFirst (exec x ⟨s.calls, firstFormula s.value⟩).2.value s.value⟩) := rfl

@[simp] theorem setFirst_firstFormula (v : View) : setFirst (firstFormula v) v = v := by
  cases v with
  | mk items selection tableFormat tableFormat2 columns =>
      cases columns <;> simp [setFirst, firstFormula, modifyColumn]

@[simp] theorem setFirst_setFirst (formula formula' : List UInt8) (v : View) :
    setFirst formula (setFirst formula' v) = setFirst formula v := by
  simp [setFirst, modifyColumn, List.modify_modify_eq, Function.comp_def]

theorem firstFormula_setFirst (formula : List UInt8) {v : View} (hcolumns : v.columns ≠ []) :
    firstFormula (setFirst formula v) = formula := by
  obtain ⟨column, columns, hlist⟩ := List.exists_cons_of_ne_nil hcolumns
  simp [setFirst, firstFormula, modifyColumn, hlist]

@[simp] theorem firstName_setFirst (formula : List UInt8) (v : View) :
    firstName (setFirst formula v) = firstName v := by
  cases hlist : v.columns <;> simp [setFirst, firstName, modifyColumn, hlist]

@[simp] theorem firstTitle_setFirst (formula : List UInt8) (v : View) :
    firstTitle (setFirst formula v) = firstTitle v := by
  cases hlist : v.columns <;> simp [setFirst, firstTitle, modifyColumn, hlist]

theorem nameColumn_zero_of_nil {v : View} (h : v.columns = []) : nameColumn 0 v = v := by
  simp [nameColumn, h]

theorem nameColumn_zero_of_ne {v : View} (h : firstName v ≠ []) : nameColumn 0 v = v := by
  cases hlist : v.columns with
  | nil => exact nameColumn_zero_of_nil hlist
  | cons column columns =>
      have hname : column.itemName ≠ [] := by simpa [firstName, hlist] using h
      simp [nameColumn, hlist, hname]

@[simp] theorem nameColumn_setFirst (formula : List UInt8) (v : View) :
    nameColumn 0 (setFirst formula v) = setFirst formula (nameColumn 0 v) := by
  cases hlist : v.columns with
  | nil => simp [nameColumn, setFirst, modifyColumn, hlist]
  | cons column columns =>
      by_cases hname : column.itemName = [] <;>
        simp [nameColumn, setFirst, modifyColumn, hlist, hname]

@[simp] theorem firstFormula_nameColumn (v : View) :
    firstFormula (nameColumn 0 v) = firstFormula v := by
  cases hlist : v.columns with
  | nil => rw [nameColumn_zero_of_nil hlist]
  | cons column columns =>
      by_cases hname : column.itemName = [] <;>
        simp [nameColumn, firstFormula, modifyColumn, hlist, hname]

theorem makeItemName_ne_nil (sequence : UInt16) : makeItemName sequence ≠ [] := by
  simp [makeItemName, Lmbcs.asciiBytes]

theorem length_nameColumn (i : Nat) (v : View) :
    (nameColumn i v).columns.length = v.columns.length := by
  unfold nameColumn
  cases v.columns[i]? with
  | none => rfl
  | some column =>
      by_cases hname : column.itemName = [] <;> simp [hname, modifyColumn]

@[simp] theorem nameColumn_nameColumn (v : View) :
    nameColumn 0 (nameColumn 0 v) = nameColumn 0 v := by
  cases hlist : v.columns with
  | nil => rw [nameColumn_zero_of_nil hlist, nameColumn_zero_of_nil hlist]
  | cons column columns =>
      apply nameColumn_zero_of_ne
      by_cases hname : column.itemName = [] <;>
        simp [nameColumn, firstName, modifyColumn, hlist, hname, makeItemName_ne_nil]

/-! ## The first step of an attempt -/

/-- Something stops the attempt at the first column, before its formula is changed. -/
def StopsFirst (s : Called View) : Prop :=
  env.native.status s.calls ≠ .noError ∨
    Formula.Refused env.native env.engine (firstName (nameColumn 0 s.value))
      ⟨s.calls + 1, firstFormula s.value⟩

/-- The first column is named, and then its formula and its format. -/
theorem exec_encodeColumn_zero (s : Called View) : exec (encodeColumn env 0) s =
    exec (do
      withFormula 0 (Formula.addItemName env.native env.engine (firstName (nameColumn 0 s.value)))
      measureColumn env 0 (firstName (nameColumn 0 s.value)) (firstTitle (nameColumn 0 s.value)))
      ⟨s.calls, nameColumn 0 s.value⟩ := by
  have hupdate : exec (Native.update (nameColumn 0)) s = (.ok (), ⟨s.calls, nameColumn 0 s.value⟩) :=
    rfl
  have hvalue : exec Native.value (⟨s.calls, nameColumn 0 s.value⟩ : Called View) =
      (.ok (nameColumn 0 s.value), ⟨s.calls, nameColumn 0 s.value⟩) := rfl
  rw [encodeColumn, exec_bind_of_ok hupdate, exec_bind_of_ok (Native.exec_value _)]
  rfl

theorem exec_prepareColumn_zero {s : Called View}
    (hstatus : env.native.status s.calls = .noError) :
    exec (prepareColumn env 0) s =
      if (env.engine.getSize (firstFormula s.value)).toNat = 0 then
        (.error (.throws (.runtimeError "View column formula is empty")), ⟨s.calls + 1, s.value⟩)
      else exec (encodeColumn env 0) ⟨s.calls + 1, s.value⟩ := by
  have hsize : exec (withFormula 0 (Formula.size env.native env.engine)) s =
      (.ok (env.engine.getSize (firstFormula s.value)).toNat, ⟨s.calls + 1, s.value⟩) := by
    rw [exec_withFormula_zero, Formula.exec_size hstatus]
    simp only [setFirst_firstFormula]
  rw [prepareColumn, exec_bind_of_ok hsize]
  split <;> rfl

theorem exec_prepareColumn_zero_of_ne {s : Called View}
    (hstatus : env.native.status s.calls ≠ .noError) :
    ∃ stop, exec (prepareColumn env 0) s = (.error stop, ⟨s.calls + 1, s.value⟩) := by
  have hsize : exec (withFormula 0 (Formula.size env.native env.engine)) s = (.error (.throws
      (.nativeError "Failed to get formula size" (env.native.status s.calls))),
        ⟨s.calls + 1, s.value⟩) := by
    rw [exec_withFormula_zero, Formula.exec_size_of_ne hstatus]
    simp only [setFirst_firstFormula]
  exact ⟨_, exec_bind_of_error hsize⟩

/-- Working on the formula of the named column. -/
theorem exec_withFormula_nameColumn {x : Formula.M Unit} {n : Nat} {v : View}
    {result : Except Stop Unit} {t : Called (List UInt8)}
    (h : exec x ⟨n, firstFormula v⟩ = (result, t)) :
    exec (withFormula 0 x) ⟨n, nameColumn 0 v⟩ =
      (result, ⟨t.calls, setFirst t.value (nameColumn 0 v)⟩) := by
  rw [exec_withFormula_zero]
  simp only [firstFormula_nameColumn, h]

/-- A stop in `add_item_name` is one of the attempt. -/
theorem exec_encodeColumn_of_error {s : Called View} {stop : Stop} {t : Called (List UInt8)}
    (h : exec (Formula.addItemName env.native env.engine (firstName (nameColumn 0 s.value)))
      ⟨s.calls, firstFormula s.value⟩ = (.error stop, t)) :
    exec (encodeColumn env 0) s = (.error stop, ⟨t.calls, setFirst t.value (nameColumn 0 s.value)⟩) := by
  rw [exec_encodeColumn_zero, exec_bind_of_error (exec_withFormula_nameColumn h)]

/-- The formula's name is the first thing that is added. -/
theorem exec_encodeColumn_of_ok {s : Called View} {t : Called (List UInt8)}
    (h : exec (Formula.addItemName env.native env.engine (firstName (nameColumn 0 s.value)))
      ⟨s.calls, firstFormula s.value⟩ = (.ok (), t)) :
    exec (encodeColumn env 0) s = exec (measureColumn env 0 (firstName (nameColumn 0 s.value))
      (firstTitle (nameColumn 0 s.value))) ⟨t.calls, setFirst t.value (nameColumn 0 s.value)⟩ := by
  rw [exec_encodeColumn_zero, exec_bind_of_ok (exec_withFormula_nameColumn h)]

/-- What an early stop leaves: the view, or the view with a name for the first column. -/
def LeftEarly (v w : View) : Prop :=
  w = v ∨ ∃ formula, Formula.SameFormula (firstFormula v) formula ∧
    w = setFirst formula (nameColumn 0 v)

variable {env}

theorem leftEarly_of_stopsFirst (hrecords : Formula.RecordsLength env.engine) {s : Called View}
    (h : StopsFirst env s) : ∃ stop t, exec (prepareColumn env 0) s = (.error stop, t) ∧
      LeftEarly s.value t.value := by
  by_cases hstatus : env.native.status s.calls = .noError
  · rw [exec_prepareColumn_zero env hstatus]
    by_cases hempty : (env.engine.getSize (firstFormula s.value)).toNat = 0
    · rw [if_pos hempty]
      exact ⟨_, _, rfl, .inl rfl⟩
    · rw [if_neg hempty]
      have hrefused := h.resolve_left (not_not_intro hstatus)
      obtain ⟨stop, t, hadd, hsame⟩ := Formula.exists_stop_of_refused hrecords hrefused
      exact ⟨stop, _, exec_encodeColumn_of_error env (s := ⟨s.calls + 1, s.value⟩) hadd,
        .inr ⟨t.value, hsame, rfl⟩⟩
  · obtain ⟨stop, hstop⟩ := exec_prepareColumn_zero_of_ne env hstatus
    exact ⟨stop, _, hstop, .inl rfl⟩

/-- An attempt that gets further leaves the first column with an item name in its formula. -/
theorem firstNamed_of_not_stopsFirst (hrecords : Formula.RecordsLength env.engine) {s : Called View}
    (hcolumns : s.value.columns ≠ []) (h : ¬ StopsFirst env s) :
    (exec (prepareColumn env 0) s).1 = .error .undefined ∨
      FirstNamed (exec (prepareColumn env 0) s).2.value := by
  simp only [StopsFirst, not_or, not_not] at h
  obtain ⟨hstatus, hrefused⟩ := h
  have hempty : (env.engine.getSize (firstFormula s.value)).toNat ≠ 0 := by
    intro hzero
    exact hrefused (.inr (.inl (by simp [hzero, Formula.headerSize])))
  rw [exec_prepareColumn_zero env hstatus, if_neg hempty]
  obtain ⟨column, columns, hlist⟩ := List.exists_cons_of_ne_nil
    (columns_nameColumn_ne_nil (i := 0) hcolumns)
  rcases hadd : exec (Formula.addItemName env.native env.engine (firstName (nameColumn 0 s.value)))
    ⟨s.calls + 1, firstFormula s.value⟩ with ⟨stop | _, t⟩
  · have hflagged := Formula.flagged_of_not_refused hrecords hrefused hadd
    rw [exec_encodeColumn_of_error env (s := ⟨s.calls + 1, s.value⟩) hadd]
    rcases hflagged with hundefined | hflagged
    · exact .inl (by simpa using hundefined)
    · refine .inr ⟨{ column with formula := t.value }, ?_, hflagged⟩
      simp [setFirst, modifyColumn, hlist]
  · have hnamed : FirstNamed (setFirst t.value (nameColumn 0 s.value)) := by
      refine ⟨{ column with formula := t.value }, ?_, Formula.addItemName_flagged hadd⟩
      simp [setFirst, modifyColumn, hlist]
    right
    rw [exec_encodeColumn_of_ok env (s := ⟨s.calls + 1, s.value⟩) hadd]
    exact preserves_measureColumn env _ _ _ _ hnamed

/-! ## Attempts that get past the first column -/

section Returns

variable {v : View} {n size : Nat} {t : Called View}
  (h : exec (prepareColumn env 0) ⟨n, v⟩ = (.ok size, t))
include h

/-- What the first step has done when it returns. -/
theorem exec_prepareColumn_zero_eq_ok : env.native.status n = .noError ∧
    (env.engine.getSize (firstFormula v)).toNat ≠ 0 ∧
    ∃ u, exec (Formula.addItemName env.native env.engine (firstName (nameColumn 0 v)))
      ⟨n + 1, firstFormula v⟩ = (.ok (), u) ∧
      exec (prepareColumn env 0) ⟨n, v⟩ = exec (measureColumn env 0 (firstName (nameColumn 0 v))
        (firstTitle (nameColumn 0 v))) ⟨u.calls, setFirst u.value (nameColumn 0 v)⟩ := by
  have hstatus : env.native.status n = .noError := by
    by_contra hne
    obtain ⟨stop, hstop⟩ := exec_prepareColumn_zero_of_ne env (s := ⟨n, v⟩) hne
    rw [hstop] at h
    cases h
  rw [exec_prepareColumn_zero env hstatus] at h ⊢
  by_cases hempty : (env.engine.getSize (firstFormula v)).toNat = 0
  · rw [if_pos hempty] at h
    cases h
  · rw [if_neg hempty] at h ⊢
    refine ⟨hstatus, hempty, ?_⟩
    rcases hadd : exec (Formula.addItemName env.native env.engine (firstName (nameColumn 0 v)))
      ⟨n + 1, firstFormula v⟩ with ⟨stop | _, u⟩
    · rw [exec_encodeColumn_of_error env (s := ⟨n + 1, v⟩) hadd] at h
      cases h
    · exact ⟨u, rfl, exec_encodeColumn_of_ok env (s := ⟨n + 1, v⟩) hadd⟩

/-- The automatic name of an earlier attempt is the one that this attempt gives. -/
theorem exec_prepareColumn_nameColumn :
    exec (prepareColumn env 0) ⟨n, nameColumn 0 v⟩ = (.ok size, t) := by
  obtain ⟨hstatus, hempty, u, hadd, hexec⟩ := exec_prepareColumn_zero_eq_ok h
  have hadd' : exec (Formula.addItemName env.native env.engine
      (firstName (nameColumn 0 (nameColumn 0 v)))) ⟨n + 1, firstFormula (nameColumn 0 v)⟩ =
        (.ok (), u) := by
    rw [nameColumn_nameColumn, firstFormula_nameColumn]
    exact hadd
  rw [exec_prepareColumn_zero env hstatus]
  simp only [firstFormula_nameColumn]
  rw [if_neg hempty, exec_encodeColumn_of_ok env (s := ⟨n + 1, nameColumn 0 v⟩) hadd']
  simp only [nameColumn_nameColumn]
  rw [← hexec, h]

theorem exec_prepareColumn_setFirst (hrecords : Formula.RecordsLength env.engine)
    (hcolumns : v.columns ≠ []) {formula : List UInt8}
    (hsame : Formula.SameFormula (firstFormula v) formula) :
    exec (prepareColumn env 0) ⟨n, setFirst formula v⟩ = (.ok size, t) := by
  obtain ⟨hstatus, _, u, hadd, hexec⟩ := exec_prepareColumn_zero_eq_ok h
  have hsameAdd := Formula.exec_addItemName_of_sameFormula hrecords hsame hadd
  obtain ⟨_, _, htakes, _⟩ := Formula.takes_of_ok hrecords hsameAdd
  have hempty : (env.engine.getSize formula).toNat ≠ 0 := by
    have hheader := htakes.headerSize_le
    simp only [Formula.headerSize] at hheader
    omega
  have hadd' : exec (Formula.addItemName env.native env.engine
      (firstName (nameColumn 0 (setFirst formula v)))) ⟨n + 1, firstFormula (setFirst formula v)⟩ =
        (.ok (), u) := by
    rw [nameColumn_setFirst, firstName_setFirst, firstFormula_setFirst formula hcolumns]
    exact hsameAdd
  rw [exec_prepareColumn_zero env hstatus]
  simp only [firstFormula_setFirst formula hcolumns]
  rw [if_neg hempty, exec_encodeColumn_of_ok env (s := ⟨n + 1, setFirst formula v⟩) hadd']
  simp only [nameColumn_setFirst, firstName_setFirst, firstTitle_setFirst, setFirst_setFirst]
  rw [← hexec, h]

end Returns

/-! ## The rest of an attempt -/

variable (env)

/-- Building the view format is its first step and a rest that depends on the number of the
columns. -/
theorem exists_buildViewFormat_eq (count : Nat) : ∃ rest : Nat → M (List UInt8),
    (∀ size, Preserves FirstNamed (rest size)) ∧ ∀ s : Called View,
      s.value.columns.length = count + 1 →
        exec (buildViewFormat env) s = exec (prepareColumn env 0 >>= rest) s := by
  refine ⟨?rest, ?keeps, ?eq⟩
  case eq =>
    intro s hcount
    rw [buildViewFormat, exec_bind_of_ok (Native.exec_value _), hcount, prepareColumns, bind_assoc]
  case keeps =>
    intro size
    refine .bind (.bind (preserves_prepareColumns env count 0) fun _ => .pure _) fun _ => ?_
    refine .bind (Preserves.update fun _ h => h) fun _ => ?_
    refine .bind (Reads.allocate _).preserves fun locker => ?_
    exact .bind (Preserves.withLocal (fillPreserves_fillViewFormat env)) fun _ => .pure _

/-- So is a whole attempt. -/
theorem exists_save_eq (count : Nat) : ∃ rest : Nat → M Unit,
    (∀ size, Preserves FirstNamed (rest size)) ∧ ∀ s : Called View,
      s.value.columns.length = count + 1 →
        exec (save env) s = exec (prepareColumn env 0 >>= rest) s := by
  obtain ⟨restFormat, hrest, hbuild⟩ := exists_buildViewFormat_eq env count
  refine ⟨?rest, ?keeps, ?eq⟩
  case eq =>
    intro s hcount
    rw [save, storeFormats, bind_assoc, exec_bind, hbuild s hcount, ← exec_bind, bind_assoc]
  case keeps =>
    intro size
    refine .bind (hrest size) fun viewFormat => .bind ?_ fun _ => .bind ?_ fun _ => ?_
    · refine .bind (preserves_buildCollation env FirstNamed) fun collation => ?_
      refine .bind (preserves_eraseFormulaTime env) fun _ => ?_
      exact .bind (preserves_withNote _) fun _ => preserves_withNote _
    · exact .bind (preserves_withSelection _) fun _ => preserves_withNote _
    · exact preserves_withNote _

/-- An attempt whose first step stops ends there. -/
theorem exec_save_of_prepareColumn {s t : Called View} {stop : Stop} (hcolumns : s.value.columns ≠ [])
    (h : exec (prepareColumn env 0) s = (.error stop, t)) : exec (save env) s = (.error stop, t) := by
  obtain ⟨rest, _, hsave⟩ := exists_save_eq env (s.value.columns.length - 1)
  have hlength := List.length_pos_iff.mpr hcolumns
  rw [hsave s (by omega), exec_bind_of_error h]

/-- An attempt whose first step leaves an item name in the first formula leaves it there. -/
theorem firstNamed_of_exec_save {s : Called View} (hcolumns : s.value.columns ≠ [])
    (h : FirstNamed (exec (prepareColumn env 0) s).2.value) :
    FirstNamed (exec (save env) s).2.value := by
  obtain ⟨rest, hrest, hsave⟩ := exists_save_eq env (s.value.columns.length - 1)
  have hlength := List.length_pos_iff.mpr hcolumns
  rw [hsave s (by omega)]
  exact preserves_behind h hrest

/-- Attempts that agree in the first step agree. -/
theorem exec_save_congr {s s' : Called View} (hcolumns : s.value.columns ≠ [])
    (hlength : s'.value.columns.length = s.value.columns.length)
    (h : exec (prepareColumn env 0) s' = exec (prepareColumn env 0) s) :
    exec (save env) s' = exec (save env) s := by
  obtain ⟨rest, _, hsave⟩ := exists_save_eq env (s.value.columns.length - 1)
  have hpos := List.length_pos_iff.mpr hcolumns
  rw [hsave s (by omega), hsave s' (by omega), exec_bind, exec_bind, h]

/-! ## Changes between the attempts -/

/-- An edit keeps the formula of the first column, or gives it another one. -/
theorem apply_setFirst (edit : Edit) (formula : List UInt8) (v : View) :
    ∃ formula', edit.apply env.codePage (setFirst formula v) =
      setFirst formula' (edit.apply env.codePage v) ∧
        ((formula' = formula ∧ firstFormula (edit.apply env.codePage v) = firstFormula v ∧
          ∀ code, edit ≠ .formula 0 code) ∨
          formula' = firstFormula (edit.apply env.codePage v)) := by
  cases hlist : v.columns with
  | nil =>
      refine ⟨_, ?_, .inr rfl⟩
      simp [Edit.apply, setFirst, modifyColumn, hlist]
  | cons column columns =>
      cases edit with
      | formula i code =>
          cases i <;> simp [Edit.apply, Edit.index, Edit.change, setFirst, firstFormula,
            modifyColumn, hlist, Column.setFormula]
      | itemName i name =>
          cases i <;> simp [Edit.apply, Edit.index, Edit.change, setFirst, firstFormula,
            modifyColumn, hlist, Column.setItemName]
      | sorting i sort categorized =>
          cases i <;> simp [Edit.apply, Edit.index, Edit.change, setFirst, firstFormula,
            modifyColumn, hlist, Column.setSorting]

theorem apply_nameColumn {edit : Edit} (h : ∀ name, edit ≠ .itemName 0 name) (v : View) :
    edit.apply env.codePage (nameColumn 0 v) = nameColumn 0 (edit.apply env.codePage v) := by
  cases hlist : v.columns with
  | nil => simp [Edit.apply, nameColumn, modifyColumn, hlist]
  | cons column columns =>
      cases edit with
      | formula i code =>
          cases i <;> by_cases hname : column.itemName = [] <;>
            simp [Edit.apply, Edit.index, Edit.change, nameColumn, modifyColumn, hlist, hname,
              Column.setFormula]
      | itemName i name =>
          cases i with
          | zero => exact absurd rfl (h name)
          | succ i =>
              by_cases hname : column.itemName = [] <;>
                simp [Edit.apply, Edit.index, nameColumn, modifyColumn, hlist, hname]
      | sorting i sort categorized =>
          cases i <;> by_cases hname : column.itemName = [] <;>
            simp [Edit.apply, Edit.index, Edit.change, nameColumn, modifyColumn, hlist, hname,
              Column.setSorting]

@[simp] theorem length_apply (edit : Edit) (v : View) :
    (edit.apply env.codePage v).columns.length = v.columns.length := by
  simp [Edit.apply, modifyColumn]

theorem firstNamed_apply {edit : Edit} (h : ∀ code, edit ≠ .formula 0 code) {v : View}
    (hnamed : FirstNamed v) : FirstNamed (edit.apply env.codePage v) := by
  cases edit with
  | formula i code =>
      cases i with
      | zero => exact absurd rfl (h code)
      | succ i => exact firstNamed_modifyColumn_succ hnamed
  | itemName i name => exact firstNamed_modifyColumn (fun _ => rfl) hnamed
  | sorting i sort categorized => exact firstNamed_modifyColumn (fun _ => rfl) hnamed

/-! ### Several edits -/

theorem length_edited (edits : List Edit) (v : View) :
    (edited env edits v).columns.length = v.columns.length := by
  induction edits generalizing v with
  | nil => rfl
  | cons edit edits ih => exact (ih _).trans (length_apply env edit v)

theorem edited_of_nil (edits : List Edit) {v : View} (h : v.columns = []) : edited env edits v = v := by
  induction edits with
  | nil => rfl
  | cons edit edits ih =>
      have hedit : edit.apply env.codePage v = v := by
        cases v
        simp_all [Edit.apply, modifyColumn]
      rw [edited, List.foldl_cons, hedit]
      exact ih

theorem firstNamed_edited {edits : List Edit} (h : ∀ code, Edit.formula 0 code ∉ edits) {v : View}
    (hnamed : FirstNamed v) : FirstNamed (edited env edits v) := by
  induction edits generalizing v with
  | nil => exact hnamed
  | cons edit edits ih =>
      apply ih
      · exact fun code hmem => h code (List.mem_cons_of_mem _ hmem)
      · apply firstNamed_apply env _ hnamed
        rintro code rfl
        exact h code List.mem_cons_self

theorem edited_nameColumn {edits : List Edit} (h : ∀ name, Edit.itemName 0 name ∉ edits) (v : View) :
    edited env edits (nameColumn 0 v) = nameColumn 0 (edited env edits v) := by
  induction edits generalizing v with
  | nil => rfl
  | cons edit edits ih =>
      have hedit : ∀ name, edit ≠ .itemName 0 name := by
        rintro name rfl
        exact h name List.mem_cons_self
      have happly := apply_nameColumn env hedit v
      rw [edited, List.foldl_cons, happly]
      exact ih (fun name hmem => h name (List.mem_cons_of_mem _ hmem)) _

theorem edited_setFirst (edits : List Edit) (formula : List UInt8) (v : View) :
    ∃ formula', edited env edits (setFirst formula v) = setFirst formula' (edited env edits v) ∧
      ((formula' = formula ∧ firstFormula (edited env edits v) = firstFormula v ∧
        ∀ code, Edit.formula 0 code ∉ edits) ∨
        formula' = firstFormula (edited env edits v)) := by
  induction edits generalizing formula v with
  | nil => exact ⟨formula, rfl, .inl ⟨rfl, rfl, by simp⟩⟩
  | cons edit edits ih =>
      obtain ⟨formula₁, happly, hfirst⟩ := apply_setFirst env edit formula v
      obtain ⟨formula₂, hedited, hrest⟩ := ih formula₁ (edit.apply env.codePage v)
      refine ⟨formula₂, ?_, ?_⟩
      · rw [edited, List.foldl_cons, happly]
        exact hedited
      · rcases hrest with ⟨rfl, hsame, hnot⟩ | hlast
        · rcases hfirst with ⟨rfl, hsame', hnot'⟩ | rfl
          · refine .inl ⟨rfl, hsame.trans hsame', fun code hmem => ?_⟩
            rcases List.mem_cons.mp hmem with rfl | hmem
            · exact hnot' code rfl
            · exact hnot code hmem
          · exact .inr hsame.symm
        · exact .inr hlast

/-! ## Views without columns

An attempt on a view without columns that stops anywhere has done a part of what the next one
does again. -/

section NoColumns

/-- The view has been left in such a way that saving it gives what saving `v` gives. -/
def SavesAs (v w : View) : Prop := w.columns = [] ∧ saved env w = saved env v

variable {env} {present : List UInt8 → List UInt8 → Prop} (laws : SummaryLaws env present) {v : View}
  (hcolumns : v.columns = [])

include laws hcolumns in
/-- Once the view format is built, only the items count. -/
theorem savesAs_of_formatItems {items : List Item}
    (h : formatItems env { formatted env v with items := items } = formatItems env v) :
    SavesAs env v { formatted env v with items := items } := by
  generalize hw : ({ formatted env v with items := items } : View) = w at h ⊢
  have hselection : savedSelection env (counted w) = savedSelection env (counted v) := by
    rw [← hw]
    exact savedSelection_savedSelection env laws (v := counted v) rfl rfl
  refine ⟨by rw [← hw]; exact hcolumns, ?_⟩
  rw [saved, savedItems, h, formatted, hselection, ← hw]
  rfl

variable (env v) in
/-- Once the view format is built, the items can be those of any moment. -/
theorem formatItems_again : ∀ items ∈ [v.items, Table.erase Item.name formulaTimeItem v.items,
    Table.put Item.name (valueItem viewFormatItem (viewFormatBytes env (counted v)))
      (Table.erase Item.name formulaTimeItem v.items), formatItems env v],
    formatItems env { formatted env v with items := items } = formatItems env v :=
  Table.put_put_erase_again Item.name v.items
    (x := valueItem viewFormatItem (viewFormatBytes env (counted v)))
    (y := valueItem collationItem (emptyCollationBytes env))
    (by simp only [valueItem, Note.stored]; decide) (by simp only [valueItem, Note.stored]; decide)
    (by simp only [valueItem, Note.stored]; decide)

/-- In the view `v`, the program leaves `v'` when it returns, and a view with `P` when it stops. -/
abbrev FillGoes (x : FillM Unit) (v v' : View) (P : View → Prop) : Prop :=
  Meets (fun s => s.value.1 = v) x (fun _ s => s.value.1 = v') fun _ s => P s.value.1

theorem fillGoes_fill (x : Cursor.M Unit) {v : View} {P : View → Prop} (h : P v) :
    FillGoes (fill x) v v P := by
  intro s hs
  have hfst := fst_exec_fill x s
  rcases hresult : exec (fill x) s with ⟨_ | _, t⟩ <;> rw [hresult, hs] at hfst
  · show P t.value.1
    rw [hfst]
    exact h
  · exact hfst

theorem fillGoes_inView {x : M Unit} {v v' : View} {P : View → Prop}
    (hreturns : Delivers env.native x v () v') (hx : Atomic x) (h : P v) :
    FillGoes (inView x) v v' P := by
  intro s hs
  rw [inView, Native.part, exec_focus]
  simp only [hs]
  rcases hresult : exec x ⟨s.calls, v⟩ with ⟨stop | _, t⟩
  · have hvalue := hx _ t stop hresult
    show P t.value
    rw [hvalue]
    exact h
  · exact (hreturns.of_ok hresult).2.1

theorem atomic_addSummary (text : List UInt8) : Atomic (withSelection
    (Formula.addSummaryText env.native env.engine env.codePage text)) := by
  refine Atomic.part (.bind .call fun _ => .bind (.throwIfError _ _) fun _ => .update _) ?_
  exact fun _ => rfl

/-- The view with a summary item in its selection formula, if it is asked for. -/
def summarized (env : Env) (wanted : Prop) [Decidable wanted] (text : List UInt8) (w : View) :
    View :=
  { w with selection := withSummary env wanted text w.selection }

theorem fillGoes_addConflictSummary (flags : UInt16) {w : View} {P : View → Prop} (h : P w) :
    FillGoes (addConflictSummary env flags) w
      (summarized env (flags &&& tableFlagConflict ≠ 0) conflictItem w) P := by
  unfold addConflictSummary summarized withSummary
  split
  · exact fillGoes_inView (delivers_addSummary env conflictItem w) (atomic_addSummary _) h
  · exact fun _ hs => hs

theorem fillGoes_addLinkSummary (flags : UInt16) {w : View} {P : View → Prop} (h : P w) :
    FillGoes (addLinkSummary env flags) w
      (summarized env (flags &&& tableFlagFlatIndex = 0) fieldLink w) P := by
  unfold addLinkSummary summarized withSummary
  split
  · exact fillGoes_inView (delivers_addSummary env fieldLink w) (atomic_addSummary _) h
  · exact fun _ hs => hs

include laws in
theorem withSummary_withSummary (wanted : Prop) [Decidable wanted] (text formula : List UInt8) :
    withSummary env wanted text (withSummary env wanted text formula) =
      withSummary env wanted text formula := by
  unfold withSummary
  split
  · exact laws.summaryItem_of_present _ _ (laws.present_summaryItem _ _)
  · rfl

/-- The view with the summary for conflicts. -/
def conflictAdded (env : Env) (v : View) : View :=
  summarized env ((counted v).tableFormat.flags &&& tableFlagConflict ≠ 0) conflictItem (counted v)

include hcolumns in
theorem savesAs_counted : SavesAs env v (counted v) := ⟨hcolumns, rfl⟩

include laws hcolumns in
theorem savesAs_conflictAdded : SavesAs env v (conflictAdded env v) := by
  have hselection : savedSelection env (counted (conflictAdded env v)) =
      savedSelection env (counted v) :=
    congrArg (withSummary env ((counted v).tableFormat.flags &&& tableFlagFlatIndex = 0) fieldLink)
      (withSummary_withSummary laws ((counted v).tableFormat.flags &&& tableFlagConflict ≠ 0)
        conflictItem v.selection)
  refine ⟨hcolumns, ?_⟩
  rw [saved, saved, savedItems, savedItems, formatted, formatted, hselection]
  rfl

include laws hcolumns in
theorem savesAs_formatted : SavesAs env v (formatted env v) :=
  savesAs_of_formatItems laws hcolumns (formatItems_again env v v.items List.mem_cons_self)

include laws hcolumns in
theorem fillGoes_fillViewFormat :
    FillGoes (fillViewFormat env) (counted v) (formatted env v) (SavesAs env v) := by
  have hcounted : SavesAs env v (counted v) := savesAs_counted hcolumns
  have hconflict := savesAs_conflictAdded laws hcolumns
  have hformatted := savesAs_formatted laws hcolumns
  have hfill : ∀ x, FillGoes (fill x) (counted v) (counted v) (SavesAs env v) :=
    fun x => fillGoes_fill x hcounted
  have hpure : FillGoes (Pure.pure ()) (counted v) (counted v) (SavesAs env v) := fun _ h => h
  intro s hs
  have hempty : (counted v).columns = [] := hcolumns
  rw [fillViewFormat, exec_bind_of_ok (Native.exec_value _), hs, hempty]
  refine (Meets.bind (hfill _) fun _ => .bind (hfill _) fun _ => .bind hpure fun _ =>
    .bind hpure fun _ => .bind (fillGoes_addConflictSummary _ hcounted) fun _ =>
    .bind (fillGoes_addLinkSummary _ hconflict) fun _ =>
    .bind (fillGoes_fill _ hformatted) fun _ => ?_) s hs
  exact fun _ h => h

include laws hcolumns in
theorem leaves_buildViewFormat : Leaves (buildViewFormat env) v (SavesAs env v) := by
  have hself : SavesAs env v v := ⟨hcolumns, rfl⟩
  refine .value_bind (.bind_reads ?_ hself fun columnsSize => .update_bind ?_)
  · rw [hcolumns]
    exact .pure _
  · refine .bind_reads (Reads.allocate _) (savesAs_counted hcolumns) fun locker => ?_
    refine .map (.withLocal ?_) _
    intro n stop t h
    exact (fillGoes_fillViewFormat laws hcolumns).of_error rfl h

theorem atomic_withNote {α : Type} {x : Note.M α} (hx : Atomic x) : Atomic (withNote x) :=
  hx.part fun _ => rfl

theorem atomic_eraseFormulaTime : Atomic (eraseFormulaTime env) := by
  refine .bind (Reads.part (Note.reads_has _) fun _ => rfl) fun present => ?_
  split
  · exact atomic_withNote (Note.atomic_erase _)
  · exact (Reads.pure _).atomic

theorem atomic_storeSelection : Atomic (storeSelection env) :=
  .bind (Reads.part Formula.reads_getCursor fun _ => rfl) fun _ =>
    atomic_withNote (Note.atomic_set _ _ _ _)

variable (hascii : Lmbcs.KeepsAscii env.codePage)

include laws hcolumns hascii in
theorem leaves_storeFormats : Leaves (storeFormats env) v (SavesAs env v) := by
  have hagain := fun items hitems => savesAs_of_formatItems laws hcolumns
    (formatItems_again env v items hitems)
  have hcolumns' : (formatted env v).columns = [] := hcolumns
  refine .bind (leaves_buildViewFormat laws hcolumns) (delivers_buildViewFormat env hcolumns) ?_
  refine .bind ((reads_buildCollation env).atomic.leaves (savesAs_formatted laws hcolumns))
    (delivers_buildCollation env hcolumns') ?_
  refine .bind (atomic_eraseFormulaTime.leaves (savesAs_formatted laws hcolumns))
    (delivers_eraseFormulaTime hascii _) ?_
  refine .bind ((atomic_withNote (Note.atomic_set _ _ _ _)).leaves ?_)
    (delivers_set hascii (List.all_iff_forall_prop.mp (by decide)) (by decide) _ _ _) ?_
  · exact hagain _ (.tail _ (.head _))
  · exact (atomic_withNote (Note.atomic_set _ _ _ _)).leaves (hagain _ (.tail _ (.tail _ (.head _))))

include laws hcolumns hascii in
/-- Wherever an attempt stops, the next one stores the same. -/
theorem leaves_save (hfit : (env.engine.getSize (savedSelection env (counted v))).toNat ≤
    (savedSelection env (counted v)).length) : Leaves (save env) v (SavesAs env v) := by
  have hstored : SavesAs env v { formatted env v with items := formatItems env v } :=
    savesAs_of_formatItems laws hcolumns (formatItems_again env v _ (by simp))
  have hsaved : SavesAs env v (saved env v) := ⟨hcolumns, saved_saved laws v⟩
  refine .bind (leaves_storeFormats laws hcolumns hascii) (delivers_storeFormats hascii hcolumns) ?_
  refine .bind (atomic_storeSelection.leaves hstored) (delivers_storeSelection hascii hfit) ?_
  exact (atomic_withNote Note.reads_save.atomic).leaves hsaved

include laws hascii in
/-- A save of a view without columns stores the same after an attempt that stopped. -/
theorem retry_of_nil {s s₁ t : Called View} {stop : Stop} (hcolumns : s.value.columns = [])
    (hfailed : exec (save env) s = (.error stop, s₁)) (hquiet : Quiet env.native s₁.calls)
    (hother : exec (save env) ⟨s₁.calls, s.value⟩ = (.ok (), t)) :
    s₁.value.columns = [] ∧
      ∃ t₁, exec (save env) s₁ = (.ok (), t₁) ∧ t₁.value.items = t.value.items := by
  have hfit := fits_of_save hascii (s := ⟨s₁.calls, s.value⟩) hcolumns hother
  have hdelivers := delivers_save hascii hcolumns hfit
  obtain ⟨_, ht, _⟩ := hdelivers.of_ok (s := ⟨s₁.calls, s.value⟩) hother
  have hleft := leaves_save laws hcolumns hascii hfit s.calls stop s₁ hfailed
  obtain ⟨hcolumns₁, hsaved⟩ := hleft
  have hselection : savedSelection env (counted s₁.value) = savedSelection env (counted s.value) :=
    congrArg View.selection hsaved
  rw [← hselection] at hfit
  obtain ⟨k, _, hagain⟩ := (delivers_save hascii hcolumns₁ hfit).of_quiet hquiet
  exact ⟨hcolumns₁, _, hagain, by simp only [hsaved, ht]⟩

end NoColumns

/-! ## Trying again -/

variable {env}

/-- The view once the columns in front of column `i` have their names. -/
def namedUpTo (v : View) : Nat → View
  | 0 => v
  | i + 1 => nameColumn i (namedUpTo v i)

/-- The edit removes a cause: a formula that cannot take the name of its column is replaced, a name
that was given to its column is replaced, or a column is sorted in another way. -/
def Removes (env : Env) (v : View) : Edit → Prop
  | .formula i _ => ∃ column, (namedUpTo v (i + 1)).columns[i]? = some column ∧
      ¬ Formula.Takes env.engine column.formula column.itemName
  | .itemName i _ => ∃ column, v.columns[i]? = some column ∧ column.itemName ≠ []
  | .sorting _ _ _ => True

theorem firstName_eq {v : View} {column : Column} (h : v.columns[0]? = some column) :
    firstName v = column.itemName := by
  simp [firstName, h]

theorem firstFormula_eq {v : View} {column : Column} (h : v.columns[0]? = some column) :
    firstFormula v = column.formula := by
  simp [firstFormula, h]

/-- A new formula for the first column shows that the old one cannot take the name. -/
theorem not_takes_of_removes {v : View} {code : List UInt8} (h : Removes env v (.formula 0 code)) :
    ¬ Formula.Takes env.engine (firstFormula v) (firstName (nameColumn 0 v)) := by
  obtain ⟨column, hcolumn, htakes⟩ := h
  have hcolumn : (nameColumn 0 v).columns[0]? = some column := hcolumn
  rw [firstName_eq hcolumn, ← firstFormula_nameColumn, firstFormula_eq hcolumn]
  exact htakes

/-- An attempt that only named the first column and touched its formula can be repeated, if the
formula is still the same or is replaced. -/
theorem exec_save_of_setFirst (hrecords : Formula.RecordsLength env.engine) {v : View} {n : Nat}
    {t : Called View} {edits : List Edit} (hcolumns : v.columns ≠ [])
    (hremoves : ∀ edit ∈ edits, Removes env v edit) {formula : List UInt8}
    (hformula : Formula.SameFormula (firstFormula v) formula ∨ ∃ code, Edit.formula 0 code ∈ edits)
    (h : exec (save env) ⟨n, edited env edits v⟩ = (.ok (), t)) :
    exec (save env) ⟨n, edited env edits (setFirst formula (nameColumn 0 v))⟩ = (.ok (), t) := by
  generalize hV : edited env edits v = V at h
  have hlength : V.columns.length = v.columns.length := by rw [← hV, length_edited]
  have hV' : V.columns ≠ [] := by
    rw [← List.length_pos_iff] at hcolumns ⊢
    omega
  obtain ⟨size, u, hfirst⟩ : ∃ size u, exec (prepareColumn env 0) ⟨n, V⟩ = (.ok size, u) := by
    rcases hfirst : exec (prepareColumn env 0) ⟨n, V⟩ with ⟨stop | size, u⟩
    · rw [exec_save_of_prepareColumn env hV' hfirst] at h
      cases h
    · exact ⟨size, u, rfl⟩
  -- the edited view with the name of the first column as the attempt has left it
  obtain ⟨N, hN, hNlength, hNfirst, hNexec⟩ : ∃ N, edited env edits (nameColumn 0 v) = N ∧
      N.columns.length = V.columns.length ∧ firstFormula N = firstFormula V ∧
      exec (prepareColumn env 0) ⟨n, N⟩ = (.ok size, u) := by
    by_cases hname : firstName v = []
    · have hnot : ∀ name, Edit.itemName 0 name ∉ edits := by
        intro name hmem
        obtain ⟨column, hcolumn, hne⟩ := hremoves _ hmem
        rw [← firstName_eq hcolumn] at hne
        exact hne hname
      exact ⟨nameColumn 0 V, by rw [edited_nameColumn env hnot, hV], length_nameColumn 0 V,
        firstFormula_nameColumn V, exec_prepareColumn_nameColumn hfirst⟩
    · rw [nameColumn_zero_of_ne hname, hV]
      exact ⟨V, rfl, rfl, rfl, hfirst⟩
  obtain ⟨formula', hedited, hsame⟩ := edited_setFirst env edits formula (nameColumn 0 v)
  rw [hN] at hedited hsame
  have hsameFormula : Formula.SameFormula (firstFormula N) formula' := by
    rcases hsame with ⟨rfl, hkept, hnot⟩ | rfl
    · rw [hkept, firstFormula_nameColumn]
      refine hformula.resolve_right ?_
      rintro ⟨code, hmem⟩
      exact hnot code hmem
    · exact .inl rfl
  have hN' : N.columns ≠ [] := by
    rw [← List.length_pos_iff] at hV' ⊢
    omega
  have hagain := exec_prepareColumn_setFirst hNexec hrecords hN' hsameFormula
  have hsetLength : (setFirst formula' N).columns.length = V.columns.length := by
    simp [setFirst, modifyColumn, hNlength]
  rw [hedited, exec_save_congr env (s := ⟨n, V⟩) hV' hsetLength (hagain.trans hfirst.symm)]
  exact h

/-- The first step stops with a formula that cannot take the name. -/
theorem exists_stop_of_not_takes (hrecords : Formula.RecordsLength env.engine) {s : Called View}
    (hstops : ¬ StopsFirst env s)
    (htakes : ¬ Formula.Takes env.engine (firstFormula s.value) (firstName (nameColumn 0 s.value))) :
    ∃ stop t formula, exec (prepareColumn env 0) s = (.error stop, t) ∧
      t.value = setFirst formula (nameColumn 0 s.value) := by
  simp only [StopsFirst, not_or, not_not] at hstops
  obtain ⟨hstatus, hrefused⟩ := hstops
  have hempty : (env.engine.getSize (firstFormula s.value)).toNat ≠ 0 := by
    intro hzero
    exact hrefused (.inr (.inl (by simp [hzero, Formula.headerSize])))
  rw [exec_prepareColumn_zero env hstatus, if_neg hempty]
  rcases hadd : exec (Formula.addItemName env.native env.engine (firstName (nameColumn 0 s.value)))
    ⟨s.calls + 1, firstFormula s.value⟩ with ⟨stop | _, u⟩
  · exact ⟨stop, _, u.value, exec_encodeColumn_of_error env (s := ⟨s.calls + 1, s.value⟩) hadd, rfl⟩
  · exact absurd (Formula.takes_of_ok hrecords hadd).2.2.1 htakes

/-- The condition under which the failed attempt does no harm: the view has no columns, the attempt
stopped at the first column before its formula was changed, or this formula is replaced. -/
def Harmless (env : Env) (s : Called View) (edits : List Edit) : Prop :=
  s.value.columns = [] ∨ StopsFirst env s ∨ ∃ code, Edit.formula 0 code ∈ edits

/-- After an attempt that throws, and once its cause is removed, a save succeeds and stores the
items that it would have stored without the attempt, exactly when the attempt did no harm. -/
theorem retry_iff {present : List UInt8 → List UInt8 → Prop} (laws : SummaryLaws env present)
    (hascii : Lmbcs.KeepsAscii env.codePage) (hrecords : Formula.RecordsLength env.engine)
    {s s₁ t : Called View} {error : Error} {edits : List Edit}
    (hfailed : exec (save env) s = (.error (.throws error), s₁))
    (hquiet : Quiet env.native s₁.calls) (hremoves : ∀ edit ∈ edits, Removes env s.value edit)
    (hother : exec (save env) ⟨s₁.calls, edited env edits s.value⟩ = (.ok (), t)) :
    (∃ t₁, exec (save env) ⟨s₁.calls, edited env edits s₁.value⟩ = (.ok (), t₁) ∧
      t₁.value.items = t.value.items) ↔ Harmless env s edits := by
  by_cases hcolumns : s.value.columns = []
  · refine iff_of_true ?_ (.inl hcolumns)
    rw [edited_of_nil env edits hcolumns] at hother
    obtain ⟨hcolumns₁, hretry⟩ := retry_of_nil laws hascii hcolumns hfailed hquiet hother
    rw [edited_of_nil env edits hcolumns₁]
    exact hretry
  constructor
  · intro hretry
    obtain ⟨t₁, hretry, _⟩ := hretry
    by_contra hharm
    simp only [Harmless, hcolumns, false_or, not_or, not_exists] at hharm
    obtain ⟨hstops, hnot⟩ := hharm
    have hnamed : FirstNamed s₁.value := by
      rcases firstNamed_of_not_stopsFirst hrecords hcolumns hstops with hundefined | hnamed
      · rcases hfirst : exec (prepareColumn env 0) s with ⟨stop | size, u⟩ <;>
          rw [hfirst] at hundefined <;> cases hundefined
        rw [exec_save_of_prepareColumn env hcolumns hfirst] at hfailed
        cases hfailed
      · have hkept := firstNamed_of_exec_save env hcolumns hnamed
        rw [hfailed] at hkept
        exact hkept
    exact save_of_firstNamed env (s := ⟨s₁.calls, edited env edits s₁.value⟩)
      (firstNamed_edited env hnot hnamed) hretry
  · intro hharmless
    have hharmless := hharmless.resolve_left hcolumns
    suffices hsame : exec (save env) ⟨s₁.calls, edited env edits s₁.value⟩ = (.ok (), t) from
      ⟨t, hsame, rfl⟩
    by_cases hstops : StopsFirst env s
    · obtain ⟨stop, u, hfirst, hleft⟩ := leftEarly_of_stopsFirst hrecords hstops
      rw [exec_save_of_prepareColumn env hcolumns hfirst] at hfailed
      cases hfailed
      rcases hleft with hview | ⟨formula, hformula, hview⟩
      · rw [hview]
        exact hother
      · rw [hview]
        exact exec_save_of_setFirst hrecords hcolumns hremoves (.inl hformula) hother
    · obtain ⟨code, hmem⟩ := hharmless.resolve_left hstops
      obtain ⟨stop, u, formula, hfirst, hview⟩ := exists_stop_of_not_takes hrecords hstops
        (not_takes_of_removes (hremoves _ hmem))
      rw [exec_save_of_prepareColumn env hcolumns hfirst] at hfailed
      cases hfailed
      rw [hview]
      exact exec_save_of_setFirst hrecords hcolumns hremoves (.inr ⟨code, hmem⟩) hother

/-! ## Two attempts -/

/-- A runtime in which no call fails and the size of a formula is the one in its header. -/
def recordedEnv : Env :=
  { sampleEnv with engine :=
      { sampleEnv.engine with getSize := fun memory => (Formula.header memory).length } }

def compiledFormula : List UInt8 := Formula.Header.bytes ⟨10, 0, 10⟩ ++ [1, 2, 3, 4]

def columnOf (formula : List UInt8) : Column := ⟨{ others := [] }, ⟨[]⟩, formula, [], []⟩

theorem recordsLength_recordedEnv : Formula.RecordsLength recordedEnv.engine := fun _ _ => rfl

theorem summaryLaws_recordedEnv : SummaryLaws recordedEnv fun formula bytes =>
    bytes <:+: formula.drop Formula.headerSize :=
  ⟨summaryLaws_sampleEnv.present_summaryItem, summaryLaws_sampleEnv.present_of_present,
    summaryLaws_sampleEnv.summaryItem_of_present⟩

theorem exists_of_isOk {s : Called View} (h : (exec (save recordedEnv) s).1.isOk = true) :
    ∃ t, exec (save recordedEnv) s = (.ok (), t) := by
  rcases hresult : exec (save recordedEnv) s with ⟨_ | _, t⟩
  · rw [hresult] at h
    cases h
  · exact ⟨t, rfl⟩

/-- The first column has no formula, and gets one after the attempt. -/
theorem retry_of_first : ∃ s₁ t₁,
    exec (save recordedEnv) ⟨0, sampleView [columnOf []]⟩ =
      (.error (.throws (.runtimeError "View column formula is empty")), s₁) ∧
    exec (save recordedEnv)
      ⟨s₁.calls, edited recordedEnv [.formula 0 compiledFormula] s₁.value⟩ = (.ok (), t₁) := by
  have hfailed : exec (save recordedEnv) ⟨0, sampleView [columnOf []]⟩ =
      (.error (.throws (.runtimeError "View column formula is empty")),
        ⟨1, sampleView [columnOf []]⟩) := rfl
  obtain ⟨t, hother⟩ := exists_of_isOk
    (s := ⟨1, edited recordedEnv [.formula 0 compiledFormula] (sampleView [columnOf []])⟩)
    (by decide +kernel)
  obtain ⟨t₁, hretry, _⟩ := (retry_iff summaryLaws_recordedEnv Lmbcs.keepsAscii_utf8
    recordsLength_recordedEnv hfailed (fun _ _ => rfl) (by
      intro edit hedit
      rw [List.mem_singleton.mp hedit]
      exact ⟨_, rfl, fun htakes => absurd htakes.headerSize_le (by decide +kernel)⟩) hother).mpr
    (.inr (.inr ⟨_, List.mem_cons_self⟩))
  exact ⟨_, t₁, hfailed, hretry⟩

/-- The second column has no formula. When it gets one, the formula of the first column has an item
name from the attempt. -/
theorem not_retry_of_second : ¬ ∀ (env : Env) (present : List UInt8 → List UInt8 → Prop)
    (s s₁ t : Called View) (error : Error) (edits : List Edit), SummaryLaws env present →
      Lmbcs.KeepsAscii env.codePage → Formula.RecordsLength env.engine →
      exec (save env) s = (.error (.throws error), s₁) → Quiet env.native s₁.calls →
      (∀ edit ∈ edits, Removes env s.value edit) →
      exec (save env) ⟨s₁.calls, edited env edits s.value⟩ = (.ok (), t) →
      ∃ t₁, exec (save env) ⟨s₁.calls, edited env edits s₁.value⟩ = (.ok (), t₁) ∧
        t₁.value.items = t.value.items := by
  intro h
  let v := sampleView [columnOf compiledFormula, columnOf []]
  let edits := [Edit.formula 1 compiledFormula]
  let s₁ := (exec (save recordedEnv) ⟨0, v⟩).2
  have hstop : (exec (save recordedEnv) ⟨0, v⟩).1 =
      .error (.throws (.runtimeError "View column formula is empty")) := by decide +kernel
  have hfailed : exec (save recordedEnv) ⟨0, v⟩ =
      (.error (.throws (.runtimeError "View column formula is empty")), s₁) := by
    rw [← hstop]
  obtain ⟨t, hother⟩ := exists_of_isOk (s := ⟨s₁.calls, edited recordedEnv edits v⟩)
    (by decide +kernel)
  obtain ⟨t₁, hretry, _⟩ := h recordedEnv _ _ _ _ _ edits summaryLaws_recordedEnv
    Lmbcs.keepsAscii_utf8 recordsLength_recordedEnv hfailed (fun _ _ => rfl) (by
      intro edit hedit
      rw [List.mem_singleton.mp hedit]
      exact ⟨_, rfl, fun htakes => absurd htakes.headerSize_le (by decide +kernel)⟩) hother
  have hstops : (exec (save recordedEnv) ⟨s₁.calls, edited recordedEnv edits s₁.value⟩).1.isOk =
      false := by decide +kernel
  rw [hretry] at hstops
  cases hstops

end View

end Dmn.Design
