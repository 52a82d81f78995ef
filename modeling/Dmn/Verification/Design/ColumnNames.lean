import Dmn.Model.DesignView
import Dmn.Verification.Formula.ItemName
import Dmn.Verification.Native

/-! # Item names in the columns of a view design

Saving a view adds an item name to the formula of each column. The name stays there, so
that the formula of a column is refused by the next save. -/

namespace Dmn.Design.View

open Exec Native

variable (env : Env)

/-- The formula of the first column has an item name. -/
def FirstNamed (v : View) : Prop :=
  ∃ column, v.columns[0]? = some column ∧ Formula.Flagged column.formula

/-! ## Changes of columns -/

theorem firstNamed_modifyColumn {i : Nat} {f : Column → Column} {v : View}
    (hf : ∀ column, (f column).formula = column.formula) (h : FirstNamed v) :
    FirstNamed (modifyColumn i f v) := by
  obtain ⟨column, hcolumn, hflagged⟩ := h
  by_cases hi : i = 0
  · refine ⟨f column, ?_, ?_⟩
    · simp [modifyColumn, hcolumn, hi]
    · rw [hf]
      exact hflagged
  · refine ⟨column, ?_, hflagged⟩
    simp [modifyColumn, hi, hcolumn]

theorem firstNamed_modifyColumn_succ {i : Nat} {f : Column → Column} {v : View}
    (h : FirstNamed v) : FirstNamed (modifyColumn (i + 1) f v) := by
  obtain ⟨column, hcolumn, hflagged⟩ := h
  refine ⟨column, ?_, hflagged⟩
  simp [modifyColumn, hcolumn]

theorem firstNamed_nameColumn {i : Nat} {v : View} (h : FirstNamed v) :
    FirstNamed (nameColumn i v) := by
  unfold nameColumn
  cases v.columns[i]? with
  | none => exact h
  | some current =>
      by_cases hname : current.itemName = []
      · simp only [if_pos hname]
        exact firstNamed_modifyColumn (v := v) (fun _ => rfl) h
      · simp only [if_neg hname]
        exact h

/-! ## Programs on a view -/

theorem reads_withFormula {α : Type} (i : Nat) {x : Formula.M α} (hx : Reads x) :
    Reads (withFormula i x) := by
  apply hx.part
  intro v
  have hself : ∀ (j : Nat) (columns : List Column), columns.modify j (fun column =>
      { column with formula := ((columns[j]?).map Column.formula).getD [] }) = columns := by
    intro j columns
    induction columns generalizing j with
    | nil => simp
    | cons column columns ih =>
        cases j with
        | zero => simp
        | succ j => simpa using ih j
  rw [modifyColumn, hself]

theorem preserves_withSelection {α : Type} (x : Formula.M α) :
    Preserves FirstNamed (withSelection x) := Preserves.part_of_put fun _ _ h => h

theorem preserves_measureColumn (i : Nat) (itemName title : List UInt8) :
    Preserves FirstNamed (measureColumn env i itemName title) := by
  have hsize : Preserves FirstNamed (withFormula i (Formula.size env.native env.engine)) :=
    (reads_withFormula i Formula.reads_size).preserves
  refine .bind hsize fun _ => ?_
  refine .bind (Preserves.update fun _ => firstNamed_modifyColumn fun _ => rfl) fun _ => ?_
  exact .bind hsize fun _ => .pure _

theorem preserves_encodeColumn (i : Nat) : Preserves FirstNamed (encodeColumn env (i + 1)) := by
  refine .bind (Preserves.update fun _ => firstNamed_nameColumn) fun _ => ?_
  refine .bind (Reads.value.preserves) fun v => ?_
  refine .bind (Preserves.part_of_put fun _ _ => firstNamed_modifyColumn_succ) fun _ => ?_
  exact preserves_measureColumn env _ _ _

theorem preserves_prepareColumn (i : Nat) :
    Preserves FirstNamed (prepareColumn env (i + 1)) := by
  refine .bind (reads_withFormula _ Formula.reads_size).preserves fun size => ?_
  by_cases hsize : size = 0
  · rw [if_pos hsize]
    exact .throw _
  · rw [if_neg hsize]
    exact preserves_encodeColumn env i

theorem preserves_prepareColumns (count : Nat) :
    ∀ i, Preserves FirstNamed (prepareColumns env (i + 1) count) := by
  induction count with
  | zero => exact fun i => .pure _
  | succ count ih =>
      intro i
      exact .bind (preserves_prepareColumn env i) fun _ => .bind (ih (i + 1)) fun _ => .pure _

/-! ## Filling the buffer -/

/-- A property of the view beside the memory that is being filled. -/
abbrev FillPreserves {α : Type} (x : FillM α) : Prop := Preserves (fun v => FirstNamed v.1) x

/-- Filling memory leaves the view. -/
theorem fst_exec_fill (x : Cursor.M Unit) (s : Called (View × Cursor)) :
    (exec (fill x) s).2.value.1 = s.value.1 := by
  rw [fill, exec_bind_of_ok (Native.exec_value _)]
  rcases exec x s.value.2 with ⟨_ | _, cursor⟩ <;> rfl

theorem preserves_fill (I : View → Prop) (x : Cursor.M Unit) :
    Preserves (fun v : View × Cursor => I v.1) (fill x) := by
  intro s hs
  show I (exec (fill x) s).2.value.1
  rw [fst_exec_fill]
  exact hs

theorem preserves_inView {I : View → Prop} {α : Type} {x : M α} (hx : Preserves I x) :
    Preserves (fun v : View × Cursor => I v.1) (inView x) :=
  Preserves.part hx (fun _ h => h) fun _ _ h _ => h

section ViewFormat

variable {I : View → Prop}
  (hI : ∀ v selection, I v → I { v with selection := selection })

theorem preserves_writeRecords (typ : OdsType) (records : List Record) :
    Preserves (fun v : View × Cursor => I v.1) (writeRecords env typ records) := by
  induction records with
  | nil => exact .pure _
  | cons record records ih => exact .bind (preserves_fill I _) fun _ => ih

include hI

theorem preserves_inSelection {α : Type} (x : Formula.M α) :
    Preserves (fun v : View × Cursor => I v.1) (inView (withSelection x)) :=
  preserves_inView (Preserves.part_of_put fun selection v h => hI v selection h)

theorem preserves_writeColumns (columns : List Column) :
    ∀ i, Preserves (fun v : View × Cursor => I v.1) (writeColumns env columns i) := by
  induction columns with
  | nil => exact fun i => .pure _
  | cons current columns ih =>
      intro i
      refine .bind (.bind ?_ fun cursor => ?_) fun _ => ih (i + 1)
      · exact preserves_inView (reads_withFormula i Formula.reads_getCursor).preserves
      · refine .bind (preserves_fill I _) fun _ => .bind (preserves_fill I _) fun _ =>
          .bind (preserves_fill I _) fun _ => ?_
        exact .bind (preserves_inSelection hI _) fun _ => preserves_inSelection hI _

theorem preserves_summaries (flags : UInt16) :
    Preserves (fun v : View × Cursor => I v.1) (addConflictSummary env flags) ∧
      Preserves (fun v : View × Cursor => I v.1) (addLinkSummary env flags) := by
  constructor
  · unfold addConflictSummary
    split
    · exact preserves_inSelection hI _
    · exact .pure _
  · unfold addLinkSummary
    split
    · exact preserves_inSelection hI _
    · exact .pure _

/-- Only the selection formula changes while the view format is written. -/
theorem preserves_fillViewFormat :
    Preserves (fun v : View × Cursor => I v.1) (fillViewFormat env) := by
  have hvalue : Preserves (fun v : View × Cursor => I v.1) (Native.value : FillM _) :=
    Reads.value.preserves
  refine .bind hvalue fun v => ?_
  refine .bind (preserves_fill I _) fun _ => .bind (preserves_fill I _) fun _ => ?_
  refine .bind (preserves_writeRecords env _ _) fun _ => ?_
  refine .bind (preserves_writeColumns env hI _ _) fun _ => ?_
  refine .bind (preserves_summaries env hI _).1 fun _ => ?_
  refine .bind (preserves_summaries env hI _).2 fun _ => ?_
  exact .bind (preserves_fill I _) fun _ => preserves_writeRecords env _ _

end ViewFormat

theorem fillPreserves_fillViewFormat : FillPreserves (fillViewFormat env) :=
  preserves_fillViewFormat env fun _ _ h => h

section Collation

variable (I : View → Prop)

theorem preserves_writeDescriptors (columns : List Column) : ∀ nameOffset,
    Preserves (fun v : View × Cursor => I v.1) (writeDescriptors env columns nameOffset) := by
  induction columns with
  | nil => exact fun _ => .pure _
  | cons entry columns ih =>
      intro nameOffset
      have hcast : Preserves (fun v : View × Cursor => I v.1)
          (checkedCast entry.itemName.length : FillM UInt16) := (Reads.checkedCast _).preserves
      exact .bind hcast fun _ => .bind (preserves_fill I _) fun _ => ih _

theorem preserves_writeNames (columns : List Column) :
    Preserves (fun v : View × Cursor => I v.1) (writeNames columns) := by
  induction columns with
  | nil => exact .pure _
  | cons entry columns ih => exact .bind (preserves_fill I _) fun _ => ih

theorem preserves_fillCollation (collation : Collation) (columns : List Column) :
    Preserves (fun v : View × Cursor => I v.1) (fillCollation env collation columns) :=
  .bind (preserves_fill I _) fun _ => .bind (preserves_fill I _) fun _ =>
    .bind (preserves_writeDescriptors env I columns 0) fun _ => preserves_writeNames I columns

/-- The collation is built without a change of the view. -/
theorem preserves_buildCollation : Preserves I (buildCollation env) := by
  refine .bind Reads.value.preserves fun v => ?_
  refine .bind (Reads.checkedCast _).preserves fun bufferSize => ?_
  refine .bind (Reads.checkedCast _).preserves fun items => ?_
  refine .bind (Reads.allocate _).preserves fun locker => ?_
  exact .bind (Preserves.withLocal (preserves_fillCollation env I _ _)) fun _ => .pure _

theorem reads_buildCollation : Reads (buildCollation env) :=
  fun s => preserves_buildCollation env (· = s.value) s rfl

end Collation

/-! ## The first column -/

theorem columns_nameColumn_ne_nil {i : Nat} {v : View} (h : v.columns ≠ []) :
    (nameColumn i v).columns ≠ [] := by
  unfold nameColumn
  cases v.columns[i]? with
  | none => exact h
  | some current =>
      by_cases hname : current.itemName = []
      · simpa [hname, modifyColumn] using h
      · simpa [hname] using h

theorem firstNamed_of_addItemName {s t : Called View} {itemName : List UInt8}
    (hcolumns : s.value.columns ≠ []) (h : exec (withFormula 0
      (Formula.addItemName env.native env.engine itemName)) s = (.ok (), t)) :
    FirstNamed t.value := by
  obtain ⟨column, columns, hlist⟩ := List.exists_cons_of_ne_nil hcolumns
  obtain ⟨u, hresult, rfl⟩ := exec_part_eq_ok h
  refine ⟨{ column with formula := u.value }, ?_, Formula.addItemName_flagged hresult⟩
  simp [modifyColumn, hlist]

/-- A column that is prepared has got its name, and its formula has taken it. -/
theorem exec_prepareColumn_parts {i : Nat} {s t : Called View} {n : Nat}
    (h : exec (prepareColumn env i) s = (.ok n, t)) : ∃ s₁ s₂,
      s₁.value = nameColumn i s.value ∧
      exec (withFormula i (Formula.addItemName env.native env.engine
        (((s₁.value.columns[i]?).map Column.itemName).getD []))) s₁ = (.ok (), s₂) ∧
      exec (measureColumn env i (((s₁.value.columns[i]?).map Column.itemName).getD [])
        (((s₁.value.columns[i]?).map Column.title).getD [])) s₂ = (.ok n, t) := by
  obtain ⟨size, s₁, hsize, h⟩ := exec_bind_eq_ok h
  have hvalue := (reads_withFormula i Formula.reads_size).of_ok hsize
  split at h
  · cases h
  · obtain ⟨_, s₂, hname, h⟩ := exec_bind_eq_ok h
    have hname := exec_update_eq_ok hname
    obtain ⟨v, s₃, hget, h⟩ := exec_bind_eq_ok h
    obtain ⟨rfl, rfl⟩ := exec_value_eq_ok hget
    obtain ⟨_, s₄, hadd, h⟩ := exec_bind_eq_ok h
    refine ⟨s₃, s₄, ?_, hadd, h⟩
    rw [hname, hvalue]

theorem firstNamed_of_prepareColumn {s t : Called View} {n : Nat}
    (hcolumns : s.value.columns ≠ []) (h : exec (prepareColumn env 0) s = (.ok n, t)) :
    FirstNamed t.value := by
  obtain ⟨s₁, s₂, hname, hadd, hmeasure⟩ := exec_prepareColumn_parts env h
  have hnonempty : s₁.value.columns ≠ [] := by
    rw [hname]
    exact columns_nameColumn_ne_nil hcolumns
  have hnamed := firstNamed_of_addItemName env hnonempty hadd
  exact Preserves.of_ok hmeasure hnamed (preserves_measureColumn env _ _ _)

theorem prepareColumn_of_firstNamed {s t : Called View} {n : Nat} (hnamed : FirstNamed s.value) :
    exec (prepareColumn env 0) s ≠ (.ok n, t) := by
  intro h
  obtain ⟨s₁, s₂, hname, hadd, -⟩ := exec_prepareColumn_parts env h
  have hflagged : FirstNamed s₁.value := by
    rw [hname]
    exact firstNamed_nameColumn hnamed
  obtain ⟨column, hcolumn, hflagged⟩ := hflagged
  obtain ⟨u, hresult, -⟩ := exec_part_eq_ok hadd
  refine Formula.addItemName_of_flagged ?_ hresult
  simpa [hcolumn] using hflagged

/-! ## A whole save -/

/-- Building the view format goes through the columns first. -/
theorem exec_buildViewFormat_eq_ok {s t : Called View} {bytes : List UInt8}
    (h : exec (buildViewFormat env) s = (.ok bytes, t)) :
    ∃ n s₁, exec (prepareColumns env 0 s.value.columns.length) s = (.ok n, s₁) ∧
      (FirstNamed s₁.value → FirstNamed t.value) := by
  obtain ⟨v, s₁, hvalue, h⟩ := exec_bind_eq_ok h
  cases hvalue
  obtain ⟨n, s₁, hprepare, h⟩ := exec_bind_eq_ok h
  refine ⟨n, s₁, hprepare, fun hnamed => Preserves.of_ok h hnamed ?_⟩
  refine .bind (Preserves.update fun _ h => h) fun _ => ?_
  refine .bind (Reads.allocate _).preserves fun locker => ?_
  exact .bind (Preserves.withLocal (fillPreserves_fillViewFormat env)) fun _ => .pure _

theorem firstNamed_of_buildViewFormat {s t : Called View} {bytes : List UInt8}
    (hcolumns : s.value.columns ≠ []) (h : exec (buildViewFormat env) s = (.ok bytes, t)) :
    FirstNamed t.value := by
  obtain ⟨n, s₁, hprepare, hrest⟩ := exec_buildViewFormat_eq_ok env h
  apply hrest
  obtain ⟨column, columns, hlist⟩ := List.exists_cons_of_ne_nil hcolumns
  rw [hlist, List.length_cons] at hprepare
  obtain ⟨_, s₂, hfirst, hprepare⟩ := exec_bind_eq_ok hprepare
  obtain ⟨_, s₃, hothers, hprepare⟩ := exec_bind_eq_ok hprepare
  cases hprepare
  have hnamed := firstNamed_of_prepareColumn env hcolumns hfirst
  exact Preserves.of_ok hothers hnamed (preserves_prepareColumns env _ _)

theorem buildViewFormat_of_firstNamed {s t : Called View} {bytes : List UInt8}
    (hnamed : FirstNamed s.value) : exec (buildViewFormat env) s ≠ (.ok bytes, t) := by
  intro h
  obtain ⟨n, s₁, hprepare, _⟩ := exec_buildViewFormat_eq_ok env h
  obtain ⟨column, hcolumn, _⟩ := hnamed
  cases hlist : s.value.columns with
  | nil => simp [hlist] at hcolumn
  | cons first columns =>
      rw [hlist, List.length_cons] at hprepare
      obtain ⟨_, s₂, hfirst, _⟩ := exec_bind_eq_ok hprepare
      exact prepareColumn_of_firstNamed env ⟨column, hcolumn, ‹_›⟩ hfirst

theorem preserves_withNote {α : Type} (x : Note.M α) : Preserves FirstNamed (withNote x) :=
  Preserves.part_of_put fun _ _ h => h

theorem preserves_eraseFormulaTime : Preserves FirstNamed (eraseFormulaTime env) := by
  refine .bind (preserves_withNote _) fun present => ?_
  split
  · exact preserves_withNote _
  · exact .pure _

theorem firstNamed_of_storeFormats {s t : Called View} (hcolumns : s.value.columns ≠ [])
    (h : exec (storeFormats env) s = (.ok (), t)) : FirstNamed t.value := by
  obtain ⟨viewFormat, s₁, hbuild, h⟩ := exec_bind_eq_ok h
  have hnamed := firstNamed_of_buildViewFormat env hcolumns hbuild
  refine Preserves.of_ok h hnamed ?_
  refine .bind (preserves_buildCollation env FirstNamed) fun collation => ?_
  refine .bind (preserves_eraseFormulaTime env) fun _ => ?_
  exact .bind (preserves_withNote _) fun _ => preserves_withNote _

/-- A save of a view with columns leaves the first column with an item name. -/
theorem firstNamed_of_save {s t : Called View} (hcolumns : s.value.columns ≠ [])
    (h : exec (save env) s = (.ok (), t)) : FirstNamed t.value := by
  obtain ⟨_, s₁, hformats, h⟩ := exec_bind_eq_ok h
  have hnamed := firstNamed_of_storeFormats env hcolumns hformats
  refine Preserves.of_ok h hnamed (.bind (.bind ?_ fun _ => ?_) fun _ => ?_)
  · exact preserves_withSelection _
  · exact preserves_withNote _
  · exact preserves_withNote _

/-- No save succeeds once the first column has an item name. -/
theorem save_of_firstNamed {s t : Called View} (hnamed : FirstNamed s.value) :
    exec (save env) s ≠ (.ok (), t) := by
  intro h
  obtain ⟨_, s₁, hformats, _⟩ := exec_bind_eq_ok h
  obtain ⟨viewFormat, s₂, hbuild, _⟩ := exec_bind_eq_ok hformats
  exact buildViewFormat_of_firstNamed env hnamed hbuild

end Dmn.Design.View
