import Mathlib.Data.List.Forall2
import Dmn.Library.ByteReader
import Dmn.Verification.Cursor.Reading
import Dmn.Verification.Design.Saving

/-! # The layout of a view format

The sizes are added up column by column, and the pieces are written one kind after the other.
The pieces fill the memory, and their own sizes tell where each of them ends. -/

namespace Dmn.Design.View

open Exec Native Cursor

variable (env : Env)

/-! ## Pieces -/

/-- The formula as far as its size covers it. -/
def formulaBytes (c : Column) : List UInt8 := c.formula.take (env.engine.getSize c.formula).toNat

def textBytes (c : Column) : List UInt8 := c.itemName ++ (c.title ++ formulaBytes env c)

def formatBytes (c : Column) : List UInt8 :=
  env.ods.write .viewColumnFormat (.columnFormat c.format)

def format2Bytes (c : Column) : List UInt8 :=
  env.ods.write .viewColumnFormat2 (.columnFormat2 c.format2)

/-- The view format of a view whose columns are prepared. -/
def layoutBytes (v : View) : List UInt8 :=
  integerBytes 2 typeViewFormat.toNat ++
    (env.ods.write .viewTableFormat (.tableFormat v.tableFormat) ++
      (v.columns.flatMap (formatBytes env) ++ (v.columns.flatMap (textBytes env) ++
        (env.ods.write .viewTableFormat2 (.tableFormat2 v.tableFormat2) ++
          v.columns.flatMap (format2Bytes env)))))

/-- What one column adds to the size of the memory. -/
def columnSize (c : Column) : Nat :=
  (env.engine.getSize c.formula).toNat + c.itemName.length + c.title.length +
    odsSize env .viewColumnFormat + odsSize env .viewColumnFormat2

/-- The formula lies within its memory. -/
def FormulaFits (c : Column) : Prop := (env.engine.getSize c.formula).toNat ≤ c.formula.length

theorem length_pieces {columns : List Column} (hfits : ∀ c ∈ columns, FormulaFits env c) :
    (columns.flatMap (formatBytes env)).length + (columns.flatMap (textBytes env)).length +
      (columns.flatMap (format2Bytes env)).length = (columns.map (columnSize env)).sum := by
  induction columns with
  | nil => rfl
  | cons c columns ih =>
      have hrest := ih fun x hx => hfits x (List.mem_cons_of_mem c hx)
      have hformula : (formulaBytes env c).length = (env.engine.getSize c.formula).toNat :=
        List.length_take_of_le (hfits c List.mem_cons_self)
      have hformat : (formatBytes env c).length = odsSize env .viewColumnFormat :=
        env.ods.length_write _ _
      have hformat2 : (format2Bytes env c).length = odsSize env .viewColumnFormat2 :=
        env.ods.length_write _ _
      simp only [List.flatMap_cons, List.length_append, List.map_cons, List.sum_cons, textBytes,
        columnSize, hformula, hformat, hformat2]
      omega

theorem length_layoutBytes {v : View} (hfits : ∀ c ∈ v.columns, FormulaFits env c) :
    (layoutBytes env v).length = odsSize env .viewTableFormat + odsSize env .viewTableFormat2 +
      (v.columns.map (columnSize env)).sum + 2 := by
  have hpieces := length_pieces env hfits
  simp only [layoutBytes, List.length_append, length_integerBytes, env.ods.length_write, odsSize]
    at hpieces ⊢
  omega

/-! ## The first loop -/

/-- A column before and after the first loop. -/
structure Prepared (c c' : Column) : Prop where
  title : c'.title = c.title
  itemName : c.itemName ≠ [] → c'.itemName = c.itemName
  nameLength : c'.itemName.length < 2 ^ 16
  format : c'.format = { c.format with
    formulaSize := env.engine.getSize c'.formula
    itemNameSize := UInt16.ofNat c'.itemName.length
    titleSize := UInt16.ofNat c'.title.length }
  format2 : c'.format2 = c.format2

/-- What the first loop leaves beside the columns. -/
structure Beside (v w : View) : Prop where
  tableFormat : ∃ sequenceNumber, w.tableFormat = { v.tableFormat with sequenceNumber }
  tableFormat2 : w.tableFormat2 = v.tableFormat2

theorem Beside.refl (v : View) : Beside v v := ⟨⟨_, rfl⟩, rfl⟩

theorem Beside.trans {u v w : View} (hu : Beside u v) (hv : Beside v w) : Beside u w := by
  obtain ⟨⟨_, hformat⟩, hformat2⟩ := hu
  obtain ⟨⟨sequence, hformat'⟩, hformat2'⟩ := hv
  refine ⟨⟨sequence, ?_⟩, hformat2'.trans hformat2⟩
  rw [hformat', hformat]

variable {env} {front rest : List Column} {c : Column}

theorem getElem?_front : (front ++ c :: rest)[front.length]? = some c := by simp

theorem modify_front (f : Column → Column) :
    (front ++ c :: rest).modify front.length f = front ++ f c :: rest := by
  induction front with
  | nil => rfl
  | cons first front ih => simpa using ih

/-- A program on the formula of a column. -/
theorem exec_withFormula_eq_ok {α : Type} {x : Formula.M α} {s t : Called View} {a : α}
    (hcolumns : s.value.columns = front ++ c :: rest)
    (h : exec (withFormula front.length x) s = (.ok a, t)) :
    ∃ u, exec x ⟨s.calls, c.formula⟩ = (.ok a, u) ∧ Beside s.value t.value ∧
      t.value.columns = front ++ { c with formula := u.value } :: rest := by
  obtain ⟨u, hx, rfl⟩ := exec_part_eq_ok h
  rw [hcolumns, getElem?_front] at hx
  refine ⟨u, hx, ⟨⟨_, rfl⟩, rfl⟩, ?_⟩
  show s.value.columns.modify _ _ = _
  rw [hcolumns, modify_front]

theorem exec_formulaSize_eq_ok {s t : Called View} {n : Nat}
    (hcolumns : s.value.columns = front ++ c :: rest) (h : exec (withFormula front.length
      (Formula.size env.native env.engine)) s = (.ok n, t)) :
    n = (env.engine.getSize c.formula).toNat ∧ t.value = s.value := by
  have hvalue := (reads_withFormula front.length Formula.reads_size).of_ok h
  obtain ⟨u, hsize, _⟩ := exec_withFormula_eq_ok hcolumns h
  exact ⟨Formula.exec_size_eq_ok hsize, hvalue⟩

theorem exec_nameColumn {v : View} (hcolumns : v.columns = front ++ c :: rest) :
    ∃ c', (c'.title = c.title ∧ (c.itemName ≠ [] → c'.itemName = c.itemName) ∧
      c'.format = c.format ∧ c'.format2 = c.format2) ∧
      (nameColumn front.length v).columns = front ++ c' :: rest ∧
      Beside v (nameColumn front.length v) := by
  unfold nameColumn
  rw [hcolumns, getElem?_front]
  by_cases hname : c.itemName = []
  · simp only [if_pos hname]
    refine ⟨{ c with itemName := makeItemName v.tableFormat.sequenceNumber },
      ⟨rfl, fun hne => absurd hname hne, rfl, rfl⟩, ?_, ⟨⟨_, rfl⟩, rfl⟩⟩
    show v.columns.modify _ _ = _
    rw [hcolumns, modify_front]
  · simp only [if_neg hname]
    exact ⟨c, ⟨rfl, fun _ => rfl, rfl, rfl⟩, hcolumns, Beside.refl v⟩

theorem exec_measureColumn_eq_ok {itemName title : List UInt8} {s t : Called View} {n : Nat}
    (hcolumns : s.value.columns = front ++ c :: rest)
    (h : exec (measureColumn env front.length itemName title) s = (.ok n, t)) :
    n = (env.engine.getSize c.formula).toNat + itemName.length + title.length +
        odsSize env .viewColumnFormat + odsSize env .viewColumnFormat2 ∧
      t.value.columns = front ++ { c with format := { c.format with
        formulaSize := env.engine.getSize c.formula
        itemNameSize := UInt16.ofNat itemName.length
        titleSize := UInt16.ofNat title.length } } :: rest ∧ Beside s.value t.value := by
  obtain ⟨size, s₁, hsize, h⟩ := exec_bind_eq_ok h
  obtain ⟨rfl, hvalue⟩ := exec_formulaSize_eq_ok hcolumns hsize
  obtain ⟨_, s₂, hupdate, h⟩ := exec_bind_eq_ok h
  have hs₂ := exec_update_eq_ok hupdate
  obtain ⟨size, s₃, hsize', h⟩ := exec_bind_eq_ok h
  cases h
  have hmeasured : s₂.value.columns = front ++ { c with format := { c.format with
      formulaSize := env.engine.getSize c.formula
      itemNameSize := UInt16.ofNat itemName.length
      titleSize := UInt16.ofNat title.length } } :: rest := by
    rw [hs₂]
    show s₁.value.columns.modify _ _ = _
    rw [hvalue, hcolumns, modify_front, UInt16.ofNat_toNat]
  have hbeside : Beside s.value s₂.value := by
    rw [hs₂, ← hvalue]
    exact ⟨⟨_, rfl⟩, rfl⟩
  obtain ⟨rfl, hvalue'⟩ := exec_formulaSize_eq_ok hmeasured hsize'
  exact ⟨rfl, hvalue' ▸ hmeasured, hvalue' ▸ hbeside⟩

/-- The first loop at one column. -/
theorem exec_prepareColumn_eq_ok {s t : Called View} {n : Nat}
    (hcolumns : s.value.columns = front ++ c :: rest)
    (h : exec (prepareColumn env front.length) s = (.ok n, t)) :
    ∃ c', Prepared env c c' ∧ t.value.columns = front ++ c' :: rest ∧ n = columnSize env c' ∧
      Beside s.value t.value := by
  obtain ⟨s₁, s₂, hname, hadd, hmeasure⟩ := exec_prepareColumn_parts env h
  obtain ⟨named, ⟨htitle, hmanual, hformat, hformat2⟩, hnamed, hbeside⟩ :=
    exec_nameColumn (v := s.value) hcolumns
  rw [← hname] at hnamed hbeside
  simp only [hnamed, getElem?_front, Option.map_some, Option.getD_some] at hadd hmeasure
  obtain ⟨u, hadd, hbeside₂, hcolumns₂⟩ := exec_withFormula_eq_ok hnamed hadd
  obtain ⟨rfl, hmeasured, hbeside'⟩ := exec_measureColumn_eq_ok hcolumns₂ hmeasure
  refine ⟨_, ?_, hmeasured, rfl, (hbeside.trans hbeside₂).trans hbeside'⟩
  refine ⟨htitle, hmanual, Formula.addItemName_length hadd, ?_, hformat2⟩
  simp only [hformat]

theorem exec_prepareColumns_eq_ok {s t : Called View} {n : Nat}
    (hcolumns : s.value.columns = front ++ rest)
    (h : exec (prepareColumns env front.length rest.length) s = (.ok n, t)) :
    ∃ rest', List.Forall₂ (Prepared env) rest rest' ∧ t.value.columns = front ++ rest' ∧
      n = (rest'.map (columnSize env)).sum ∧ Beside s.value t.value := by
  induction rest generalizing front s n with
  | nil =>
      cases h
      exact ⟨[], .nil, hcolumns, rfl, Beside.refl _⟩
  | cons c rest ih =>
      obtain ⟨size, s₁, hfirst, h⟩ := exec_bind_eq_ok h
      obtain ⟨sizes, s₂, hothers, h⟩ := exec_bind_eq_ok h
      cases h
      obtain ⟨c', hprepared, hcolumns₁, rfl, hbeside⟩ := exec_prepareColumn_eq_ok hcolumns hfirst
      have hnext : s₁.value.columns = (front ++ [c']) ++ rest := by
        rw [hcolumns₁, List.append_assoc, List.singleton_append]
      have hlength : front.length + 1 = (front ++ [c']).length := by simp
      rw [hlength] at hothers
      obtain ⟨rest', hrest, hcolumns₂, rfl, hbeside'⟩ := ih hnext hothers
      refine ⟨c' :: rest', .cons hprepared hrest, ?_, ?_, hbeside.trans hbeside'⟩
      · rw [hcolumns₂, List.append_assoc, List.singleton_append]
      · rw [List.map_cons, List.sum_cons]

/-! ## Filling the memory -/

theorem exec_fill_eq_ok {x : Cursor.M Unit} {s t : Called (View × Cursor)}
    (h : exec (fill x) s = (.ok (), t)) :
    ∃ c, exec x s.value.2 = (.ok (), c) ∧ t = ⟨s.calls, s.value.1, c⟩ := by
  obtain ⟨_, s₁, hvalue, h⟩ := exec_bind_eq_ok h
  obtain ⟨rfl, rfl⟩ := exec_value_eq_ok hvalue
  rcases hx : exec x s₁.value.2 with ⟨_ | _, c⟩ <;> rw [hx] at h
  · cases h
  · cases h
    exact ⟨c, rfl, rfl⟩

/-- The memory starts with these bytes, and the columns and tables of the view are as in `v`. -/
structure Filled (v : View) (size : Nat) (written : List UInt8)
    (s : Called (View × Cursor)) : Prop where
  columns : s.value.1.columns = v.columns
  tableFormat : s.value.1.tableFormat = v.tableFormat
  tableFormat2 : s.value.1.tableFormat2 = v.tableFormat2
  cursor : ∃ rest, s.value.2 = filled written rest ∧ written.length + rest.length = size

/-- The program writes these bytes, or stops. It returns only if `p` holds. -/
def Emits (v : View) (size : Nat) (x : FillM Unit) (bytes : List UInt8) (p : Prop) : Prop :=
  ∀ written, Meets (Filled v size written) x
    (fun _ s => Filled v size (written ++ bytes) s ∧ p) fun _ _ => True

variable {v : View} {size : Nat} {p q : Prop} {x y : FillM Unit} {first second bytes : List UInt8}

theorem Emits.bind (hx : Emits v size x first p) (hy : Emits v size y second q) :
    Emits v size (do x; y) (first ++ second) (p ∧ q) := by
  intro written
  refine (hx written).bind fun _ => Meets.of_and fun hp => ?_
  refine (hy (written ++ first)).weaken (fun _ h => h) (fun _ s h => ?_) fun _ _ h => h
  rw [List.append_assoc] at h
  exact ⟨h.1, hp, h.2⟩

theorem Emits.pure : Emits v size (Pure.pure ()) [] True := by
  intro written
  rw [List.append_nil]
  exact Meets.pure fun _ h => ⟨h, trivial⟩

theorem emits_write (hsize : size < 2 ^ 32) (bytes : List UInt8) :
    Emits v size (fill (Cursor.write bytes)) bytes True := by
  rintro written s ⟨hcolumns, hformat, hformat2, rest, hcursor, hlength⟩
  rcases hexec : exec (fill (Cursor.write bytes)) s with ⟨_ | _, t⟩
  · trivial
  obtain ⟨c, hwrite, rfl⟩ := exec_fill_eq_ok hexec
  rw [hcursor] at hwrite
  obtain ⟨hfit, rfl⟩ := exec_write_filled_eq_ok (by omega) hwrite
  refine ⟨⟨hcolumns, hformat, hformat2, _, rfl, ?_⟩, trivial⟩
  rw [List.length_append, List.length_drop]
  omega

variable (env) in
theorem emits_record (hsize : size < 2 ^ 32) (record : Record) (typ : OdsType) :
    Emits v size (fill (writeRecord env record typ)) (env.ods.write typ record) True := by
  rw [writeRecord, writeObject_some]
  exact emits_write hsize _

variable (env) in
theorem emits_records (hsize : size < 2 ^ 32) (typ : OdsType) (record : Column → Record)
    (columns : List Column) : Emits v size (writeRecords env typ (columns.map record))
      (columns.flatMap fun c => env.ods.write typ (record c)) True := by
  induction columns with
  | nil => exact .pure
  | cons c columns ih =>
      have hall := (emits_record env hsize (record c) typ).bind ih
      rwa [and_true] at hall

theorem emits_selection (x : Formula.M Unit) :
    Emits v size (inView (withSelection x)) [] True := by
  rintro written s ⟨hcolumns, hformat, hformat2, hcursor⟩
  rcases hexec : exec (inView (withSelection x)) s with ⟨_ | _, t⟩
  · trivial
  obtain ⟨u, hu, rfl⟩ := exec_part_eq_ok hexec
  obtain ⟨w, _, rfl⟩ := exec_part_eq_ok hu
  rw [List.append_nil]
  exact ⟨⟨hcolumns, hformat, hformat2, hcursor⟩, trivial⟩

variable (env) in
theorem emits_summaries (flags : UInt16) : Emits v size (addConflictSummary env flags) [] True ∧
    Emits v size (addLinkSummary env flags) [] True := by
  constructor
  · unfold addConflictSummary
    split
    · exact emits_selection _
    · exact .pure
  · unfold addLinkSummary
    split
    · exact emits_selection _
    · exact .pure

variable (env) in
theorem meets_columnCursor {i : Nat} (hc : v.columns[i]? = some c) (written : List UInt8) :
    Meets (Filled v size written) (inView (withFormula i (Formula.getCursor env.native env.engine)))
      (fun cursor s => Filled v size written s ∧
        (cursor.buffer = formulaBytes env c ∧ FormulaFits env c)) fun _ _ => True := by
  intro s hs
  rcases hexec : exec (inView (withFormula i (Formula.getCursor env.native env.engine))) s
    with ⟨_ | cursor, t⟩
  · trivial
  obtain ⟨u, hu, rfl⟩ := exec_part_eq_ok hexec
  have hvalue := (reads_withFormula i Formula.reads_getCursor).of_ok hu
  obtain ⟨w, hw, _⟩ := exec_part_eq_ok hu
  rw [hs.columns, hc] at hw
  obtain ⟨hfit, rfl⟩ := Formula.exec_getCursor_eq_ok hw
  refine ⟨?_, rfl, hfit⟩
  obtain ⟨hcolumns, hformat, hformat2, hcursor⟩ := hs
  simp only [hvalue]
  exact ⟨hcolumns, hformat, hformat2, hcursor⟩

variable (env) in
theorem emits_writeColumn (hsize : size < 2 ^ 32) {i : Nat} (hc : v.columns[i]? = some c) :
    Emits v size (writeColumn env c i) (textBytes env c) (FormulaFits env c) := by
  intro written
  refine (meets_columnCursor env hc written).bind fun cursor => Meets.of_and ?_
  rintro ⟨hbuffer, hfit⟩
  rw [hbuffer]
  have hall := (emits_write (v := v) hsize c.itemName).bind <| (emits_write hsize c.title).bind <|
    (emits_write hsize (formulaBytes env c)).bind <|
    (emits_selection (Formula.addSummary env.native env.engine c.itemName)).bind <|
    emits_selection (Formula.merge env.native env.engine c.formula)
  simp only [List.append_nil] at hall
  exact (hall written).weaken (fun _ h => h) (fun _ _ h => ⟨h.1, hfit⟩) fun _ _ h => h

variable (env) in
theorem emits_writeColumns (hsize : size < 2 ^ 32) (front columns : List Column)
    (hcolumns : v.columns = front ++ columns) :
    Emits v size (writeColumns env columns front.length) (columns.flatMap (textBytes env))
      (∀ c ∈ columns, FormulaFits env c) := by
  induction columns generalizing front with
  | nil =>
      intro written
      rw [List.flatMap_nil, List.append_nil]
      exact Meets.pure fun _ h => ⟨h, by simp⟩
  | cons c columns ih =>
      have hrest := ih (front ++ [c]) (by rw [hcolumns, List.append_assoc, List.singleton_append])
      have hlength : (front ++ [c]).length = front.length + 1 := by simp
      rw [hlength] at hrest
      have hall := (emits_writeColumn env (v := v) hsize (by rw [hcolumns, getElem?_front])).bind hrest
      rw [List.forall_mem_cons]
      exact hall

variable (env) in
/-- What is written is the layout, and every formula was within its memory. -/
theorem emits_fillViewFormat (hsize : size < 2 ^ 32) : Emits v size (fillViewFormat env)
    (layoutBytes env v) (∀ c ∈ v.columns, FormulaFits env c) := by
  have hall := (emits_write (v := v) hsize (integerBytes 2 typeViewFormat.toNat)).bind <|
    (emits_record env hsize (.tableFormat v.tableFormat) .viewTableFormat).bind <|
    (emits_records env hsize .viewColumnFormat (fun c => .columnFormat c.format) v.columns).bind <|
    (emits_writeColumns env hsize [] v.columns rfl).bind <|
    (emits_summaries env v.tableFormat.flags).1.bind <|
    (emits_summaries env v.tableFormat.flags).2.bind <|
    (emits_record env hsize (.tableFormat2 v.tableFormat2) .viewTableFormat2).bind <|
    emits_records env hsize .viewColumnFormat2 (fun c => .columnFormat2 c.format2) v.columns
  simp only [List.nil_append, and_true, true_and] at hall
  intro written s hs
  have hresult := hall written s hs
  unfold fillViewFormat
  rw [exec_bind_of_ok (Native.exec_value _), hs.columns, hs.tableFormat, hs.tableFormat2]
  exact hresult

/-! ## Reading back -/

structure Texts where
  itemName : List UInt8
  title : List UInt8
  formula : List UInt8
  deriving DecidableEq, Repr

/-- What a view format says. -/
structure StoredView where
  table : TableFormat
  formats : List ColumnFormat
  texts : List Texts
  table2 : TableFormat2
  formats2 : List ColumnFormat2

variable (env)

def readRecord (typ : OdsType) : ByteReader Record := do
  let bytes ← ByteReader.bytes (odsSize env typ)
  pure (env.ods.read typ bytes)

def readTableFormat : ByteReader TableFormat := do
  match ← readRecord env .viewTableFormat with
  | .tableFormat r => pure r
  | _ => failure

def readTableFormat2 : ByteReader TableFormat2 := do
  match ← readRecord env .viewTableFormat2 with
  | .tableFormat2 r => pure r
  | _ => failure

def readColumnFormat : ByteReader ColumnFormat := do
  match ← readRecord env .viewColumnFormat with
  | .columnFormat r => pure r
  | _ => failure

def readColumnFormat2 : ByteReader ColumnFormat2 := do
  match ← readRecord env .viewColumnFormat2 with
  | .columnFormat2 r => pure r
  | _ => failure

/-- The texts of a column end where its format says. -/
def readTexts (format : ColumnFormat) : ByteReader Texts := do
  let itemName ← ByteReader.bytes format.itemNameSize.toNat
  let title ← ByteReader.bytes format.titleSize.toNat
  let formula ← ByteReader.bytes format.formulaSize.toNat
  pure ⟨itemName, title, formula⟩

def readViewFormat : ByteReader StoredView := do
  let typ ← ByteReader.bytes 2
  if littleEndian typ ≠ typeViewFormat.toNat then failure
  else do
    let table ← readTableFormat env
    let formats ← ByteReader.times (readColumnFormat env) table.columns.toNat
    let texts ← ByteReader.each readTexts formats
    let table2 ← readTableFormat2 env
    let formats2 ← ByteReader.times (readColumnFormat2 env) table.columns.toNat
    pure ⟨table, formats, texts, table2, formats2⟩

/-- What the view format of a view must say. -/
def stored (v : View) : StoredView where
  table := v.tableFormat
  formats := v.columns.map Column.format
  texts := v.columns.map fun c => ⟨c.itemName, c.title, formulaBytes env c⟩
  table2 := v.tableFormat2
  formats2 := v.columns.map Column.format2

/-- `ods::read` gives back what `ods::write` stores of this record. -/
def Rereads (typ : OdsType) (record : Record) : Prop :=
  env.ods.read typ (env.ods.write typ record) = record

/-- `ods::read` gives back the records of the view, whatever sizes and counts they hold. -/
structure RereadsView (v : View) : Prop where
  tableFormat : ∀ columns sequenceNumber, Rereads env .viewTableFormat
    (.tableFormat { v.tableFormat with columns, sequenceNumber })
  tableFormat2 : Rereads env .viewTableFormat2 (.tableFormat2 v.tableFormat2)
  format : ∀ c ∈ v.columns, ∀ itemNameSize titleSize formulaSize, Rereads env .viewColumnFormat
    (.columnFormat { c.format with itemNameSize, titleSize, formulaSize })
  format2 : ∀ c ∈ v.columns, Rereads env .viewColumnFormat2 (.columnFormat2 c.format2)

variable {env}

theorem inverts_readRecord {typ : OdsType} {record : Record} (h : Rereads env typ record) :
    ByteReader.Inverts (readRecord env typ) (env.ods.write typ record) record := by
  have hbytes := ByteReader.Inverts.bytes (env.ods.write typ record)
  rw [env.ods.length_write] at hbytes
  exact hbytes.bind_pure (congrArg pure h)

theorem inverts_readTexts {c : Column} (hname : c.format.itemNameSize.toNat = c.itemName.length)
    (htitle : c.format.titleSize.toNat = c.title.length)
    (hformula : c.format.formulaSize = env.engine.getSize c.formula) (hfit : FormulaFits env c) :
    ByteReader.Inverts (readTexts c.format) (textBytes env c)
      ⟨c.itemName, c.title, formulaBytes env c⟩ := by
  have hlength : (formulaBytes env c).length = c.format.formulaSize.toNat := by
    rw [hformula]
    exact List.length_take_of_le hfit
  unfold readTexts
  rw [hname, htitle, ← hlength]
  exact (ByteReader.Inverts.bytes _).bind <| (ByteReader.Inverts.bytes _).bind <|
    (ByteReader.Inverts.bytes _).bind_pure rfl

variable (env) in
/-- The view and the bytes that `build_view_format` leaves for the view `v`. -/
structure Built (v w : View) (bytes : List UInt8) : Prop where
  columns : List.Forall₂ (Prepared env) v.columns w.columns
  tableFormat : ∃ sequenceNumber, w.tableFormat =
    { v.tableFormat with columns := UInt16.ofNat v.columns.length, sequenceNumber }
  tableFormat2 : w.tableFormat2 = v.tableFormat2
  fits : ∀ c ∈ w.columns, FormulaFits env c
  bytes_eq : bytes = layoutBytes env w

theorem built_of_buildViewFormat {s t : Called View} {bytes : List UInt8}
    (h : exec (buildViewFormat env) s = (.ok bytes, t)) : Built env s.value t.value bytes := by
  obtain ⟨_, s₁, hvalue, h⟩ := exec_bind_eq_ok h
  obtain ⟨rfl, rfl⟩ := exec_value_eq_ok hvalue
  obtain ⟨n, s₂, hprepare, h⟩ := exec_bind_eq_ok h
  have hstart : s₁.value.columns = [] ++ s₁.value.columns := rfl
  obtain ⟨columns, hprepared, hcolumns, rfl, ⟨sequence, hformat⟩, hformat2⟩ :=
    exec_prepareColumns_eq_ok hstart hprepare
  obtain ⟨_, s₃, hupdate, h⟩ := exec_bind_eq_ok h
  have hs₃ := exec_update_eq_ok hupdate
  obtain ⟨locker, s₄, hallocate, h⟩ := exec_bind_eq_ok h
  obtain ⟨hs₄, hlimit, hoffset, hlength⟩ := exec_allocate_eq_ok hallocate
  obtain ⟨⟨_, filledLocker⟩, s₅, hfill, h⟩ := exec_bind_eq_ok h
  cases h
  have hfill := exec_withLocal_eq_ok hfill
  have hlocker : locker = filled [] locker.buffer := by
    cases locker
    cases hoffset
    rfl
  have hstart : Filled s₄.value locker.buffer.length [] ⟨s₄.calls, s₄.value, locker⟩ :=
    ⟨rfl, rfl, rfl, _, hlocker, by simp⟩
  obtain ⟨⟨hcolumns', hformat', hformat2', rest, hrest, hsize⟩, hfits⟩ :=
    (emits_fillViewFormat env (hlength ▸ hlimit) []).of_ok hstart hfill
  dsimp only at hcolumns' hformat' hformat2' hrest
  have hvalue₄ : s₄.value = { s₂.value with tableFormat :=
      { s₂.value.tableFormat with columns := UInt16.ofNat s₂.value.columns.length } } := by
    rw [hs₄, hs₃]
  have hcolumns₄ : s₄.value.columns = columns := by
    rw [hvalue₄]
    exact hcolumns
  have hlayout : layoutBytes env t.value = layoutBytes env s₄.value := by
    simp only [layoutBytes, hcolumns', hformat', hformat2']
  have hfull : rest = [] := by
    have htotal := length_layoutBytes env hfits
    rw [hcolumns₄] at htotal
    rw [List.nil_append, htotal, hlength] at hsize
    exact List.length_eq_zero_iff.mp (by omega)
  refine ⟨?_, ⟨sequence, ?_⟩, ?_, ?_, ?_⟩
  · rw [hcolumns', hcolumns₄]
    exact hprepared
  · have hcount : s₂.value.columns.length = s₁.value.columns.length := by
      rw [hcolumns]
      exact hprepared.length_eq.symm
    rw [hformat', hvalue₄, hcount, hformat]
  · rw [hformat2', hvalue₄]
    exact hformat2
  · rw [hcolumns']
    exact hfits
  · rw [hlayout, hrest, hfull]
    simp [filled]

/-- The view format of a view is read back, if the sizes that it records are those of its
pieces. -/
theorem inverts_readViewFormat {v : View}
    (hcount : v.tableFormat.columns.toNat = v.columns.length)
    (htable : Rereads env .viewTableFormat (.tableFormat v.tableFormat))
    (htable2 : Rereads env .viewTableFormat2 (.tableFormat2 v.tableFormat2))
    (hformat : ∀ c ∈ v.columns, Rereads env .viewColumnFormat (.columnFormat c.format))
    (hformat2 : ∀ c ∈ v.columns, Rereads env .viewColumnFormat2 (.columnFormat2 c.format2))
    (htexts : ∀ c ∈ v.columns, ByteReader.Inverts (readTexts c.format) (textBytes env c)
      ⟨c.itemName, c.title, formulaBytes env c⟩) :
    ByteReader.Inverts (readViewFormat env) (layoutBytes env v) (stored env v) := by
  have htype := ByteReader.Inverts.bytes (integerBytes 2 typeViewFormat.toNat)
  rw [length_integerBytes] at htype
  have hcheck : littleEndian (integerBytes 2 typeViewFormat.toNat) = typeViewFormat.toNat := by
    rw [littleEndian_integerBytes]
    rfl
  refine htype.bind ?_
  rw [hcheck, if_neg (fun hne => hne rfl)]
  have htable : ByteReader.Inverts (readTableFormat env) _ v.tableFormat :=
    (inverts_readRecord htable).bind_pure rfl
  refine htable.bind ?_
  rw [hcount]
  have hformats : ByteReader.Inverts (ByteReader.times (readColumnFormat env) v.columns.length)
      (v.columns.flatMap (formatBytes env)) (v.columns.map Column.format) :=
    .times fun c hc => (inverts_readRecord (hformat c hc)).bind_pure rfl
  have hformats2 : ByteReader.Inverts (ByteReader.times (readColumnFormat2 env) v.columns.length)
      (v.columns.flatMap (format2Bytes env)) (v.columns.map Column.format2) :=
    .times fun c hc => (inverts_readRecord (hformat2 c hc)).bind_pure rfl
  have htable2 : ByteReader.Inverts (readTableFormat2 env) _ v.tableFormat2 :=
    (inverts_readRecord htable2).bind_pure rfl
  exact hformats.bind ((ByteReader.Inverts.each_map htexts).bind
    (htable2.bind (hformats2.bind_pure rfl)))

theorem exists_of_forall₂ {α β : Type} {R : α → β → Prop} {as : List α} {bs : List β}
    (h : List.Forall₂ R as bs) {b : β} (hb : b ∈ bs) : ∃ a ∈ as, R a b := by
  induction h with
  | nil => cases hb
  | cons hfirst _ ih =>
      rcases List.mem_cons.mp hb with rfl | hb
      · exact ⟨_, List.mem_cons_self, hfirst⟩
      · obtain ⟨a, ha, hr⟩ := ih hb
        exact ⟨a, List.mem_cons_of_mem _ ha, hr⟩

/-- What `build_view_format` returns is made of the pieces of the columns, and reading it by its
own layout gives them back in their order. -/
theorem buildViewFormat_layout {s t : Called View} {bytes : List UInt8}
    (hrereads : RereadsView env s.value) (htitles : ∀ c ∈ s.value.columns, c.title.length < 2 ^ 16)
    (hcount : s.value.columns.length < 2 ^ 16)
    (h : exec (buildViewFormat env) s = (.ok bytes, t)) :
    List.Forall₂ (Prepared env) s.value.columns t.value.columns ∧
      bytes = layoutBytes env t.value ∧
      (readViewFormat env).run bytes = some (stored env t.value, []) := by
  obtain ⟨hprepared, ⟨sequence, hformat⟩, hformat2, hfits, hbytes⟩ := built_of_buildViewFormat h
  refine ⟨hprepared, hbytes, ?_⟩
  rw [hbytes]
  refine (inverts_readViewFormat ?_ ?_ ?_ ?_ ?_ ?_).run
  · rw [hformat, ← hprepared.length_eq]
    exact UInt16.toNat_ofNat_of_lt hcount
  · rw [hformat]
    exact hrereads.tableFormat _ _
  · rw [hformat2]
    exact hrereads.tableFormat2
  · intro c' hc'
    obtain ⟨c, hc, hp⟩ := exists_of_forall₂ hprepared hc'
    rw [hp.format]
    exact hrereads.format c hc _ _ _
  · intro c' hc'
    obtain ⟨c, hc, hp⟩ := exists_of_forall₂ hprepared hc'
    rw [hp.format2]
    exact hrereads.format2 c hc
  · intro c' hc'
    obtain ⟨c, hc, hp⟩ := exists_of_forall₂ hprepared hc'
    apply inverts_readTexts _ _ _ (hfits c' hc')
    · rw [hp.format]
      exact UInt16.toNat_ofNat_of_lt hp.nameLength
    · rw [hp.format, hp.title]
      exact UInt16.toNat_ofNat_of_lt (htitles c hc)
    · rw [hp.format]

/-! ## Two view formats -/

def wordBytes (word : UInt16) : List UInt8 := integerBytes 2 word.toNat

def word (bytes : List UInt8) (i : Nat) : UInt16 := UInt16.ofNat (wordAt bytes i)

/-- The records as they lie in memory. -/
def packed : OdsType → Record → List UInt8
  | .viewTableFormat, .tableFormat r => r.header ++ (wordBytes r.columns ++
      (wordBytes r.sequenceNumber ++ (wordBytes r.flags ++ wordBytes r.flags2)))
  | .viewTableFormat2, .tableFormat2 r => r.fields
  | .viewColumnFormat, .columnFormat r => wordBytes r.flags1 ++ (wordBytes r.itemNameSize ++
      (wordBytes r.titleSize ++ (wordBytes r.formulaSize ++ r.others)))
  | .viewColumnFormat2, .columnFormat2 r => r.fields
  | _, _ => []

def packedSize : OdsType → UInt16
  | .viewTableFormat => 10
  | .viewColumnFormat => 32
  | .viewTableFormat2 | .viewColumnFormat2 => 48
  | _ => 8

def packedOds : Ods Record where
  bytes := fun _ => []
  ofBytes := fun _ => .columnFormat2 ⟨[]⟩
  size := packedSize
  write := fun typ record =>
    (packed typ record ++ List.replicate (packedSize typ).toNat 0).take (packedSize typ).toNat
  read := fun typ bytes => match typ with
    | .viewTableFormat => .tableFormat
        ⟨bytes.take 2, word bytes 2, word bytes 4, word bytes 6, word bytes 8⟩
    | .viewTableFormat2 => .tableFormat2 ⟨bytes⟩
    | .viewColumnFormat => .columnFormat
        ⟨word bytes 0, word bytes 2, word bytes 4, word bytes 6, bytes.drop 8⟩
    | _ => .columnFormat2 ⟨bytes⟩
  length_write := fun _ _ => List.length_take_of_le (by simp)

def packedEnv : Env := { sampleEnv with ods := packedOds }

/-- A view whose columns have these titles. -/
def titledView (titles : List (List UInt8)) : View where
  items := []
  selection := sampleFormula
  tableFormat := { header := [1, 0], flags := tableFlagConflict }
  tableFormat2 := ⟨List.replicate 48 0⟩
  columns := titles.map fun title => {
    format := { others := List.replicate 24 0 }
    format2 := ⟨List.replicate 48 0⟩
    formula := sampleFormula
    itemName := [0x41]
    title := title }

theorem ofNat_wordBytes (word : UInt16) : UInt16.ofNat (littleEndian (wordBytes word)) = word := by
  have hlt : word.toNat < 256 ^ 2 := word.toNat_lt
  rw [wordBytes, littleEndian_integerBytes, Nat.mod_eq_of_lt hlt, UInt16.ofNat_toNat]

theorem rereads_titledView (titles : List (List UInt8)) :
    RereadsView packedEnv (titledView titles) where
  tableFormat columns sequenceNumber := by
    show Record.tableFormat ⟨[1, 0], UInt16.ofNat (littleEndian (wordBytes columns)),
      UInt16.ofNat (littleEndian (wordBytes sequenceNumber)),
      UInt16.ofNat (littleEndian (wordBytes tableFlagConflict)),
      UInt16.ofNat (littleEndian (wordBytes 0))⟩ = _
    simp only [ofNat_wordBytes]
    rfl
  tableFormat2 := rfl
  format c hc itemNameSize titleSize formulaSize := by
    obtain ⟨title, _, rfl⟩ := List.mem_map.mp hc
    show Record.columnFormat ⟨UInt16.ofNat (littleEndian (wordBytes 0)),
      UInt16.ofNat (littleEndian (wordBytes itemNameSize)),
      UInt16.ofNat (littleEndian (wordBytes titleSize)),
      UInt16.ofNat (littleEndian (wordBytes formulaSize)), List.replicate 24 0⟩ = _
    simp only [ofNat_wordBytes]
  format2 c hc := by
    obtain ⟨title, _, rfl⟩ := List.mem_map.mp hc
    rfl

theorem buildViewFormat_layout_titledView :
    ∃ bytes t, exec (buildViewFormat packedEnv) ⟨0, titledView [[0x42], []]⟩ = (.ok bytes, t) ∧
      List.Forall₂ (Prepared packedEnv) (titledView [[0x42], []]).columns t.value.columns ∧
      bytes = layoutBytes packedEnv t.value ∧
      (readViewFormat packedEnv).run bytes = some (stored packedEnv t.value, []) := by
  have hok : (exec (buildViewFormat packedEnv) ⟨0, titledView [[0x42], []]⟩).1.isOk = true := by
    decide +kernel
  rcases hbuild : exec (buildViewFormat packedEnv) ⟨0, titledView [[0x42], []]⟩
    with ⟨_ | bytes, t⟩
  · rw [hbuild] at hok
    cases hok
  · exact ⟨bytes, t, rfl, buildViewFormat_layout (rereads_titledView _) (by decide) (by decide)
      hbuild⟩

/-! ### A view format of 4 GB

The buffer size is computed in 64 bits, and `OSMemAlloc` takes 32 bits of it. -/

def namedFormula : List UInt8 := Formula.Header.bytes ⟨12, 2, 12⟩ ++ [1, 0, 0x41, 0, 1, 2]

theorem delivers_readHeader_sample : Delivers packedEnv.native
    (Formula.readHeader packedEnv.native packedEnv.engine) sampleFormula ⟨8, 0, 8⟩ sampleFormula :=
  (Formula.delivers_getCursor (by decide)).bind
    ((Formula.delivers_through (c := ⟨sampleFormula, 6⟩) rfl).bind (.pure _ _))

theorem delivers_realloc_sample : Delivers packedEnv.native
    (Formula.realloc packedEnv.native 12) sampleFormula () (sampleFormula ++ [0, 0, 0, 0]) :=
  fun n => .inl ⟨n + 1, Nat.le_succ n, rfl⟩

theorem delivers_memmove_sample : Delivers packedEnv.native (Formula.memmove 10 6 2)
    (sampleFormula ++ [0, 0, 0, 0]) () (sampleFormula ++ [0, 0, 1, 2]) :=
  fun n => .inl ⟨n, Nat.le_refl n, rfl⟩

/-- The formula of the sample takes an item name. -/
theorem delivers_addItemName_sample : Delivers packedEnv.native
    (Formula.addItemName packedEnv.native packedEnv.engine [0x41]) sampleFormula ()
      namedFormula := by
  refine delivers_readHeader_sample.bind ?_
  rw [if_neg (by decide)]
  refine (delivers_checkedCast (by decide) _).bind <| (delivers_checkedCast (by decide) _).bind <|
    (delivers_checkedCast (by decide) _).bind <| (delivers_checkedCast (by decide) _).bind <|
    delivers_realloc_sample.bind <| (Formula.delivers_getCursor (by decide)).bind ?_
  rw [if_neg (by decide)]
  exact delivers_memmove_sample.bind
    (Formula.delivers_through (c := ⟨namedFormula, 10⟩) rfl)

theorem delivers_withFormula {native : Native} {α : Type} {x : Formula.M α} {v : View} {a : α}
    {formula : List UInt8} (hcolumns : v.columns = front ++ c :: rest)
    (hx : Delivers native x c.formula a formula) :
    ∃ v', Delivers native (withFormula front.length x) v a v' ∧
      v'.columns = front ++ { c with formula := formula } :: rest := by
  refine ⟨_, Delivers.part (w := formula) ?_, ?_⟩
  · rwa [hcolumns, getElem?_front]
  · show v.columns.modify _ _ = _
    rw [hcolumns, modify_front]

/-- The longest title that `lmbcs::from_string` can return. -/
def wideTitle : List UInt8 := List.replicate 65535 0x61

def wideView : View := titledView (List.replicate 65535 wideTitle)

/-- A column as the columns of the wide view are, before it is prepared. -/
structure Wide (c : Column) : Prop where
  formula : c.formula = sampleFormula
  itemName : c.itemName = [0x41]
  title : c.title = wideTitle

variable (env) in
theorem delivers_formulaSize {v : View} (hcolumns : v.columns = front ++ c :: rest) :
    ∃ v', Delivers env.native (withFormula front.length (Formula.size env.native env.engine)) v
      (env.engine.getSize c.formula).toNat v' ∧ v'.columns = front ++ c :: rest :=
  delivers_withFormula hcolumns (Formula.delivers_size c.formula)

variable (env) in
theorem delivers_measureColumn (itemName title : List UInt8) {v : View}
    (hcolumns : v.columns = front ++ c :: rest) :
    ∃ n v', Delivers env.native (measureColumn env front.length itemName title) v n v' := by
  obtain ⟨v₁, hsize, hcolumns₁⟩ := delivers_formulaSize env hcolumns
  generalize hformat : { c.format with
    formulaSize := UInt16.ofNat (env.engine.getSize c.formula).toNat
    itemNameSize := UInt16.ofNat itemName.length
    titleSize := UInt16.ofNat title.length } = format
  have hcolumns₂ : (modifyColumn front.length (fun column => { column with format :=
      { column.format with
        formulaSize := UInt16.ofNat (env.engine.getSize c.formula).toNat
        itemNameSize := UInt16.ofNat itemName.length
        titleSize := UInt16.ofNat title.length } }) v₁).columns =
      front ++ { c with format } :: rest := by
    show v₁.columns.modify _ _ = _
    rw [hcolumns₁, modify_front, hformat]
  obtain ⟨v₃, hsize', _⟩ := delivers_formulaSize env hcolumns₂
  exact ⟨_, v₃, hsize.bind ((Delivers.update _ v₁).bind (hsize'.bind (.pure v₃ _)))⟩

theorem nameColumn_of_named {v : View} (hcolumns : v.columns = front ++ c :: rest)
    (hname : c.itemName ≠ []) : nameColumn front.length v = v := by
  unfold nameColumn
  rw [hcolumns, getElem?_front]
  exact if_neg hname

theorem delivers_prepareColumn_wide {v : View} (hcolumns : v.columns = front ++ c :: rest)
    (hwide : Wide c) :
    ∃ n v', Delivers packedEnv.native (prepareColumn packedEnv front.length) v n v' := by
  obtain ⟨v₁, hsize, hcolumns₁⟩ := delivers_formulaSize packedEnv hcolumns
  have hnamed : nameColumn front.length v₁ = v₁ :=
    nameColumn_of_named hcolumns₁ (by rw [hwide.itemName]; exact List.cons_ne_nil _ _)
  have hformula : Delivers packedEnv.native
      (Formula.addItemName packedEnv.native packedEnv.engine [0x41]) c.formula () namedFormula := by
    rw [hwide.formula]
    exact delivers_addItemName_sample
  obtain ⟨v₂, hadd, hcolumns₂⟩ := delivers_withFormula hcolumns₁ hformula
  obtain ⟨n, v₃, hmeasure⟩ := delivers_measureColumn packedEnv [0x41] c.title hcolumns₂
  refine ⟨n, v₃, hsize.bind ?_⟩
  rw [hwide.formula, if_neg (by decide)]
  have hupdate : Delivers packedEnv.native (Native.update (nameColumn front.length)) v₁ ()
      (nameColumn front.length v₁) := Delivers.update _ v₁
  rw [hnamed] at hupdate
  refine hupdate.bind ((Delivers.value v₁).bind ?_)
  simp only [hcolumns₁, getElem?_front, Option.map_some, Option.getD_some, hwide.itemName]
  exact hadd.bind hmeasure

theorem exec_prepareColumns_wide {s : Called View} (hcolumns : s.value.columns = front ++ rest)
    (hwide : ∀ c ∈ rest, Wide c) :
    ∃ n t, exec (prepareColumns packedEnv front.length rest.length) s = (.ok n, t) := by
  induction rest generalizing front s with
  | nil => exact ⟨0, s, rfl⟩
  | cons c rest ih =>
      obtain ⟨n, v, hdelivers⟩ :=
        delivers_prepareColumn_wide hcolumns (hwide c List.mem_cons_self)
      obtain ⟨k, _, hfirst⟩ := hdelivers.of_quiet (n := s.calls) fun _ _ => rfl
      obtain ⟨c', _, hcolumns₁, _, _⟩ := exec_prepareColumn_eq_ok hcolumns hfirst
      have hnext : (⟨k, v⟩ : Called View).value.columns = (front ++ [c']) ++ rest := by
        rw [hcolumns₁, List.append_assoc, List.singleton_append]
      have hlength : (front ++ [c']).length = front.length + 1 := by simp
      obtain ⟨m, t, hothers⟩ := ih hnext fun x hx => hwide x (List.mem_cons_of_mem c hx)
      rw [hlength] at hothers
      refine ⟨n + m, t, ?_⟩
      rw [List.length_cons, prepareColumns, exec_bind_of_ok hfirst, exec_bind_of_ok hothers]
      rfl

theorem wide_of_mem {c : Column} (hc : c ∈ wideView.columns) : Wide c := by
  obtain ⟨title, htitle, rfl⟩ := List.mem_map.mp hc
  exact ⟨rfl, rfl, List.eq_of_mem_replicate htitle⟩

theorem length_wideView : wideView.columns.length = 65535 :=
  (List.length_map _).trans List.length_replicate

/-- The sizes of prepared wide columns add up to more than 32 bits hold. -/
theorem columnSize_wide {columns columns' : List Column}
    (h : List.Forall₂ (Prepared packedEnv) columns columns') (hwide : ∀ c ∈ columns, Wide c) :
    65614 * columns.length ≤ (columns'.map (columnSize packedEnv)).sum := by
  induction h with
  | nil => exact Nat.le_refl 0
  | @cons c c' columns columns' hprepared _ ih =>
      have hrest := ih fun x hx => hwide x (List.mem_cons_of_mem c hx)
      have hfirst := hwide c List.mem_cons_self
      have htitle : c'.title.length = 65535 := by
        rw [hprepared.title, hfirst.title]
        exact List.length_replicate
      have hname : c'.itemName.length = 1 := by
        rw [hprepared.itemName (by rw [hfirst.itemName]; exact List.cons_ne_nil _ _),
          hfirst.itemName]
        rfl
      have hformat : odsSize packedEnv .viewColumnFormat = 32 := rfl
      have hformat2 : odsSize packedEnv .viewColumnFormat2 = 48 := rfl
      rw [List.map_cons, List.sum_cons, List.length_cons, columnSize, htitle, hname, hformat,
        hformat2]
      omega

/-- The memory is smaller than its view. -/
theorem exec_allocate_of_large {size : Nat} (hlimit : 2 ^ 32 ≤ size) (s : Called View) :
    ∃ t, exec (packedEnv.native.allocate size) s = (.error .undefined, t) := by
  refine ⟨⟨s.calls + 2, s.value⟩, ?_⟩
  have hlocked : exec packedEnv.native.lockBlock (⟨s.calls + 1, s.value⟩ : Called View) = _ :=
    exec_lockBlock rfl
  rw [allocate, if_neg (by omega), exec_bind_of_ok (exec_get s), exec_call_bind rfl,
    exec_bind_of_ok hlocked, if_pos hlimit]
  rfl

theorem buildViewFormat_wide {v : View} (hwide : ∀ c ∈ v.columns, Wide c)
    (hlength : v.columns.length = 65535) :
    ∃ t, exec (buildViewFormat packedEnv) ⟨0, v⟩ = (.error .undefined, t) := by
  have hcolumns : (⟨0, v⟩ : Called View).value.columns = [] ++ v.columns := rfl
  obtain ⟨n, s, hprepare⟩ := exec_prepareColumns_wide hcolumns hwide
  obtain ⟨columns, hprepared, _, hn, _⟩ := exec_prepareColumns_eq_ok hcolumns hprepare
  have hsize := columnSize_wide hprepared hwide
  rw [← hn, hlength] at hsize
  rw [List.length_nil] at hprepare
  have hlimit : 2 ^ 32 ≤ odsSize packedEnv .viewTableFormat +
      odsSize packedEnv .viewTableFormat2 + n + 2 := by omega
  have hupdate : exec (Native.update fun v : View => { v with tableFormat :=
      { v.tableFormat with columns := UInt16.ofNat v.columns.length } }) s = (.ok (), _) := rfl
  obtain ⟨t, hallocate⟩ := exec_allocate_of_large hlimit _
  refine ⟨t, ?_⟩
  rw [buildViewFormat, exec_bind_of_ok (Native.exec_value _), exec_bind_of_ok hprepare,
    exec_bind_of_ok hupdate, exec_bind_of_error hallocate]

/-- The view format of the wide view does not fit in the memory, and no exception tells. -/
theorem not_layout_of_wideView : ¬ ∀ (env : Env) (s t : Called View)
    (result : Except Stop (List UInt8)), RereadsView env s.value →
    (∀ c ∈ s.value.columns, c.title.length < 2 ^ 16) → s.value.columns.length < 2 ^ 16 →
    exec (buildViewFormat env) s = (result, t) → (∀ error, result ≠ .error (.throws error)) →
    ∃ bytes, result = .ok bytes ∧ bytes = layoutBytes env t.value ∧
      (readViewFormat env).run bytes = some (stored env t.value, []) := by
  intro h
  obtain ⟨t, hbuild⟩ := buildViewFormat_wide (fun _ => wide_of_mem) length_wideView
  have htitles : ∀ c ∈ wideView.columns, c.title.length < 2 ^ 16 := by
    intro c hc
    rw [(wide_of_mem hc).title, wideTitle, List.length_replicate]
    decide
  have hcount : wideView.columns.length < 2 ^ 16 := by
    rw [length_wideView]
    decide
  obtain ⟨bytes, hresult, _⟩ := h packedEnv ⟨0, wideView⟩ t _ (rereads_titledView _) htitles hcount
    hbuild nofun
  cases hresult

end Dmn.Design.View
