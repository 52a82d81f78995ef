import Mathlib.Algebra.Ring.Nat
import Dmn.Model.NoteValue

/-! # `design::column` and `design::view`

Saving a view design. Fields of the format records that no code here computes with are
kept together as bytes. -/

namespace Dmn

namespace Design

/-! ## Records -/

/-- `view_column_format`. -/
structure ColumnFormat where
  flags1 : UInt16 := 0
  itemNameSize : UInt16 := 0
  titleSize : UInt16 := 0
  formulaSize : UInt16 := 0
  others : List UInt8

/-- `view_column_format2`. -/
structure ColumnFormat2 where
  fields : List UInt8

/-- `view_table_format`. -/
structure TableFormat where
  header : List UInt8
  columns : UInt16 := 0
  sequenceNumber : UInt16 := 1
  flags : UInt16
  flags2 : UInt16 := 0

/-- `view_table_format2`. -/
structure TableFormat2 where
  fields : List UInt8

structure Collation where
  bufferSize : UInt16
  items : UInt16

structure CollateDescriptor where
  flags : UInt8
  keytype : UInt8
  nameOffset : UInt16
  nameLength : UInt16

/-- The records that are written with `ods::write`. -/
inductive Record where
  | tableFormat (r : TableFormat)
  | tableFormat2 (r : TableFormat2)
  | columnFormat (r : ColumnFormat)
  | columnFormat2 (r : ColumnFormat2)
  | collation (r : Collation)
  | collateDescriptor (r : CollateDescriptor)

def tableFlagFlatIndex : UInt16 := 0x0002

def tableFlagConflict : UInt16 := 0x0008

/-! ## Columns -/

inductive Sorting where
  | none
  | ascending
  | descending
  deriving DecidableEq, Repr

structure Column where
  format : ColumnFormat
  format2 : ColumnFormat2
  formula : List UInt8
  itemName : List UInt8 := []
  title : List UInt8 := []

namespace Column

def setItemName (codePage : CharCode Char UInt8) (column : Column) (itemName : List UInt8) :
    Column := { column with itemName := Lmbcs.fromString codePage itemName }

def setTitle (codePage : CharCode Char UInt8) (column : Column) (title : List UInt8) : Column :=
  { column with title := Lmbcs.fromString codePage title }

def setFormula (column : Column) (formula : List UInt8) : Column :=
  { column with formula := formula }

def flagSort : UInt16 := 0x0001

def flagSortCategorize : UInt16 := 0x0002

def flagSortDescending : UInt16 := 0x0004

def setSorting (column : Column) (sort : Sorting) (categorized : Bool) : Column :=
  let sortMask := flagSort ||| flagSortCategorize ||| flagSortDescending
  let flags := column.format.flags1 &&& ~~~sortMask
  let flags := if sort ≠ .none || categorized then flags ||| flagSort else flags
  let flags := if sort = .descending then flags ||| flagSortDescending else flags
  let flags := if categorized then flags ||| flagSortCategorize else flags
  { column with format := { column.format with flags1 := flags } }

def getSorting (column : Column) : Sorting × Bool :=
  let flags := column.format.flags1
  let categorized : Bool := flags &&& flagSortCategorize ≠ 0
  if flags &&& flagSort = 0 then (.none, categorized)
  else
    let descending : Bool := flags &&& flagSortDescending ≠ 0
    (if descending then .descending else .ascending, categorized)

def isSorted (column : Column) : Bool := column.format.flags1 &&& flagSort ≠ 0

end Column

/-! ## Views -/

structure View where
  items : List Item
  selection : List UInt8
  tableFormat : TableFormat
  tableFormat2 : TableFormat2
  columns : List Column

/-- What a design works on. -/
structure Env where
  native : Native
  engine : Formula.Engine
  ods : Ods Record
  codePage : CharCode Char UInt8

namespace View

/-- `column`, up to the reference that it returns; `blank` is a new column. -/
def column (codePage : CharCode Char UInt8) (blank : Column) (title : List UInt8) (v : View) : View :=
  let converted := Lmbcs.fromString codePage title
  if v.columns.any fun current => current.title = converted then v
  else { v with columns := v.columns ++ [{ blank with title := converted }] }

abbrev M (α : Type) := Native.M View α

variable (env : Env)

def withSelection {α : Type} (x : Formula.M α) : M α :=
  Native.part View.selection (fun formula v => { v with selection := formula }) x

def withNote {α : Type} (x : Note.M α) : M α :=
  Native.part View.items (fun items v => { v with items := items }) x

def modifyColumn (i : Nat) (f : Column → Column) (v : View) : View :=
  { v with columns := v.columns.modify i f }

/-- The formula of the column with this index. -/
def withFormula {α : Type} (i : Nat) (x : Formula.M α) : M α :=
  Native.part (fun v => ((v.columns[i]?).map Column.formula).getD [])
    (fun formula => modifyColumn i fun column => { column with formula := formula }) x

def makeItemName (sequence : UInt16) : List UInt8 :=
  Lmbcs.asciiBytes ('$' :: Nat.toDigits 10 sequence.toNat)

/-- `ods::size`. -/
def odsSize (typ : OdsType) : Nat := (env.ods.size typ).toNat

/-- A column without an item name takes the next automatic one. -/
def nameColumn (i : Nat) (v : View) : View :=
  match v.columns[i]? with
  | none => v
  | some current =>
      if current.itemName = [] then
        { modifyColumn i (fun c => { c with itemName := makeItemName v.tableFormat.sequenceNumber }) v
          with tableFormat :=
            { v.tableFormat with sequenceNumber := v.tableFormat.sequenceNumber + 1 } }
      else v

/-- Record the sizes of a column in its format; what it adds to the buffer size. -/
def measureColumn (i : Nat) (itemName title : List UInt8) : M Nat := do
  let formulaSize ← withFormula i (Formula.size env.native env.engine)
  Native.update (modifyColumn i fun c => { c with format := { c.format with
    formulaSize := UInt16.ofNat formulaSize
    itemNameSize := UInt16.ofNat itemName.length
    titleSize := UInt16.ofNat title.length } })
  let formulaSize ← withFormula i (Formula.size env.native env.engine)
  pure (formulaSize + itemName.length + title.length + odsSize env .viewColumnFormat +
    odsSize env .viewColumnFormat2)

/-- The first loop of `build_view_format` at one column, once its formula is known not to
be empty. -/
def encodeColumn (i : Nat) : M Nat := do
  Native.update (nameColumn i)
  let v ← Native.value
  let itemName := ((v.columns[i]?).map Column.itemName).getD []
  let title := ((v.columns[i]?).map Column.title).getD []
  withFormula i (Formula.addItemName env.native env.engine itemName)
  measureColumn env i itemName title

/-- The first loop of `build_view_format` at one column. -/
def prepareColumn (i : Nat) : M Nat := do
  let size ← withFormula i (Formula.size env.native env.engine)
  if size = 0 then throw (.throws (.runtimeError "View column formula is empty"))
  else encodeColumn env i

/-- The first loop from column `i` on, with `count` columns to go. -/
def prepareColumns : Nat → Nat → M Nat
  | _, 0 => pure 0
  | i, count + 1 => do
      let size ← prepareColumn env i
      let rest ← prepareColumns (i + 1) count
      pure (size + rest)

/-- With the memory that is being filled. -/
abbrev FillM (α : Type) := Native.M (View × Cursor) α

def fill (x : Cursor.M Unit) : FillM Unit := do
  let v ← Native.value
  let (result, cursor) := Exec.exec x v.2
  Native.update fun v => (v.1, cursor)
  match result with
  | .ok _ => pure ()
  | .error stop => throw stop

def writeRecord (record : Record) (typ : OdsType) : Cursor.M Unit :=
  Cursor.writeObject env.ods record (some typ)

def inView {α : Type} (x : M α) : FillM α :=
  Native.part Prod.fst (fun v both => (v, both.2)) x

/-- The third loop at one column: its name, its title and its formula. The selection
formula takes them in. -/
def writeColumn (current : Column) (i : Nat) : FillM Unit := do
  let cursor ← inView (withFormula i (Formula.getCursor env.native env.engine))
  fill (Cursor.write current.itemName)
  fill (Cursor.write current.title)
  fill (Cursor.write cursor.buffer)
  inView (withSelection (Formula.addSummary env.native env.engine current.itemName))
  inView (withSelection (Formula.merge env.native env.engine current.formula))

def writeColumns : List Column → Nat → FillM Unit
  | [], _ => pure ()
  | current :: rest, i => do
      writeColumn env current i
      writeColumns rest (i + 1)

def writeRecords (typ : OdsType) : List Record → FillM Unit
  | [] => pure ()
  | record :: rest => do
      fill (writeRecord env record typ)
      writeRecords typ rest

/-- `std::to_underlying(type::view_format)`. -/
def typeViewFormat : UInt16 := 5

def typeCollation : UInt16 := 2

def viewFormatItem : List UInt8 := Lmbcs.asciiBytes "$ViewFormat".toList

def collationItem : List UInt8 := Lmbcs.asciiBytes "$Collation".toList

def formulaItem : List UInt8 := Lmbcs.asciiBytes "$Formula".toList

def formulaTimeItem : List UInt8 := Lmbcs.asciiBytes "$FormulaTime".toList

def conflictItem : List UInt8 := Lmbcs.asciiBytes "$Conflict".toList

/-- `FIELD_LINK`. -/
def fieldLink : List UInt8 := Lmbcs.asciiBytes "$REF".toList

/-- The summary item for conflicts, as the flags ask for it. -/
def addConflictSummary (flags : UInt16) : FillM Unit :=
  if flags &&& tableFlagConflict ≠ 0 then
    inView (withSelection
      (Formula.addSummaryText env.native env.engine env.codePage conflictItem))
  else pure ()

/-- The summary item for the response hierarchy, unless the flags ask for a flat index. -/
def addLinkSummary (flags : UInt16) : FillM Unit :=
  if flags &&& tableFlagFlatIndex = 0 then
    inView (withSelection
      (Formula.addSummaryText env.native env.engine env.codePage fieldLink))
  else pure ()

/-- What `build_view_format` writes. -/
def fillViewFormat : FillM Unit := do
  let v ← Native.value
  let columns := v.1.columns
  fill (Cursor.writeInteger 2 typeViewFormat.toNat)
  fill (writeRecord env (.tableFormat v.1.tableFormat) .viewTableFormat)
  writeRecords env .viewColumnFormat (columns.map fun c => .columnFormat c.format)
  writeColumns env columns 0
  addConflictSummary env v.1.tableFormat.flags
  addLinkSummary env v.1.tableFormat.flags
  fill (writeRecord env (.tableFormat2 v.1.tableFormat2) .viewTableFormat2)
  writeRecords env .viewColumnFormat2 (columns.map fun c => .columnFormat2 c.format2)

/-- `build_view_format`; the bytes of the value it returns. -/
def buildViewFormat : M (List UInt8) := do
  let v ← Native.value
  let columnsSize ← prepareColumns env 0 v.columns.length
  Native.update fun v => { v with tableFormat :=
    { v.tableFormat with columns := UInt16.ofNat v.columns.length } }
  let locker ← env.native.allocate (odsSize env .viewTableFormat +
    odsSize env .viewTableFormat2 + columnsSize + 2)
  let (_, locker) ← Native.withLocal locker (fillViewFormat env)
  pure locker.buffer

def collateTypeKey : UInt8 := 0

def collateTypeCategory : UInt8 := 7

def cdfDescending : UInt8 := 0x01

def cdfPermuted : UInt8 := 0x08

/-- The descriptors of the sorted columns; the offset of a name is a 16-bit word. -/
def writeDescriptors : List Column → UInt16 → FillM Unit
  | [], _ => pure ()
  | entry :: rest, nameOffset => do
      let (sort, categorized) := entry.getSorting
      let keyType := if categorized then collateTypeCategory else collateTypeKey
      let sortFlag := if sort = .descending then cdfDescending else 0
      let nameLength ← checkedCast entry.itemName.length
      fill (writeRecord env (.collateDescriptor ⟨sortFlag ||| cdfPermuted, keyType, nameOffset,
        nameLength⟩) .collateDescriptor)
      writeDescriptors rest (nameOffset + nameLength)

def writeNames : List Column → FillM Unit
  | [] => pure ()
  | entry :: rest => do
      fill (Cursor.write entry.itemName)
      writeNames rest

def fillCollation (collation : Collation) (sortedCols : List Column) : FillM Unit := do
  fill (Cursor.writeInteger 2 typeCollation.toNat)
  fill (writeRecord env (.collation collation) .collation)
  writeDescriptors env sortedCols 0
  writeNames sortedCols

/-- `build_collation`. -/
def buildCollation : M (List UInt8) := do
  let v ← Native.value
  let sortedCols := v.columns.filter Column.isSorted
  let itemNamesSize := (sortedCols.map fun c => c.itemName.length).sum
  let descriptorsSize := odsSize env .collateDescriptor * sortedCols.length
  let bufferSize ← checkedCast (odsSize env .collation + descriptorsSize + itemNamesSize)
  let items ← checkedCast sortedCols.length
  let locker ← env.native.allocate (2 + bufferSize.toNat)
  let (_, locker) ← Native.withLocal locker (fillCollation env ⟨bufferSize, items⟩ sortedCols)
  pure locker.buffer

/-- `note::set` with a `value`: its first two bytes are the type. -/
def setValue (key : List UInt8) (value : List UInt8) : M Unit :=
  withNote (Note.set env.codePage env.native key
    (UInt16.ofNat (Cursor.littleEndian (value.take 2))) (value.drop 2) 0)

def eraseFormulaTime : M Unit := do
  let present ← withNote (Note.has env.codePage formulaTimeItem)
  if present then withNote (Note.erase env.codePage env.native formulaTimeItem)
  else pure ()

/-- The part of `save` that stores the two built values. -/
def storeFormats : M Unit := do
  let viewFormat ← buildViewFormat env
  let collation ← buildCollation env
  eraseFormulaTime env
  setValue env viewFormatItem viewFormat
  setValue env collationItem collation

/-- The part of `save` that stores the selection formula. -/
def storeSelection : M Unit := do
  let selection ← withSelection (Formula.getCursor env.native env.engine)
  withNote (Note.set env.codePage env.native formulaItem typeFormula selection.buffer 0)

def save : M Unit := do
  storeFormats env
  storeSelection env
  withNote (Note.save env.native)

end View

end Design

end Dmn
