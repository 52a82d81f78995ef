import Mathlib.Data.Bool.AllAny
import Dmn.Verification.Cursor.Correctness
import Dmn.Verification.Design.ColumnNames
import Dmn.Verification.Lmbcs.RoundTrip
import Dmn.Verification.Note

/-! # Saving a view design again

A view without columns can be saved any number of times, and each save stores the same
items. With a column, the item name that the first save has added to the column's formula
makes every further save fail. -/

namespace Dmn.Design.View

open Exec Native Cursor

variable (env : Env)

/-! ## Assumptions -/

/-- A summary item stays in a formula, and adding it again changes nothing. -/
structure SummaryLaws (present : List UInt8 → List UInt8 → Prop) : Prop where
  present_summaryItem : ∀ formula name, present (env.engine.summaryItem formula name) name
  present_of_present : ∀ formula name other, present formula other →
    present (env.engine.summaryItem formula name) other
  summaryItem_of_present : ∀ formula name, present formula name →
    env.engine.summaryItem formula name = formula

/-! ## Writing into the buffer -/

/-- The program writes these bytes and changes the view from `v` to `v'`. -/
def Writes (x : FillM Unit) (v v' : View) (bytes : List UInt8) : Prop :=
  ∀ written rest, bytes.length ≤ rest.length → written.length + rest.length < 2 ^ 32 →
    Delivers env.native x (v, filled written rest) ()
      (v', filled (written ++ bytes) (rest.drop bytes.length))

variable {env}

theorem delivers_fill {x : Cursor.M Unit} {v : View} {c c' : Cursor}
    (h : exec x c = (.ok (), c')) : Delivers env.native (fill x) (v, c) () (v, c') := by
  refine (Delivers.value (v, c)).bind ?_
  simp only [h]
  exact (Delivers.update _ _).bind (.pure _ _)

theorem Writes.write (v : View) (bytes : List UInt8) :
    Writes env (fill (Cursor.write bytes)) v v bytes :=
  fun _ _ hfit hsize => delivers_fill (exec_write_filled hfit hsize)

theorem Writes.record (v : View) (record : Record) (typ : OdsType) :
    Writes env (fill (writeRecord env record typ)) v v (env.ods.write typ record) := by
  rw [writeRecord, writeObject_some]
  exact .write v _

theorem Writes.pure (v : View) : Writes env (Pure.pure ()) v v [] := by
  intro written rest _ _
  rw [List.append_nil]
  exact Delivers.pure _ ()

theorem Writes.inView {x : M Unit} {v v' : View} (h : Delivers env.native x v () v') :
    Writes env (inView x) v v' [] := by
  intro written rest _ _
  rw [List.append_nil]
  exact Delivers.part h

theorem Writes.bind {x y : FillM Unit} {v v' v'' : View} {first second : List UInt8}
    (hx : Writes env x v v' first) (hy : Writes env y v' v'' second) :
    Writes env (do x; y) v v'' (first ++ second) := by
  intro written rest hfit hsize
  rw [List.length_append] at hfit
  have hrest : (rest.drop first.length).length = rest.length - first.length := List.length_drop
  rw [← List.append_assoc, List.length_append, ← List.drop_drop]
  apply (hx written rest (by omega) hsize).bind
  apply hy
  · omega
  · rw [List.length_append]
    omega

/-- Memory of the right size is filled up, whatever was in it. -/
theorem Writes.allocate {x : FillM Unit} {v v' : View} {bytes : List UInt8} {size : Nat}
    (hx : Writes env x v v' bytes) (hbytes : bytes.length = size) (hsize : 0 < size)
    (hlimit : size < 2 ^ 32) :
    Delivers env.native (do
      let locker ← env.native.allocate size
      let (_, locker) ← Native.withLocal locker x
      Pure.pure locker.buffer) v bytes v' := by
  refine .allocate_bind (Nat.ne_of_gt hsize) hlimit fun c hoffset hlength => ?_
  have hc : c = filled [] c.buffer := by
    cases c
    cases hoffset
    rfl
  have hwrites := hx [] c.buffer (by omega) (by simpa [hlength] using hlimit)
  rw [← hc] at hwrites
  refine (Delivers.withLocal hwrites).bind ?_
  have hfull : c.buffer.drop bytes.length = [] := List.drop_eq_nil_of_le (by omega)
  rw [hfull]
  simp only [filled, List.nil_append, List.append_nil]
  exact .pure v' bytes

variable (env)

theorem odsSize_lt (typ : OdsType) : odsSize env typ < 2 ^ 16 := (env.ods.size typ).toNat_lt

/-! ## The selection formula -/

/-- The name of a summary item, as it reaches the formula. -/
def summaryName (text : List UInt8) : List UInt8 :=
  let name := Lmbcs.fromString env.codePage text
  name.take (name.length % 2 ^ 16)

/-- The selection formula with a summary item, if it is asked for. -/
def withSummary (wanted : Prop) [Decidable wanted] (text formula : List UInt8) : List UInt8 :=
  if wanted then env.engine.summaryItem formula (summaryName env text) else formula

/-- The selection formula of a view without columns after its format is built. -/
def savedSelection (v : View) : List UInt8 :=
  withSummary env (v.tableFormat.flags &&& tableFlagFlatIndex = 0) fieldLink
    (withSummary env (v.tableFormat.flags &&& tableFlagConflict ≠ 0) conflictItem v.selection)

theorem delivers_addSummary (text : List UInt8) (v : View) :
    Delivers env.native
      (withSelection (Formula.addSummaryText env.native env.engine env.codePage text)) v ()
      { v with selection := env.engine.summaryItem v.selection (summaryName env text) } :=
  Delivers.part (.call_bind (.update _ _))

theorem writes_addConflictSummary (flags : UInt16) (v : View) :
    Writes env (addConflictSummary env flags) v
      { v with selection :=
          withSummary env (flags &&& tableFlagConflict ≠ 0) conflictItem v.selection } [] := by
  unfold addConflictSummary withSummary
  by_cases hflag : flags &&& tableFlagConflict ≠ 0
  · rw [if_pos hflag, if_pos hflag]
    exact .inView (delivers_addSummary env conflictItem v)
  · rw [if_neg hflag, if_neg hflag]
    exact .pure v

theorem writes_addLinkSummary (flags : UInt16) (v : View) :
    Writes env (addLinkSummary env flags) v
      { v with selection :=
          withSummary env (flags &&& tableFlagFlatIndex = 0) fieldLink v.selection } [] := by
  unfold addLinkSummary withSummary
  by_cases hflag : flags &&& tableFlagFlatIndex = 0
  · rw [if_pos hflag, if_pos hflag]
    exact .inView (delivers_addSummary env fieldLink v)
  · rw [if_neg hflag, if_neg hflag]
    exact .pure v

/-- Adding the summary items a second time changes nothing. -/
theorem savedSelection_savedSelection {present : List UInt8 → List UInt8 → Prop}
    (laws : SummaryLaws env present) {v w : View} (hflags : w.tableFormat.flags = v.tableFormat.flags)
    (hselection : w.selection = savedSelection env v) : savedSelection env w = w.selection := by
  have hadded : ∀ (wanted : Prop) [Decidable wanted] (text formula : List UInt8),
      wanted → present (withSummary env wanted text formula) (summaryName env text) := by
    intro wanted _ text formula hwanted
    rw [withSummary, if_pos hwanted]
    exact laws.present_summaryItem _ _
  have hkept : ∀ (wanted : Prop) [Decidable wanted] (text formula name : List UInt8),
      present formula name → present (withSummary env wanted text formula) name := by
    intro wanted _ text formula name hpresent
    unfold withSummary
    split
    · exact laws.present_of_present _ _ _ hpresent
    · exact hpresent
  have hagain : ∀ (wanted : Prop) [Decidable wanted] (text formula : List UInt8),
      (wanted → present formula (summaryName env text)) →
        withSummary env wanted text formula = formula := by
    intro wanted _ text formula hpresent
    unfold withSummary
    split
    · exact laws.summaryItem_of_present _ _ (hpresent ‹_›)
    · rfl
  rw [savedSelection, hflags, hagain _ conflictItem, hagain _ fieldLink]
  · intro hwanted
    rw [hselection]
    exact hadded _ _ _ hwanted
  · intro hwanted
    rw [hselection]
    exact hkept _ _ _ _ (hadded _ _ _ hwanted)

/-! ## The two values -/

/-- The view format of a view without columns. -/
def viewFormatBytes (v : View) : List UInt8 :=
  integerBytes 2 typeViewFormat.toNat ++
    (env.ods.write .viewTableFormat (.tableFormat v.tableFormat) ++
      env.ods.write .viewTableFormat2 (.tableFormat2 v.tableFormat2))

/-- The collation of a view without columns. -/
def emptyCollationBytes : List UInt8 :=
  integerBytes 2 typeCollation.toNat ++
    env.ods.write .collation (.collation ⟨UInt16.ofNat (odsSize env .collation), 0⟩)

theorem length_viewFormatBytes (v : View) : (viewFormatBytes env v).length =
    odsSize env .viewTableFormat + odsSize env .viewTableFormat2 + 0 + 2 := by
  simp only [viewFormatBytes, List.length_append, length_integerBytes, env.ods.length_write,
    odsSize]
  omega

theorem writes_fillViewFormat {v : View} (hcolumns : v.columns = []) :
    Writes env (fillViewFormat env) v { v with selection := savedSelection env v }
      (viewFormatBytes env v) := by
  cases v
  cases hcolumns
  rename_i items selection tableFormat tableFormat2
  generalize hview : View.mk items selection tableFormat tableFormat2 [] = v
  have hwrites := (Writes.write v (integerBytes 2 typeViewFormat.toNat)).bind <|
    (Writes.record v (.tableFormat v.tableFormat) .viewTableFormat).bind <|
    (Writes.pure v).bind <| (Writes.pure v).bind <|
    (writes_addConflictSummary env v.tableFormat.flags v).bind <|
    (writes_addLinkSummary env v.tableFormat.flags _).bind <|
    (Writes.record _ (.tableFormat2 v.tableFormat2) .viewTableFormat2).bind (.pure _)
  simp only [List.nil_append, List.append_nil] at hwrites
  subst hview
  exact fun written rest hfit hsize =>
    (Delivers.value _).bind (hwrites written rest hfit hsize)

theorem writes_fillCollation (v : View) (collation : Collation) :
    Writes env (fillCollation env collation []) v v
      (integerBytes 2 typeCollation.toNat ++ env.ods.write .collation (.collation collation)) := by
  have hwrites : Writes env _ v v _ :=
    (Writes.write v (integerBytes 2 typeCollation.toNat)).bind <|
    (Writes.record v (.collation collation) .collation).bind <|
    (Writes.pure v).bind (Writes.pure v)
  simp only [List.append_nil] at hwrites
  exact hwrites

/-- The view with the number of its columns in the table format. -/
def counted (v : View) : View :=
  { v with tableFormat := { v.tableFormat with columns := UInt16.ofNat v.columns.length } }

/-- The view after its format is built. -/
def formatted (v : View) : View :=
  { counted v with selection := savedSelection env (counted v) }

theorem delivers_buildViewFormat {v : View} (hcolumns : v.columns = []) :
    Delivers env.native (buildViewFormat env) v (viewFormatBytes env (counted v))
      (formatted env v) := by
  have hformat := odsSize_lt env .viewTableFormat
  have hformat2 := odsSize_lt env .viewTableFormat2
  have hwrites := writes_fillViewFormat env (v := counted v) hcolumns
  refine (Delivers.value v).bind ?_
  rw [hcolumns]
  refine (Delivers.pure v 0).bind ((Delivers.update _ v).bind ?_)
  exact hwrites.allocate (length_viewFormatBytes env _) (by omega) (by omega)

theorem delivers_buildCollation {v : View} (hcolumns : v.columns = []) :
    Delivers env.native (buildCollation env) v (emptyCollationBytes env) v := by
  have hcollation := odsSize_lt env .collation
  have hsize : (UInt16.ofNat (odsSize env .collation)).toNat = odsSize env .collation := by
    simp
    omega
  refine (Delivers.value v).bind ?_
  simp only [hcolumns, List.filter_nil, List.map_nil, List.sum_nil, List.length_nil,
    Nat.mul_zero, Nat.add_zero]
  refine (delivers_checkedCast hcollation v).bind ((delivers_checkedCast (by decide) v).bind ?_)
  refine (writes_fillCollation env v _).allocate ?_ ?_ ?_
  · rw [List.length_append, length_integerBytes, env.ods.length_write, hsize]
    rfl
  · omega
  · omega

/-! ## The items -/

/-- The item that a value is stored as. -/
def valueItem (key value : List UInt8) : Item :=
  Note.stored key (UInt16.ofNat (littleEndian (value.take 2))) (value.drop 2) 0

/-- The item that holds the selection formula. -/
def selectionItem (formula : List UInt8) : Item :=
  Note.stored formulaItem typeFormula (formula.take (env.engine.getSize formula).toNat) 0

/-- The items of a view without columns after the two built values are stored. -/
def formatItems (v : View) : List Item :=
  Table.put Item.name (valueItem collationItem (emptyCollationBytes env)) <|
    Table.put Item.name (valueItem viewFormatItem (viewFormatBytes env (counted v))) <|
    Table.erase Item.name formulaTimeItem v.items

/-- The items of a view without columns after it is saved. -/
def savedItems (v : View) : List Item :=
  Table.put Item.name (selectionItem env (savedSelection env (counted v))) (formatItems env v)

/-- A view without columns after it is saved. -/
def saved (v : View) : View := { formatted env v with items := savedItems env v }

variable {env} (hascii : Lmbcs.KeepsAscii env.codePage)

include hascii

theorem delivers_eraseFormulaTime (v : View) : Delivers env.native (eraseFormulaTime env) v ()
    { v with items := Table.erase Item.name formulaTimeItem v.items } := by
  have hname : Lmbcs.fromString env.codePage formulaTimeItem = formulaTimeItem :=
    hascii.fromString_asciiBytes (List.all_iff_forall_prop.mp (by decide)) (by decide)
  refine (Delivers.part (Note.delivers_has hname v.items)).bind ?_
  cases h : Table.lookup Item.name formulaTimeItem v.items with
  | none =>
      rw [Table.erase_of_lookup_none Item.name h]
      exact .pure v ()
  | some item =>
      have hpresent : (Table.lookup Item.name formulaTimeItem v.items).isSome := by
        rw [h]
        rfl
      have herase := Note.delivers_erase env.native hname hpresent
      rw [Option.isSome_some, if_pos rfl]
      exact Delivers.part herase

theorem delivers_set {text : List Char} (htext : ∀ c ∈ text, Lmbcs.Printable c)
    (hlength : text.length < 2 ^ 15) (type : UInt16) (buffer : List UInt8) (v : View) :
    Delivers env.native (withNote
      (Note.set env.codePage env.native (Lmbcs.asciiBytes text) type buffer 0)) v ()
      { v with items :=
          Table.put Item.name (Note.stored (Lmbcs.asciiBytes text) type buffer 0) v.items } := by
  have hbytes : (Lmbcs.asciiBytes text).length < 2 ^ 16 := by
    rw [Lmbcs.asciiBytes, List.length_map]
    omega
  exact Delivers.part
    (Note.delivers_set (hascii.fromString_asciiBytes htext hlength) (Note.take_length_mod hbytes)
      type buffer 0 v.items)

theorem delivers_storeFormats {v : View} (hcolumns : v.columns = []) :
    Delivers env.native (storeFormats env) v ()
      { formatted env v with items := formatItems env v } := by
  have hformatted : (formatted env v).columns = [] := hcolumns
  refine (delivers_buildViewFormat env hcolumns).bind ?_
  refine (delivers_buildCollation env hformatted).bind ?_
  refine (delivers_eraseFormulaTime hascii _).bind ?_
  refine (delivers_set hascii (List.all_iff_forall_prop.mp (by decide)) (by decide) _ _ _).bind ?_
  exact delivers_set hascii (List.all_iff_forall_prop.mp (by decide)) (by decide) _ _ _

theorem delivers_storeSelection {v : View}
    (hfit : (env.engine.getSize v.selection).toNat ≤ v.selection.length) :
    Delivers env.native (storeSelection env) v ()
      { v with items := Table.put Item.name (selectionItem env v.selection) v.items } :=
  (Delivers.part (Formula.delivers_getCursor hfit)).bind
    (delivers_set hascii (List.all_iff_forall_prop.mp (by decide)) (by decide) typeFormula _ v)

/-- A save of a view without columns, whose selection formula lies within its memory. -/
theorem delivers_save {v : View} (hcolumns : v.columns = [])
    (hfit : (env.engine.getSize (savedSelection env (counted v))).toNat ≤
      (savedSelection env (counted v)).length) :
    Delivers env.native (save env) v () (saved env v) :=
  (delivers_storeFormats hascii hcolumns).bind <|
    (delivers_storeSelection hascii (v := { formatted env v with items := formatItems env v })
      hfit).bind (Delivers.part (Note.delivers_save _))

theorem fits_of_save {s t : Called View} (hcolumns : s.value.columns = [])
    (h : exec (save env) s = (.ok (), t)) :
    (env.engine.getSize (savedSelection env (counted s.value))).toNat ≤
      (savedSelection env (counted s.value)).length := by
  obtain ⟨_, s₁, hformats, h⟩ := exec_bind_eq_ok h
  obtain ⟨_, hs₁, _⟩ := (delivers_storeFormats hascii hcolumns).of_ok hformats
  obtain ⟨_, s₂, hselection, _⟩ := exec_bind_eq_ok h
  obtain ⟨cursor, s₃, hcursor, _⟩ := exec_bind_eq_ok hselection
  obtain ⟨u, hcursor, _⟩ := exec_part_eq_ok hcursor
  have hfit := (Formula.exec_getCursor_eq_ok hcursor).1
  rw [hs₁] at hfit
  exact hfit

omit hascii

/-! ## Saving twice -/

variable (env)

/-- The stored items are found again, and no compilation time is left. -/
theorem lookup_savedItems (v : View) :
    Table.lookup Item.name formulaTimeItem (savedItems env v) = none ∧
      Table.lookup Item.name viewFormatItem (savedItems env v) =
        some (valueItem viewFormatItem (viewFormatBytes env (counted v))) ∧
      Table.lookup Item.name collationItem (savedItems env v) =
        some (valueItem collationItem (emptyCollationBytes env)) ∧
      Table.lookup Item.name formulaItem (savedItems env v) =
        some (selectionItem env (savedSelection env (counted v))) := by
  have hformat : ∀ value, (valueItem viewFormatItem value).name = viewFormatItem := fun _ => rfl
  have hcollation : ∀ value, (valueItem collationItem value).name = collationItem := fun _ => rfl
  have hselection : ∀ formula, (selectionItem env formula).name = formulaItem := fun _ => rfl
  unfold savedItems formatItems
  refine ⟨?_, ?_, ?_, Table.lookup_put_self Item.name (selectionItem env _) _⟩
  · rw [Table.lookup_put_of_ne, Table.lookup_put_of_ne, Table.lookup_put_of_ne,
      Table.lookup_erase_self]
    · rw [hformat]
      decide
    · rw [hcollation]
      decide
    · rw [hselection]
      decide
  · rw [Table.lookup_put_of_ne, Table.lookup_put_of_ne]
    · exact Table.lookup_put_self Item.name (valueItem viewFormatItem _) _
    · rw [hcollation]
      decide
    · rw [hselection]
      decide
  · rw [Table.lookup_put_of_ne]
    · exact Table.lookup_put_self Item.name (valueItem collationItem _) _
    · rw [hselection]
      decide

variable {env}

/-- Saving a view without columns again changes nothing. -/
theorem saved_saved {present : List UInt8 → List UInt8 → Prop} (laws : SummaryLaws env present)
    (v : View) : saved env (saved env v) = saved env v := by
  have hselection : savedSelection env (counted (saved env v)) =
      savedSelection env (counted v) :=
    savedSelection_savedSelection env laws (v := counted v) rfl rfl
  obtain ⟨htime, hformat, hcollation, hformula⟩ := lookup_savedItems env v
  have hitems : savedItems env (saved env v) = savedItems env v := by
    have herase : Table.erase Item.name formulaTimeItem (saved env v).items =
        savedItems env v := Table.erase_of_lookup_none Item.name htime
    have hbytes : viewFormatBytes env (counted (saved env v)) =
        viewFormatBytes env (counted v) := rfl
    have hputFormat := Table.put_of_lookup Item.name
      (x := valueItem viewFormatItem (viewFormatBytes env (counted v))) hformat
    have hputCollation := Table.put_of_lookup Item.name
      (x := valueItem collationItem (emptyCollationBytes env)) hcollation
    have hputFormula := Table.put_of_lookup Item.name
      (x := selectionItem env (savedSelection env (counted v))) hformula
    rw [savedItems, formatItems, hselection, herase, hbytes, hputFormat, hputCollation,
      hputFormula]
  have hformatted : formatted env (saved env v) = saved env v := by
    rw [formatted, hselection]
    rfl
  rw [saved, hitems, hformatted]
  rfl

/-- The view-format, collation and selection items. -/
def storedItems (v : View) : List (Option Item) :=
  [viewFormatItem, collationItem, formulaItem].map fun name =>
    Table.lookup Item.name name v.items

/-- After a save that succeeds, a second save of the view succeeds and stores the same
items exactly when the view has no columns. -/
theorem save_again_iff {present : List UInt8 → List UInt8 → Prop} (laws : SummaryLaws env present)
    (hascii : Lmbcs.KeepsAscii env.codePage) {s s₁ : Called View}
    (hfirst : exec (save env) s = (.ok (), s₁)) (hquiet : Quiet env.native s₁.calls) :
    (∃ s₂, exec (save env) s₁ = (.ok (), s₂) ∧ storedItems s₂.value = storedItems s₁.value) ↔
      s.value.columns = [] := by
  constructor
  · intro hsecond
    obtain ⟨s₂, hsecond, _⟩ := hsecond
    by_contra hcolumns
    exact save_of_firstNamed env (firstNamed_of_save env hcolumns hfirst) hsecond
  · intro hcolumns
    have hfit := fits_of_save hascii hcolumns hfirst
    obtain ⟨_, hs₁, _⟩ := (delivers_save hascii hcolumns hfit).of_ok hfirst
    have hcolumns₁ : s₁.value.columns = [] := by
      rw [hs₁]
      exact hcolumns
    have hselection : savedSelection env (counted s₁.value) =
        savedSelection env (counted s.value) := by
      rw [hs₁]
      exact savedSelection_savedSelection env laws (v := counted s.value) rfl rfl
    rw [← hselection] at hfit
    obtain ⟨k, _, hsecond⟩ := (delivers_save hascii hcolumns₁ hfit).of_quiet hquiet
    refine ⟨_, hsecond, ?_⟩
    simp only [hs₁, saved_saved laws]

/-! ## Two designs -/

/-- Append bytes to a formula that does not contain them. -/
def appendOnce (formula bytes : List UInt8) : List UInt8 :=
  if bytes <:+: formula.drop Formula.headerSize then formula
  else
    let hdr := Formula.Header.ofBytes (formula.take Formula.headerSize)
    { hdr with length := hdr.length + UInt16.ofNat bytes.length }.bytes ++
      (formula.drop Formula.headerSize ++ bytes)

/-- A runtime in which no call fails and a formula is the list of what was added to it. -/
def sampleEnv : Env where
  native := ⟨fun _ => .noError, fun _ _ => 0⟩
  engine := {
    getSize := fun formula => UInt16.ofNat formula.length
    merge := fun other formula => appendOnce formula (other.drop Formula.headerSize)
    summaryItem := appendOnce }
  ods := {
    bytes := fun _ => []
    ofBytes := fun _ => .columnFormat2 ⟨[]⟩
    size := fun _ => 4
    write := fun _ _ => [0, 0, 0, 0]
    read := fun _ _ => .columnFormat2 ⟨[]⟩
    length_write := fun _ _ => rfl }
  codePage := utf8

/-- A formula of two bytes behind its header, as it is compiled. -/
def sampleFormula : List UInt8 := Formula.Header.bytes ⟨8, 0, 8⟩ ++ [1, 2]

def sampleView (columns : List Column) : View where
  items := []
  selection := sampleFormula
  tableFormat := { header := [], flags := tableFlagConflict }
  tableFormat2 := ⟨[]⟩
  columns := columns

theorem drop_appendOnce {formula bytes : List UInt8}
    (h : ¬ bytes <:+: formula.drop Formula.headerSize) :
    (appendOnce formula bytes).drop Formula.headerSize =
      formula.drop Formula.headerSize ++ bytes := by
  rw [appendOnce, if_neg h]
  exact List.drop_left' (Formula.Header.length_bytes _)

theorem summaryLaws_sampleEnv : SummaryLaws sampleEnv fun formula bytes =>
    bytes <:+: formula.drop Formula.headerSize where
  present_summaryItem formula bytes := by
    by_cases h : bytes <:+: formula.drop Formula.headerSize
    · show bytes <:+: (appendOnce formula bytes).drop _
      rw [appendOnce, if_pos h]
      exact h
    · show bytes <:+: (appendOnce formula bytes).drop _
      rw [drop_appendOnce h]
      exact List.infix_append_right ..
  present_of_present formula bytes other hother := by
    by_cases h : bytes <:+: formula.drop Formula.headerSize
    · show other <:+: (appendOnce formula bytes).drop _
      rw [appendOnce, if_pos h]
      exact hother
    · show other <:+: (appendOnce formula bytes).drop _
      rw [drop_appendOnce h]
      exact hother.trans (List.infix_append_left ..)
  summaryItem_of_present _ _ h := if_pos h

/-- A view without columns is saved twice. -/
theorem save_again_noColumns : ∃ s₁ s₂,
    exec (save sampleEnv) ⟨0, sampleView []⟩ = (.ok (), s₁) ∧
      exec (save sampleEnv) s₁ = (.ok (), s₂) ∧ storedItems s₂.value = storedItems s₁.value := by
  have hquiet : ∀ n, Quiet sampleEnv.native n := fun _ _ _ => rfl
  have hdelivers : Delivers sampleEnv.native (save sampleEnv) (sampleView []) ()
      (saved sampleEnv (sampleView [])) :=
    delivers_save Lmbcs.keepsAscii_utf8 rfl (by decide +kernel)
  obtain ⟨k, _, hfirst⟩ := hdelivers.of_quiet (hquiet 0)
  obtain ⟨s₂, hsecond⟩ := (save_again_iff summaryLaws_sampleEnv Lmbcs.keepsAscii_utf8 hfirst
    (hquiet _)).mpr rfl
  exact ⟨_, s₂, hfirst, hsecond⟩

/-- A view with one column is saved, and cannot be saved again. -/
theorem save_fails_again : ∃ s₁,
    exec (save sampleEnv) ⟨0, sampleView [{
      format := { others := [] }
      format2 := ⟨[]⟩
      formula := sampleFormula }]⟩ = (.ok (), s₁) ∧
    ∀ s₂, exec (save sampleEnv) s₁ ≠ (.ok (), s₂) := by
  generalize hv : sampleView _ = v
  have hok : (exec (save sampleEnv) ⟨0, v⟩).1.isOk = true := by
    rw [← hv]
    decide +kernel
  rcases hfirst : exec (save sampleEnv) ⟨0, v⟩ with ⟨_ | _, s₁⟩
  · rw [hfirst] at hok
    cases hok
  · have hcolumns : v.columns ≠ [] := by
      rw [← hv]
      exact List.cons_ne_nil _ _
    exact ⟨s₁, rfl, fun s₂ => save_of_firstNamed sampleEnv
      (firstNamed_of_save sampleEnv hcolumns hfirst)⟩

end Dmn.Design.View
