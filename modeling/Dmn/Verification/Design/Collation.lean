import Mathlib.Data.List.Forall2
import Dmn.Verification.Design.Saving
import Dmn.Verification.Formula.Insertion

/-! # The layout of a collation

The size is computed before anything is written, and the offsets of the names are added up while the
descriptors are written. The size bounds both. -/

namespace Dmn.Design

/-! ## Sorting -/

namespace Column

/-- The flags that `set_sorting` leaves behind. -/
def sortingFlags (sort : Sorting) (categorized : Bool) : UInt16 :=
  (if sort ≠ .none || categorized then flagSort else 0) |||
    ((if sort = .descending then flagSortDescending else 0) |||
      (if categorized then flagSortCategorize else 0))

/-- The flags are those of a new column or were set by `set_sorting`. -/
def SortingMade (c : Column) : Prop :=
  ∃ sort categorized, c.format.flags1 = sortingFlags sort categorized

theorem sortingMade_of_new {c : Column} (h : c.format.flags1 = 0) : c.SortingMade :=
  ⟨.none, false, h⟩

theorem SortingMade.setSorting {c : Column} (h : c.SortingMade) (sort : Sorting)
    (categorized : Bool) : (c.setSorting sort categorized).SortingMade := by
  obtain ⟨sort', categorized', hflags⟩ := h
  refine ⟨sort, categorized, ?_⟩
  simp only [Column.setSorting, hflags]
  cases sort <;> cases categorized <;> cases sort' <;> cases categorized' <;> rfl

/-- The column is sorted or categorised. -/
def IsSortedOrCategorized (c : Column) : Prop := c.getSorting ≠ (.none, false)

instance (c : Column) : Decidable c.IsSortedOrCategorized :=
  inferInstanceAs (Decidable (c.getSorting ≠ (.none, false)))

/-- A column is categorised only with the flag of a sorted one. -/
theorem isSorted_iff {c : Column} (h : c.SortingMade) :
    c.isSorted = true ↔ c.IsSortedOrCategorized := by
  obtain ⟨sort, categorized, hflags⟩ := h
  simp only [isSorted, IsSortedOrCategorized, getSorting, hflags]
  cases sort <;> cases categorized <;> decide

end Column

namespace View

open Exec Native Cursor

variable (env : Env)

/-! ## What is written -/

/-- The sorted or categorised columns, in their order. -/
def collated (v : View) : List Column := v.columns.filter fun c => c.IsSortedOrCategorized

def keyType (c : Column) : UInt8 := if c.getSorting.2 then collateTypeCategory else collateTypeKey

def sortFlag (c : Column) : UInt8 := if c.getSorting.1 = .descending then cdfDescending else 0

def descriptors : List Column → UInt16 → List CollateDescriptor
  | [], _ => []
  | c :: rest, nameOffset =>
      ⟨sortFlag c ||| cdfPermuted, keyType c, nameOffset, UInt16.ofNat c.itemName.length⟩ ::
        descriptors rest (nameOffset + UInt16.ofNat c.itemName.length)

def names (columns : List Column) : List UInt8 := columns.flatMap Column.itemName

def descriptorBytes (d : CollateDescriptor) : List UInt8 :=
  env.ods.write .collateDescriptor (.collateDescriptor d)

/-- The bytes of a collation with these descriptors and names. -/
def collationBytes (collation : Collation) (ds : List CollateDescriptor) (area : List UInt8) :
    List UInt8 :=
  integerBytes 2 typeCollation.toNat ++ (env.ods.write .collation (.collation collation) ++
    (ds.flatMap (descriptorBytes env) ++ area))

/-- The number of bytes behind the type word. -/
def collationSize (columns : List Column) : Nat :=
  odsSize env .collation + odsSize env .collateDescriptor * columns.length +
    (columns.map fun c => c.itemName.length).sum

theorem length_names (columns : List Column) :
    (names columns).length = (columns.map fun c => c.itemName.length).sum := by
  rw [names, List.length_flatMap]

@[simp] theorem length_descriptors (columns : List Column) (nameOffset : UInt16) :
    (descriptors columns nameOffset).length = columns.length := by
  induction columns generalizing nameOffset with
  | nil => rfl
  | cons c columns ih => simp [descriptors, ih]

theorem length_collationBytes (collation : Collation) (columns : List Column)
    (nameOffset : UInt16) :
    (collationBytes env collation (descriptors columns nameOffset) (names columns)).length =
      2 + collationSize env columns := by
  have hbytes : ∀ ds : List CollateDescriptor, (ds.flatMap (descriptorBytes env)).length =
      odsSize env .collateDescriptor * ds.length := by
    intro ds
    induction ds with
    | nil => rfl
    | cons d ds ih =>
        simp only [List.flatMap_cons, List.length_append, ih, List.length_cons, Nat.mul_succ,
          descriptorBytes, env.ods.length_write, odsSize]
        omega
  simp only [collationBytes, List.length_append, length_integerBytes, env.ods.length_write, hbytes,
    length_descriptors, length_names, collationSize, odsSize]
  omega

/-! ## Names in the area -/

/-- The descriptor is that of the column, and selects its item name in the area of the names. -/
structure Describes (area : List UInt8) (d : CollateDescriptor) (c : Column) : Prop where
  keytype : d.keytype = keyType c
  flags : d.flags = sortFlag c ||| cdfPermuted
  inside : d.nameOffset.toNat + d.nameLength.toNat ≤ area.length
  selects : (area.drop d.nameOffset.toNat).take d.nameLength.toNat = c.itemName

/-- The invariant is that the offset is the number of bytes of the names so far. -/
theorem describes_descriptors (columns : List Column) {before : List UInt8} {nameOffset : UInt16}
    (hoffset : nameOffset.toNat = before.length)
    (hlimit : before.length + (names columns).length < 2 ^ 16) :
    List.Forall₂ (Describes (before ++ names columns)) (descriptors columns nameOffset) columns := by
  induction columns generalizing before nameOffset with
  | nil => exact .nil
  | cons c columns ih =>
      have hnames : names (c :: columns) = c.itemName ++ names columns := List.flatMap_cons
      rw [hnames, List.length_append] at hlimit
      have hsmall : c.itemName.length < 2 ^ 16 := by omega
      have hlength : (UInt16.ofNat c.itemName.length).toNat = c.itemName.length :=
        UInt16.toNat_ofNat_of_lt' hsmall
      have hnext : (nameOffset + UInt16.ofNat c.itemName.length).toNat =
          (before ++ c.itemName).length := by
        rw [UInt16.toNat_add, hlength, hoffset, List.length_append, Nat.mod_eq_of_lt]
        omega
      have hrest := ih hnext (by rw [List.length_append]; omega)
      rw [List.append_assoc, ← hnames] at hrest
      refine .cons ⟨rfl, rfl, ?_, ?_⟩ hrest
      · simp only [hlength, hoffset, hnames, List.length_append]
        omega
      · simp only [hlength, hoffset, hnames, List.drop_left, List.take_left]

/-- The offsets do not wrap around: each is the sum of the lengths of the names before. -/
theorem nameOffset_descriptors (columns : List Column) {nameOffset : UInt16} (i : Nat)
    (hlimit : nameOffset.toNat + (names columns).length < 2 ^ 16) {d : CollateDescriptor}
    (hd : (descriptors columns nameOffset)[i]? = some d) :
    d.nameOffset.toNat = nameOffset.toNat + (names (columns.take i)).length := by
  induction columns generalizing nameOffset i with
  | nil => cases hd
  | cons c columns ih =>
      have hnames : ∀ columns, names (c :: columns) = c.itemName ++ names columns :=
        fun _ => List.flatMap_cons
      rw [hnames, List.length_append] at hlimit
      cases i with
      | zero =>
          cases hd
          rfl
      | succ i =>
          have hsmall : c.itemName.length < 2 ^ 16 := by omega
          have hlength : (nameOffset + UInt16.ofNat c.itemName.length).toNat =
              nameOffset.toNat + c.itemName.length := by
            rw [UInt16.toNat_add, UInt16.toNat_ofNat_of_lt' hsmall, Nat.mod_eq_of_lt (by omega)]
          have hrest := ih i (by rw [hlength]; omega) hd
          rw [hrest, hlength, List.take_succ_cons, hnames, List.length_append, Nat.add_assoc]

/-! ## Writing -/

/-- The program fills the memory with these bytes, without a native call. -/
def Fills (x : FillM Unit) (bytes : List UInt8) : Prop :=
  ∀ (n : Nat) (v : View) (written rest : List UInt8), bytes.length ≤ rest.length →
    written.length + rest.length < 2 ^ 32 →
      exec x ⟨n, v, filled written rest⟩ =
        (.ok (), ⟨n, v, filled (written ++ bytes) (rest.drop bytes.length)⟩)

theorem Fills.write (bytes : List UInt8) : Fills (fill (Cursor.write bytes)) bytes := by
  intro n v written rest hfit hsize
  rw [fill, exec_bind_of_ok (Native.exec_value _)]
  simp only [exec_write_filled hfit hsize]
  rfl

theorem Fills.record (record : Record) (typ : OdsType) :
    Fills (fill (writeRecord env record typ)) (env.ods.write typ record) := by
  rw [writeRecord, writeObject_some]
  exact .write _

theorem Fills.pure : Fills (Pure.pure ()) [] := by
  intro n v written rest _ _
  rw [List.append_nil]
  rfl

theorem Fills.bind {x y : FillM Unit} {first second : List UInt8} (hx : Fills x first)
    (hy : Fills y second) : Fills (do x; y) (first ++ second) := by
  intro n v written rest hfit hsize
  rw [List.length_append] at hfit
  have hrest : (rest.drop first.length).length = rest.length - first.length := List.length_drop
  rw [exec_bind_of_ok (hx n v written rest (by omega) hsize), hy n v _ _ (by omega) (by
    rw [List.length_append]
    omega), List.append_assoc, List.length_append, List.drop_drop]

theorem Fills.checkedCast_bind {k : Nat} (hk : k < 2 ^ 16) {x : UInt16 → FillM Unit}
    {bytes : List UInt8} (hx : Fills (x (UInt16.ofNat k)) bytes) :
    Fills (checkedCast k >>= x) bytes := by
  intro n v written rest hfit hsize
  rw [exec_bind_of_ok (Formula.exec_checkedCast hk _)]
  exact hx n v written rest hfit hsize

theorem fills_writeDescriptors (columns : List Column) (hlimit : (names columns).length < 2 ^ 16)
    (nameOffset : UInt16) : Fills (writeDescriptors env columns nameOffset)
      ((descriptors columns nameOffset).flatMap (descriptorBytes env)) := by
  induction columns generalizing nameOffset with
  | nil => exact .pure
  | cons c columns ih =>
      have hnames : names (c :: columns) = c.itemName ++ names columns := List.flatMap_cons
      rw [hnames, List.length_append] at hlimit
      refine .checkedCast_bind (by omega) ?_
      exact (Fills.record env _ .collateDescriptor).bind (ih (by omega) _)

theorem fills_writeNames (columns : List Column) : Fills (writeNames columns) (names columns) := by
  induction columns with
  | nil => exact .pure
  | cons c columns ih => exact (Fills.write c.itemName).bind ih

theorem fills_fillCollation (collation : Collation) (columns : List Column)
    (hlimit : (names columns).length < 2 ^ 16) : Fills (fillCollation env collation columns)
      (collationBytes env collation (descriptors columns 0) (names columns)) :=
  (Fills.write (integerBytes 2 typeCollation.toNat)).bind <|
    (Fills.record env (.collation collation) .collation).bind <|
    (fills_writeDescriptors env columns hlimit 0).bind (fills_writeNames columns)

/-! ## The whole collation -/

theorem collated_eq {v : View} (hmade : ∀ c ∈ v.columns, c.SortingMade) :
    v.columns.filter Column.isSorted = collated v := by
  apply List.filter_congr
  intro c hc
  rw [Bool.eq_iff_iff, Column.isSorted_iff (hmade c hc), decide_eq_true_iff]

section Results

variable {s : Called View} (hmade : ∀ c ∈ s.value.columns, c.SortingMade)
include hmade

theorem exec_buildCollation_of_large (hlarge : 2 ^ 16 ≤ collationSize env (collated s.value)) :
    exec (buildCollation env) s = (.error (.throws
      (.overflowError "Value is too large to fit inside the provided type")), s) := by
  rw [buildCollation, exec_bind_of_ok (Native.exec_value _), collated_eq hmade]
  exact exec_bind_of_error (Formula.exec_checkedCast_of_le hlarge s)

variable (hdescriptor : 0 < odsSize env .collateDescriptor)
  (hsmall : collationSize env (collated s.value) < 2 ^ 16)
include hdescriptor hsmall

/-- A collation that fits is allocated and filled. -/
theorem exec_buildCollation : exec (buildCollation env) s = exec (do
    let locker ← env.native.allocate (2 + collationSize env (collated s.value))
    let (_, locker) ← Native.withLocal locker (fillCollation env
      ⟨UInt16.ofNat (collationSize env (collated s.value)), UInt16.ofNat (collated s.value).length⟩
      (collated s.value))
    pure locker.buffer) s := by
  have hcount : (collated s.value).length < 2 ^ 16 := by
    have hle := Nat.le_mul_of_pos_left (collated s.value).length hdescriptor
    unfold collationSize at hsmall
    omega
  rw [buildCollation, exec_bind_of_ok (Native.exec_value _), collated_eq hmade]
  refine (exec_bind_of_ok (Formula.exec_checkedCast hsmall s)).trans ?_
  refine (exec_bind_of_ok (Formula.exec_checkedCast hcount s)).trans ?_
  rw [UInt16.toNat_ofNat_of_lt' hsmall]

/-- The bytes that fill the memory. -/
def collation (env : Env) (v : View) : List UInt8 :=
  collationBytes env
    ⟨UInt16.ofNat (collationSize env (collated v)), UInt16.ofNat (collated v).length⟩
    (descriptors (collated v) 0) (names (collated v))

theorem exec_buildCollation_of_noError (hstatus : env.native.status s.calls = .noError)
    (hlock : env.native.status (s.calls + 1) = .noError) :
    exec (buildCollation env) s = (.ok (collation env s.value), ⟨s.calls + 2, s.value⟩) := by
  have hnames : (names (collated s.value)).length < 2 ^ 16 := by
    rw [length_names]
    unfold collationSize at hsmall
    omega
  rw [exec_buildCollation env hmade hdescriptor hsmall,
    exec_bind_of_ok (exec_allocate (by omega) (by omega) hstatus hlock)]
  generalize hmemory : (List.range (2 + collationSize env (collated s.value))).map
    (env.native.garbage s.calls) = memory
  have hlength : memory.length = 2 + collationSize env (collated s.value) := by simp [← hmemory]
  have hbytes : (collation env s.value).length = memory.length := by
    rw [hlength, collation, length_collationBytes]
  have hfilled := fills_fillCollation env
    ⟨UInt16.ofNat (collationSize env (collated s.value)), UInt16.ofNat (collated s.value).length⟩
    (collated s.value) hnames (s.calls + 2) s.value [] memory (Nat.le_of_eq hbytes) (by
      rw [List.length_nil, hlength]
      omega)
  have hend : memory.drop (collation env s.value).length = [] :=
    List.drop_eq_nil_of_le (Nat.le_of_eq hbytes.symm)
  have hlocal := exec_withLocal_of_ok (s := ⟨s.calls + 2, s.value⟩) hfilled
  refine (exec_bind_of_ok hlocal).trans ?_
  show (Except.ok ([] ++ collation env s.value ++ memory.drop (collation env s.value).length), _) = _
  rw [hend, List.nil_append, List.append_nil]

theorem exec_buildCollation_of_ne (hstatus : env.native.status s.calls = .noError →
    env.native.status (s.calls + 1) ≠ .noError) :
    ∃ error t, exec (buildCollation env) s = (.error (.throws error), t) ∧
      ∀ message, error ≠ .overflowError message := by
  have hsize : 2 + collationSize env (collated s.value) ≠ 0 := by omega
  obtain ⟨error, calls, herror, hne⟩ := exec_allocate_of_ne hsize hstatus
  refine ⟨error, ⟨calls, s.value⟩, ?_, hne⟩
  rw [exec_buildCollation env hmade hdescriptor hsmall]
  exact exec_bind_of_error herror

end Results

/-- The bytes are the type word, the collation, its descriptors and the names, and they describe
these columns. -/
structure Describing (columns : List Column) (bytes : List UInt8) (c : Collation)
    (ds : List CollateDescriptor) (area : List UInt8) : Prop where
  bytes_eq : bytes = collationBytes env c ds area
  bufferSize : bytes.length = 2 + c.bufferSize.toNat
  items : c.items.toNat = columns.length
  area_eq : area = names columns
  describes : List.Forall₂ (Describes area) ds columns
  offsets : ∀ (i : Nat) d, ds[i]? = some d → d.nameOffset.toNat = (names (columns.take i)).length

theorem describing_collation {v : View} (hdescriptor : 0 < odsSize env .collateDescriptor)
    (hsmall : collationSize env (collated v) < 2 ^ 16) :
    ∃ c ds area, Describing env (collated v) (collation env v) c ds area := by
  have hnames : (names (collated v)).length < 2 ^ 16 := by
    rw [length_names]
    unfold collationSize at hsmall
    omega
  have hcount : (collated v).length < 2 ^ 16 := by
    have hle := Nat.le_mul_of_pos_left (collated v).length hdescriptor
    unfold collationSize at hsmall
    omega
  refine ⟨_, _, _, rfl, ?_, UInt16.toNat_ofNat_of_lt' hcount, rfl, ?_, ?_⟩
  · rw [collation, length_collationBytes, UInt16.toNat_ofNat_of_lt' hsmall]
  · have hstart : (0 : UInt16).toNat = ([] : List UInt8).length := rfl
    exact describes_descriptors (collated v) hstart (by simpa using hnames)
  · intro i d hd
    have hoffset := nameOffset_descriptors _ i (by simpa using hnames) hd
    simpa using hoffset

/-- A collation that is built says what the sorted or categorised columns are, and it is refused for
its size exactly when the size does not fit. -/
theorem buildCollation_layout {s : Called View} (hmade : ∀ c ∈ s.value.columns, c.SortingMade)
    (hdescriptor : 0 < odsSize env .collateDescriptor) :
    (∀ bytes t, exec (buildCollation env) s = (.ok bytes, t) →
      ∃ c ds area, Describing env (collated s.value) bytes c ds area) ∧
    ((∃ message, (exec (buildCollation env) s).1 = .error (.throws (.overflowError message))) ↔
      2 ^ 16 ≤ collationSize env (collated s.value)) := by
  by_cases hlarge : 2 ^ 16 ≤ collationSize env (collated s.value)
  · have hexec := exec_buildCollation_of_large env hmade hlarge
    refine ⟨fun bytes t h => ?_, iff_of_true ⟨_, by rw [hexec]⟩ hlarge⟩
    rw [hexec] at h
    cases h
  have hsmall := Nat.lt_of_not_le hlarge
  by_cases hquiet : env.native.status s.calls = .noError ∧
      env.native.status (s.calls + 1) = .noError
  · have hexec := exec_buildCollation_of_noError env hmade hdescriptor hsmall hquiet.1 hquiet.2
    rw [hexec]
    refine ⟨fun bytes t h => ?_, iff_of_false (by simp) hlarge⟩
    cases h
    exact describing_collation env hdescriptor hsmall
  · obtain ⟨error, t, hexec, hne⟩ :=
      exec_buildCollation_of_ne env hmade hdescriptor hsmall (not_and.mp hquiet)
    rw [hexec]
    refine ⟨fun bytes t h => ?_, iff_of_false (by simpa using hne) hlarge⟩
    cases h

def namedColumn (itemName : List UInt8) : Column where
  format := { others := [] }
  format2 := ⟨[]⟩
  formula := []
  itemName := itemName

/-- A design with a descending, a plain and a categorised column. -/
def sortedView : View := sampleView [(namedColumn [0x41, 0x42]).setSorting .descending false,
  namedColumn [0x43], (namedColumn [0x44]).setSorting .none true]

theorem buildCollation_layout_sortedView : ∃ bytes t c ds area,
    exec (buildCollation sampleEnv) ⟨0, sortedView⟩ = (.ok bytes, t) ∧
      Describing sampleEnv (collated sortedView) bytes c ds area := by
  have hmade : ∀ c ∈ sortedView.columns, c.SortingMade := by
    intro c hc
    simp only [sortedView, sampleView, List.mem_cons, List.not_mem_nil, or_false] at hc
    rcases hc with rfl | rfl | rfl
    · exact (Column.sortingMade_of_new rfl).setSorting _ _
    · exact Column.sortingMade_of_new rfl
    · exact (Column.sortingMade_of_new rfl).setSorting _ _
  have hexec := exec_buildCollation_of_noError sampleEnv (s := ⟨0, sortedView⟩) hmade (by decide)
    (by decide) rfl rfl
  obtain ⟨c, ds, area, h⟩ :=
    (buildCollation_layout sampleEnv (s := ⟨0, sortedView⟩) hmade (by decide)).1 _ _ hexec
  exact ⟨_, _, c, ds, area, hexec, h⟩

end View

end Dmn.Design
