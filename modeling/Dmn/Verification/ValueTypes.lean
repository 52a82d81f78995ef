import Dmn.Model.Value
import Dmn.Verification.NoteValue

/-! # Types of values

What `is` reports of a value and what `try_as` makes of it, for contents of any size. -/

namespace Dmn.ValueImpl

open Exec Native Cursor NoteValue

variable {env : Env} {σ : Type} {s t : Called σ}

/-! ## Contents -/

def typeWord (content : List UInt8) : UInt16 := UInt16.ofNat (littleEndian (content.take 2))

/-- A content of two bytes or more is a type word with data. -/
theorem itemBytes_typeWord {content : List UInt8} (h : 2 ≤ content.length) :
    itemBytes (typeWord content) (content.drop 2) = content := by
  have hlength : (content.take 2).length = 2 := List.length_take_of_le h
  have hlt : littleEndian (content.take 2) < 2 ^ 16 := by
    have hbytes := littleEndian_lt (content.take 2)
    rwa [hlength] at hbytes
  have hword := integerBytes_littleEndian (content.take 2)
  rw [hlength] at hword
  rw [itemBytes, typeWord, UInt16.toNat_ofNat_of_lt' hlt, hword, List.take_append_drop]

theorem typeWord_itemBytes (word : UInt16) (data : List UInt8) :
    typeWord (itemBytes word data) = word := by
  rw [typeWord, littleEndian_itemBytes, UInt16.ofNat_toNat]

/-! ## `is` -/

namespace ValueType

/-- The type word, and the size for a number or a time, are those of the type. -/
def Matches : ValueType → UInt16 → List UInt8 → Prop
  | string, word, _ => word = typeText
  | timeDate, word, data => data.length = 8 ∧ word = typeTime
  | formula, word, _ => word = typeFormula
  | _, word, data => data.length = 8 ∧ word = typeNumber

instance (type : ValueType) (word : UInt16) (data : List UInt8) :
    Decidable (type.Matches word data) := by
  cases type <;> unfold Matches <;> infer_instance

end ValueType

variable (word : UInt16) (data : List UInt8)

theorem exec_hasTypeAndSize_eq (expected : UInt16) (size : Nat) : ∃ cs,
    exec (hasTypeAndSize expected size) (Cursor.make (some (itemBytes word data))) =
      (.ok (decide (data.length = size ∧ word = expected)), cs) := by
  have hlength : (Cursor.make (some (itemBytes word data))).buffer.length = data.length + 2 :=
    length_itemBytes word data
  rw [hasTypeAndSize, exec_bind_of_ok (exec_get _), hlength]
  by_cases hsize : data.length = size
  · refine ⟨behindType word data, ?_⟩
    rw [if_pos (by rw [hsize]), exec_hasType_eq]
    simp [hsize]
  · refine ⟨Cursor.make (some (itemBytes word data)), ?_⟩
    rw [if_neg (by omega)]
    simp [hsize]

theorem exec_is (type : ValueType) : ∃ cs,
    exec type.is (Cursor.make (some (itemBytes word data))) =
      (.ok (decide (type.Matches word data)), cs) := by
  cases type with
  | string | formula => exact ⟨_, exec_hasType_eq _ word data⟩
  | double | integer | floating => exact exec_hasTypeAndSize_eq word data typeNumber 8
  | timeDate => exact exec_hasTypeAndSize_eq word data typeTime 8

/-! ## `convert` -/

/-- Every text, number and time is converted. An integer has to be in the range of its type, and
a formula cannot be empty. -/
def ValueType.Convertible : ValueType → List UInt8 → Prop
  | integer type, data => (type.ofDouble (UInt64.ofNat (littleEndian data))).isSome = true
  | formula, data => data ≠ [] ∧ data.length < 2 ^ 32
  | _, _ => True

variable {word data}

section None

variable {c cs : Cursor}

theorem exec_convertString_none (h : exec isString c = (.ok false, cs)) :
    exec (convertString env) c = (.ok none, cs) := by
  rw [convertString, exec_bind_of_ok h]
  rfl

theorem exec_convertDouble_none (h : exec isDouble c = (.ok false, cs)) :
    exec convertDouble c = (.ok none, cs) := by
  rw [convertDouble, exec_bind_of_ok h]
  rfl

theorem exec_convertInteger_none (type : IntegerType) (h : exec isDouble c = (.ok false, cs)) :
    exec (convertInteger type) c = (.ok none, cs) := by
  rw [convertInteger, exec_bind_of_ok (exec_convertDouble_none h)]
  rfl

theorem exec_convertFloating_none (cast : UInt64 → Nat) (h : exec isDouble c = (.ok false, cs)) :
    exec (convertFloating cast) c = (.ok none, cs) := by
  rw [convertFloating, exec_bind_of_ok (exec_convertDouble_none h)]
  rfl

theorem exec_convertTimeDate_none (h : exec isTimeDate c = (.ok false, cs)) :
    exec convertTimeDate c = (.ok none, cs) := by
  rw [convertTimeDate, exec_bind_of_ok h]
  rfl

theorem exec_convertFormula_none (h : exec isFormula c = (.ok false, cs)) (s : Called σ) :
    exec (convertFormula env c) s = (.ok none, s) := by
  have hspan : exec formulaSpan c = (.ok none, cs) := by
    rw [formulaSpan, exec_bind_of_ok h]
    rfl
  rw [convertFormula, exec_bind_of_ok (exec_onCursor hspan s)]
  rfl

end None

/-- Data of another type is not converted. -/
theorem exec_convert_none {type : ValueType} (h : ¬ type.Matches word data) (s : Called σ) :
    exec (convert env (Cursor.make (some (itemBytes word data))) type) s = (.ok none, s) := by
  obtain ⟨cs, his⟩ := exec_is word data type
  rw [decide_eq_false h] at his
  cases type with
  | string => exact exec_onCursor (exec_convertString_none his) s
  | double => exact exec_onCursor (exec_convertDouble_none his) s
  | integer type => exact exec_onCursor (exec_convertInteger_none type his) s
  | floating cast => exact exec_onCursor (exec_convertFloating_none cast his) s
  | timeDate => exact exec_onCursor (exec_convertTimeDate_none his) s
  | formula => exact exec_convertFormula_none his s

/-- The program returns a value. -/
def Returns {α : Type} (x : Native.M σ (Option α)) (s : Called σ) : Prop :=
  ∃ a t, exec x s = (.ok (some a), t)

theorem returns_onCursor_iff {α : Type} {c : Cursor} {x : Cursor.M (Option α)} (s : Called σ) :
    Returns (onCursor c x) s ↔ ∃ a cs, exec x c = (.ok (some a), cs) := by
  constructor
  · rintro ⟨a, t, h⟩
    obtain ⟨⟨cs, hx⟩, -⟩ := exec_onCursor_eq_ok h
    exact ⟨a, cs, hx⟩
  · rintro ⟨a, cs, hx⟩
    exact ⟨a, s, exec_onCursor hx s⟩

theorem exec_convertFloating {c cs : Cursor} {value : UInt64} (cast : UInt64 → Nat)
    (h : exec convertDouble c = (.ok (some value), cs)) :
    exec (convertFloating cast) c = (.ok (some (cast value)), cs) := by
  rw [convertFloating, exec_bind_of_ok h]
  rfl

/-- The memory for a formula is neither empty nor too large. -/
theorem bounds_of_convertFormula {memory : List UInt8} {s t : Called σ}
    (h : exec (convertFormula env (Cursor.make (some (itemBytes typeFormula data)))) s =
      (.ok (some memory), t)) : data ≠ [] ∧ data.length < 2 ^ 32 := by
  obtain ⟨span, u, hspan, h⟩ := exec_bind_eq_ok h
  rw [exec_onCursor (exec_formulaSpan data)] at hspan
  cases hspan
  obtain ⟨block, u, hcopy, -⟩ := exec_bind_eq_ok h
  obtain ⟨cursor, w, hallocate, -⟩ := exec_bind_eq_ok hcopy
  obtain ⟨-, hlimit, -⟩ := exec_allocate_eq_ok hallocate
  refine ⟨?_, hlimit⟩
  rintro rfl
  cases hallocate

/-- Data of the type is converted if that can be done. -/
theorem returns_convert_iff {n : Nat} (hquiet : Quiet env.native n) (v : σ) {type : ValueType}
    (h : type.Matches word data) :
    Returns (convert env (Cursor.make (some (itemBytes word data))) type) ⟨n, v⟩ ↔
      type.Convertible data := by
  cases type with
  | string =>
      have hword : word = typeText := h
      subst hword
      have hconvert := exec_convertString env data
      refine iff_of_true ?_ trivial
      exact (returns_onCursor_iff _).mpr ⟨_, _, hconvert⟩
  | double =>
      obtain ⟨hsize, rfl⟩ := h
      obtain ⟨cs, hconvert⟩ := exec_convertDouble_bytes hsize
      refine iff_of_true ?_ trivial
      exact (returns_onCursor_iff _).mpr ⟨_, _, hconvert⟩
  | integer type =>
      obtain ⟨hsize, rfl⟩ := h
      obtain ⟨cs, hdouble⟩ := exec_convertDouble_bytes hsize
      have hconvert := exec_convertInteger_of_double type hdouble
      rw [ValueType.Convertible]
      refine (returns_onCursor_iff _).trans ?_
      cases hresult : type.ofDouble (UInt64.ofNat (littleEndian data)) with
      | none =>
          rw [hresult] at hconvert
          refine iff_of_false ?_ Bool.false_ne_true
          rintro ⟨a, cs', hreturns⟩
          cases hconvert.symm.trans hreturns
      | some x =>
          rw [hresult] at hconvert
          exact iff_of_true ⟨x, cs, hconvert⟩ rfl
  | floating cast =>
      obtain ⟨hsize, rfl⟩ := h
      obtain ⟨cs, hconvert⟩ := exec_convertDouble_bytes hsize
      have hfloating := exec_convertFloating cast hconvert
      refine iff_of_true ?_ trivial
      exact (returns_onCursor_iff _).mpr ⟨_, _, hfloating⟩
  | timeDate =>
      obtain ⟨hsize, rfl⟩ := h
      obtain ⟨cs, hconvert⟩ := exec_convertTimeDate_bytes hsize
      refine iff_of_true ?_ trivial
      exact (returns_onCursor_iff _).mpr ⟨_, _, hconvert⟩
  | formula =>
      have hword : word = typeFormula := h
      subst hword
      constructor
      · rintro ⟨memory, t, hreturns⟩
        exact bounds_of_convertFormula hreturns
      · rintro ⟨hne, hlimit⟩
        obtain ⟨k, -, hexec⟩ := yields_convertFormula hne hlimit v n hquiet
        exact ⟨data, ⟨k, v⟩, hexec⟩

/-! ## Both together -/

/-- `is` is true exactly when `try_as` returns a value. -/
def Agrees (env : Env) (content : List UInt8) (type : ValueType) (s : Called σ) : Prop :=
  (∃ t, exec (is env content type) s = (.ok true, t)) ↔ Returns (tryAs env content type) s

/-- The content is no formula without data, nor one that is too large, and a number is in the
range of the integer type. -/
def Sound : ValueType → List UInt8 → Prop
  | .formula, content => 2 ≤ content.length → typeWord content = typeFormula →
      2 < content.length ∧ content.length < 2 ^ 32 + 2
  | .integer type, content => content.length = 10 → typeWord content = typeNumber →
      (type.ofDouble (UInt64.ofNat (littleEndian (content.drop 2)))).isSome = true
  | _, _ => True

theorem exec_lock {n : Nat} (hquiet : Quiet env.native n) (v : σ) (content : List UInt8) :
    exec (lock env content) ⟨n, v⟩ = (.ok (Cursor.make (some content)), ⟨n + 1, v⟩) := by
  rw [lock, exec_bind_of_ok (exec_call _), hquiet n (Nat.le_refl n)]
  rfl

theorem exec_is_iff {n : Nat} (hquiet : Quiet env.native n) (v : σ) (word : UInt16)
    (data : List UInt8) (type : ValueType) :
    (∃ t, exec (is env (itemBytes word data) type) ⟨n, v⟩ = (.ok true, t)) ↔
      type.Matches word data := by
  have hlength : ¬ (itemBytes word data).length < 2 := by
    rw [length_itemBytes]
    omega
  obtain ⟨cs, his⟩ := exec_is word data type
  rw [is, if_neg hlength, exec_bind_of_ok (exec_lock hquiet v _), exec_onCursor his]
  constructor
  · rintro ⟨t, htrue⟩
    simpa using (Prod.mk.inj htrue).1
  · intro h
    rw [decide_eq_true h]
    exact ⟨_, rfl⟩

theorem returns_tryAs_iff {n : Nat} (hquiet : Quiet env.native n) (v : σ) (word : UInt16)
    (data : List UInt8) (type : ValueType) :
    Returns (tryAs env (itemBytes word data) type) ⟨n, v⟩ ↔
      Returns (convert env (Cursor.make (some (itemBytes word data))) type) ⟨n + 1, v⟩ := by
  have hlength : ¬ (itemBytes word data).length < 2 := by
    rw [length_itemBytes]
    omega
  have hlock := exec_lock hquiet v (itemBytes word data)
  unfold Returns
  rw [tryAs, if_neg hlength]
  simp only [exec_tryCatch, exec_bind_of_ok hlock]
  rcases exec (convert env (Cursor.make (some (itemBytes word data))) type) ⟨n + 1, v⟩ with
    ⟨stop | a, t⟩
  · cases stop with
    | throws error => simp
    | undefined => simp
  · simp

theorem sound_itemBytes (word : UInt16) (data : List UInt8) (type : ValueType) :
    Sound type (itemBytes word data) ↔ (type.Matches word data → type.Convertible data) := by
  have hword := typeWord_itemBytes word data
  cases type with
  | formula =>
      have hlength : 2 ≤ data.length + 2 := Nat.le_add_left 2 _
      simp only [Sound, hword, length_itemBytes, ValueType.Matches, ValueType.Convertible,
        ← List.length_pos_iff, hlength, true_imp_iff]
      refine imp_congr_right fun _ => ?_
      omega
  | integer type =>
      have hsize : data.length + 2 = 10 ↔ data.length = 8 := by omega
      simp only [Sound, hword, length_itemBytes, drop_itemBytes, ValueType.Matches,
        ValueType.Convertible, and_imp, hsize]
  | string | double | floating | timeDate => simp [Sound, ValueType.Convertible]

/-- `is` tells whether `try_as` returns a value, but for formulas without data or of 4 GB, and for
numbers out of the range of an integer type. -/
theorem is_iff_tryAs {n : Nat} (hquiet : Quiet env.native n) (v : σ) (content : List UInt8)
    (type : ValueType) : Agrees env content type ⟨n, v⟩ ↔ Sound type content := by
  by_cases hlength : content.length < 2
  · have hsound : Sound type content := by
      cases type with
      | formula | integer =>
          intro hsize
          omega
      | string | double | floating | timeDate => trivial
    refine iff_of_true (iff_of_false ?_ ?_) hsound
    · rintro ⟨t, h⟩
      rw [is, if_pos hlength] at h
      cases h
    · rintro ⟨a, t, h⟩
      rw [tryAs, if_pos hlength] at h
      cases h
  · have hcontent := itemBytes_typeWord (Nat.le_of_not_lt hlength)
    rw [← hcontent]
    generalize typeWord content = word
    generalize content.drop 2 = data
    rw [Agrees, exec_is_iff hquiet, returns_tryAs_iff hquiet, sound_itemBytes]
    have hnext := hquiet.mono (Nat.le_succ n)
    by_cases hmatches : type.Matches word data
    · rw [returns_convert_iff hnext v hmatches]
      simp only [hmatches, true_iff, true_imp_iff]
    · refine iff_of_true (iff_of_false hmatches ?_) fun h => absurd h hmatches
      rintro ⟨a, t, h⟩
      rw [exec_convert_none hmatches] at h
      cases h

theorem is_iff_tryAs_sample :
    Agrees sampleEnv (itemBytes typeFormula [0x87]) .formula (⟨0, ()⟩ : Called Unit) ↔
      Sound .formula (itemBytes typeFormula [0x87]) :=
  have hquiet : Quiet sampleEnv.native 0 := fun _ _ => rfl
  is_iff_tryAs hquiet () (itemBytes typeFormula [0x87]) .formula

/-- A formula without data has the type, and no conversion. -/
theorem not_agrees_of_empty_formula : ¬ ∀ (env : Env) (n : Nat), Quiet env.native n →
    ∀ (content : List UInt8) (type : ValueType),
      Agrees env content type (⟨n, ()⟩ : Called Unit) := by
  intro h
  have hquiet : Quiet sampleEnv.native 0 := fun _ _ => rfl
  have hagrees := h sampleEnv 0 hquiet (itemBytes typeFormula []) .formula
  obtain ⟨a, t, hreturns⟩ := hagrees.mp ⟨_, rfl⟩
  cases hreturns

end Dmn.ValueImpl
