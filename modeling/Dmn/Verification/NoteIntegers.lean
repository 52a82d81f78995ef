import Dmn.Verification.NoteValue

/-! # Integers in number items

A number item holds a `double`. An integer is rounded to 53 significant bits when it is set. -/

namespace Dmn.NoteValue

open Exec Native Cursor

variable {env : Env} {type : IntegerType} {x y : Int} {key name : List UInt8} {items : List Item}

namespace IntegerType

theorem pow_le_pow_of_le {n : Nat} (h : n ≤ 64) : (2 : Int) ^ n ≤ 2 ^ 64 := by
  have hnat : 2 ^ n ≤ 2 ^ 64 := Nat.pow_le_pow_right (by decide) h
  exact_mod_cast hnat

theorem natAbs_log2_lt (hwidth : type.width ≤ 64) (hx : type.Holds x) :
    x.natAbs.log2 < 1022 := by
  have hlt : x.natAbs < 2 ^ 65 := by
    cases type with
    | bool => rcases hx with rfl | rfl <;> decide
    | signed width =>
        obtain ⟨hlow, hhigh⟩ := hx
        have hpow : (2 : Int) ^ (width - 1) ≤ 2 ^ 64 :=
          pow_le_pow_of_le (Nat.le_trans (Nat.sub_le width 1) hwidth)
        omega
    | unsigned width =>
        obtain ⟨hlow, hhigh⟩ := hx
        have hpow : (2 : Int) ^ width ≤ 2 ^ 64 := pow_le_pow_of_le hwidth
        omega
  by_cases hzero : x.natAbs = 0
  · rw [hzero]
    decide
  · have hlog := (Nat.log2_lt hzero).mpr hlt
    omega

/-- The number that was rounded is the result, if the type has it. -/
theorem ofDouble_ofInt (hwidth : type.width ≤ 64) (hx : type.Holds x) :
    type.ofDouble (Binary64.ofInt x) =
      if type.Holds (Binary64.roundInt x) then some (Binary64.roundInt x) else none := by
  have htruncate := Binary64.truncate_ofInt (natAbs_log2_lt hwidth hx)
  cases type with
  | bool =>
      rcases hx with rfl | rfl
      · decide
      · decide
  | signed width | unsigned width =>
      simp only [ofDouble, htruncate, Option.filter_some, decide_eq_true_eq]

end IntegerType

theorem exec_convertInteger (type : IntegerType) (value : UInt64) : ∃ cs,
    exec (convertInteger type)
        (Cursor.make (some (itemBytes typeNumber (integerBytes 8 value.toNat)))) =
      match type.ofDouble value with
      | some x => (.ok (some x), cs)
      | none => (.error .undefined, cs) := by
  obtain ⟨cs, hdouble⟩ := exec_convertDouble value
  exact ⟨cs, exec_convertInteger_of_double type hdouble⟩

/-! ## Setting and getting -/

/-- The item that holds an integer. -/
def integerItem (name : List UInt8) (x : Int) (flags : UInt16) : Item :=
  Note.stored name typeNumber (applyInteger x).buffer flags

/-- `get` gives the nearest integer of 53 significant bits, if it is in the range of the type, and
so gives the integer itself exactly when that has no more bits. -/
structure GetsRounded (env : Env) (type : IntegerType) (key : List UInt8) (x : Int)
    (items : List Item) : Prop where
  rounded : type.Holds (Binary64.roundInt x) →
    Yields env.native (getInteger env type key) items (some (Binary64.roundInt x)) items
  nearest : ∀ z : Int, Rounding.Fits Binary64.precision z.natAbs →
    (Binary64.roundInt x - x).natAbs ≤ (z - x).natAbs
  exact_iff : Yields env.native (getInteger env type key) items (some x) items ↔
    Rounding.Fits Binary64.precision x.natAbs

theorem delivers_setInteger (hname : Lmbcs.fromString env.codePage key = name)
    (hplain : key.take (key.length % 2 ^ 16) = name) (x : Int) (flags : UInt16)
    (items : List Item) : Delivers env.native (setInteger env key x flags) items ()
      (Table.put Item.name (integerItem name x flags) items) :=
  Note.delivers_set hname hplain _ _ flags items

theorem yields_getInteger (hwidth : type.width ≤ 64) (hx : type.Holds x)
    (hname : Lmbcs.fromString env.codePage key = name)
    (hplain : key.take (key.length % 2 ^ 16) = name) {flags : UInt16}
    (hitem : Table.lookup Item.name name items = some (integerItem name x flags))
    (hrounded : type.Holds (Binary64.roundInt x)) :
    Yields env.native (getInteger env type key) items (some (Binary64.roundInt x)) items := by
  have hresult : type.ofDouble (Binary64.ofInt x) = some (Binary64.roundInt x) := by
    rw [IntegerType.ofDouble_ofInt hwidth hx, if_pos hrounded]
  obtain ⟨cs, hconvert⟩ := exec_convertInteger type (Binary64.ofInt x)
  rw [hresult] at hconvert
  exact yields_get hname hplain hitem (Delivers.onCursor hconvert items).yields

/-- What `get` returns is the number that was rounded. -/
theorem eq_roundInt_of_getInteger {s t : Called (List Item)} (hwidth : type.width ≤ 64)
    (hx : type.Holds x) {flags : UInt16}
    (hitem : Table.lookup Item.name (key.take (key.length % 2 ^ 16)) s.value =
      some (integerItem name x flags))
    (h : exec (getInteger env type key) s = (.ok (some y), t)) : y = Binary64.roundInt x := by
  obtain ⟨item, u, hfound, -, hget⟩ := exec_get_eq_ok_some h
  rw [hitem] at hfound
  cases hfound
  obtain ⟨⟨cs, hconverted⟩, -⟩ := exec_onCursor_eq_ok hget
  obtain ⟨cs', hconvert⟩ := exec_convertInteger type (Binary64.ofInt x)
  have hresult : exec (convertInteger type) (Cursor.make (some (itemBytes typeNumber
      (integerBytes 8 (Binary64.ofInt x).toNat)))) = (.ok (some y), cs) := hconverted
  rw [hconvert, IntegerType.ofDouble_ofInt hwidth hx] at hresult
  by_cases hrounded : type.Holds (Binary64.roundInt x)
  · rw [if_pos hrounded] at hresult
    cases hresult
    rfl
  · rw [if_neg hrounded] at hresult
    cases hresult

theorem getsRounded {n : Nat} (hquiet : Quiet env.native n) (hwidth : type.width ≤ 64)
    (hx : type.Holds x) (hname : Lmbcs.fromString env.codePage key = name)
    (hplain : key.take (key.length % 2 ^ 16) = name) {flags : UInt16}
    (hitem : Table.lookup Item.name name items = some (integerItem name x flags)) :
    GetsRounded env type key x items := by
  refine ⟨yields_getInteger hwidth hx hname hplain hitem,
    fun z => Binary64.roundInt_nearest x, ?_, ?_⟩
  · intro hyields
    obtain ⟨k, -, hget⟩ := hyields n hquiet
    subst hplain
    rw [← Binary64.roundInt_eq_self_iff]
    exact (eq_roundInt_of_getInteger hwidth hx hitem hget).symm
  · intro hfits
    have hself := (Binary64.roundInt_eq_self_iff x).mpr hfits
    have hyields := yields_getInteger hwidth hx hname hplain hitem (by rwa [hself])
    rwa [hself] at hyields

/-- An integer of up to 64 bits is never refused. Under a key that means one item, its item has the
nearest double, and the next `get` of its type gives the nearest integer of 53 significant bits. -/
theorem getInteger_setInteger {n : Nat} (hquiet : Quiet env.native n) (hwidth : type.width ≤ 64)
    (hx : type.Holds x)
    (hkey : Lmbcs.fromString env.codePage key = key.take (key.length % 2 ^ 16)) (flags : UInt16)
    (items : List Item) :
    let stored := integerItem (key.take (key.length % 2 ^ 16)) x flags
    let items' := Table.put Item.name stored items
    Yields env.native (setInteger env key x flags) items () items' ∧
      GetsRounded env type key x items' := by
  refine ⟨(delivers_setInteger hkey rfl x flags items).yields, ?_⟩
  exact getsRounded hquiet hwidth hx hkey rfl
    (Table.lookup_put_self Item.name (integerItem _ x flags) items)

def largeInteger : Int := 2 ^ 53 + 1

theorem getInteger_setInteger_sample :
    let items' := [integerItem [0x4E] largeInteger 0]
    Yields sampleEnv.native (setInteger sampleEnv [0x4E] largeInteger 0) [] () items' ∧
      GetsRounded sampleEnv (.signed 64) [0x4E] largeInteger items' :=
  have hquiet : Quiet sampleEnv.native 0 := fun _ _ => rfl
  have hkey : Lmbcs.fromString sampleEnv.codePage [0x4E] =
      ([0x4E] : List UInt8).take (([0x4E] : List UInt8).length % 2 ^ 16) := by decide
  getInteger_setInteger hquiet (by decide) (by decide) hkey 0 []

/-- The first integer that takes 54 bits comes back as the one before it. -/
theorem not_exact_of_largeInteger : ¬ ∀ (env : Env) (n : Nat), Quiet env.native n →
    ∀ (type : IntegerType) (x : Int), type.width ≤ 64 → type.Holds x →
      ∀ key flags items t, exec (setInteger env key x flags) ⟨n, items⟩ = (.ok (), t) →
        ∃ u, exec (getInteger env type key) t = (.ok (some x), u) := by
  intro h
  have hquiet : Quiet sampleEnv.native 0 := fun _ _ => rfl
  have hkey : Lmbcs.fromString sampleEnv.codePage [0x4E] = [0x4E] := by decide
  have hplain : ([0x4E] : List UInt8).take (([0x4E] : List UInt8).length % 2 ^ 16) = [0x4E] := rfl
  obtain ⟨k, -, hset⟩ :=
    (delivers_setInteger hkey hplain largeInteger 0 []).yields 0 hquiet
  obtain ⟨u, hget⟩ :=
    h sampleEnv 0 hquiet (.signed 64) largeInteger (by decide) (by decide) [0x4E] 0 [] _ hset
  have hwidth : (IntegerType.signed 64).width ≤ 64 := by decide
  have hholds : (IntegerType.signed 64).Holds largeInteger := by decide
  have hitem : Table.lookup Item.name
      (([0x4E] : List UInt8).take (([0x4E] : List UInt8).length % 2 ^ 16))
      (Table.put Item.name (integerItem [0x4E] largeInteger 0) []) =
        some (integerItem [0x4E] largeInteger 0) :=
    Table.lookup_put_self Item.name (integerItem [0x4E] largeInteger 0) []
  have heq : largeInteger = Binary64.roundInt largeInteger :=
    eq_roundInt_of_getInteger hwidth hholds hitem hget
  exact absurd heq (by decide)

end Dmn.NoteValue
