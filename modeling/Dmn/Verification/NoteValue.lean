import Dmn.Model.NoteValue
import Dmn.Verification.Cursor.Reading
import Dmn.Verification.Formula.ItemName
import Dmn.Verification.Note
import Dmn.Verification.TextList

/-! # Setting a value and getting it back

The bytes of an item stand behind its type word. Each conversion takes off what its encoder left
to the item. -/

namespace Dmn.NoteValue

open Exec Native Cursor

variable {env : Env}

/-! ## The bytes of an item -/

theorem length_itemBytes (type : UInt16) (bytes : List UInt8) :
    (itemBytes type bytes).length = bytes.length + 2 := by
  rw [itemBytes, List.length_append, length_integerBytes, Nat.add_comm]

/-- The cursor behind the type word. -/
def behindType (type : UInt16) (bytes : List UInt8) : Cursor := ⟨itemBytes type bytes, 2⟩

theorem drop_itemBytes (type : UInt16) (bytes : List UInt8) :
    (itemBytes type bytes).drop 2 = bytes := List.drop_left' (length_integerBytes 2 _)

theorem littleEndian_itemBytes (type : UInt16) (bytes : List UInt8) :
    littleEndian ((itemBytes type bytes).take 2) = type.toNat := by
  have hlt : type.toNat < 256 ^ 2 := type.toNat_lt
  rw [itemBytes, List.take_left' (length_integerBytes 2 _), littleEndian_integerBytes,
    Nat.mod_eq_of_lt hlt]

theorem exec_readType (type : UInt16) (bytes : List UInt8) :
    exec (readInteger 2) (Cursor.make (some (itemBytes type bytes))) =
      (.ok type.toNat, behindType type bytes) := by
  have hlength := length_itemBytes type bytes
  have hcheck : ¬ (Cursor.make (some (itemBytes type bytes))).buffer.length <
      checkedEnd (Cursor.make (some (itemBytes type bytes))) 2 := by
    simp only [Cursor.make, Option.getD_some, hlength, checkedEnd]
    simp
  have hread : exec (Cursor.read 2) (Cursor.make (some (itemBytes type bytes))) =
      (.ok ((itemBytes type bytes).take 2), behindType type bytes) := by
    rw [Cursor.read, exec_bind, exec_ensureBounds, if_neg hcheck]
    simp only
    rw [exec_bind, exec_load, if_pos]
    · rfl
    · simp [Cursor.make, hlength]
  rw [readInteger, exec_bind_of_ok hread, littleEndian_itemBytes]
  rfl

theorem exec_hasType_eq (expected type : UInt16) (bytes : List UInt8) :
    exec (hasType expected) (Cursor.make (some (itemBytes type bytes))) =
      (.ok (decide (type = expected)), behindType type bytes) := by
  rw [hasType, exec_bind_of_ok (exec_readType type bytes)]
  simp [UInt16.toNat_inj]

theorem exec_hasType (type : UInt16) (bytes : List UInt8) :
    exec (hasType type) (Cursor.make (some (itemBytes type bytes))) =
      (.ok true, behindType type bytes) := by
  rw [exec_hasType_eq, decide_eq_true rfl]

theorem exec_loadData (type : UInt16) (bytes : List UInt8) :
    exec (load ((behindType type bytes).buffer.length - 2)) (behindType type bytes) =
      (.ok bytes, behindType type bytes) := by
  have hlength := length_itemBytes type bytes
  have hoffset : (behindType type bytes).offset.toNat = 2 := rfl
  rw [exec_load, if_pos]
  · rw [hoffset]
    simp only [behindType, drop_itemBytes, hlength, Nat.add_sub_cancel, List.take_length]
  · rw [hoffset]
    simp only [behindType, hlength]
    omega

theorem before_behindType (type : UInt16) {bytes : List UInt8} (h : bytes.length + 2 < 2 ^ 16) :
    (behindType type bytes).Before bytes := by
  refine ⟨drop_itemBytes type bytes, ?_, ?_⟩
  · simp only [behindType, length_itemBytes]
    exact Nat.le_add_left 2 _
  · simp only [behindType, length_itemBytes]
    exact h

/-! ## Conversions -/

variable (env) in
theorem exec_convertString (bytes : List UInt8) :
    exec (convertString env) (Cursor.make (some (itemBytes typeText bytes))) =
      (.ok (some (Lmbcs.toString env.codePage bytes)), behindType typeText bytes) := by
  rw [convertString, isString, exec_bind_of_ok (exec_hasType typeText bytes), if_pos rfl,
    exec_bind_of_ok (exec_get _), exec_bind_of_ok (exec_loadData typeText bytes)]
  rfl

theorem exec_hasTypeAndSize (type : UInt16) {bytes : List UInt8} {size : Nat}
    (h : bytes.length = size) :
    exec (hasTypeAndSize type size) (Cursor.make (some (itemBytes type bytes))) =
      (.ok true, behindType type bytes) := by
  have hlength : (Cursor.make (some (itemBytes type bytes))).buffer.length = size + 2 := by
    rw [← h]
    exact length_itemBytes type bytes
  rw [hasTypeAndSize, exec_bind_of_ok (exec_get _), if_pos hlength, exec_hasType]

/-- The bytes behind the type word, as many as there are. -/
theorem exec_readData (type : UInt16) {bytes : List UInt8} (h : bytes.length + 2 < 2 ^ 16) :
    exec (read bytes.length) (behindType type bytes) =
      (.ok bytes, (behindType type bytes).advanced bytes.length) := by
  have hbefore : (behindType type bytes).Before (bytes ++ []) := by
    rw [List.append_nil]
    exact before_behindType type h
  exact exec_read_of_before hbefore

theorem exec_convertDouble_bytes {bytes : List UInt8} (h : bytes.length = 8) : ∃ cs,
    exec convertDouble (Cursor.make (some (itemBytes typeNumber bytes))) =
      (.ok (some (UInt64.ofNat (littleEndian bytes))), cs) := by
  have hread := exec_readData typeNumber (show bytes.length + 2 < 2 ^ 16 by rw [h]; decide)
  rw [h] at hread
  refine ⟨(behindType typeNumber bytes).advanced 8, ?_⟩
  rw [convertDouble, isDouble, exec_bind_of_ok (exec_hasTypeAndSize typeNumber h), if_pos rfl,
    readInteger, exec_bind, exec_bind_of_ok hread]
  rfl

theorem exec_convertDouble (value : UInt64) : ∃ cs,
    exec convertDouble (Cursor.make (some (itemBytes typeNumber (integerBytes 8 value.toNat)))) =
      (.ok (some value), cs) := by
  have hlt : value.toNat < 256 ^ 8 := value.toNat_lt
  have hconvert := exec_convertDouble_bytes (length_integerBytes 8 value.toNat)
  rwa [littleEndian_integerBytes, Nat.mod_eq_of_lt hlt, UInt64.ofNat_toNat] at hconvert

theorem exec_convertInteger_of_double {c cs : Cursor} {value : UInt64} (type : IntegerType)
    (h : exec convertDouble c = (.ok (some value), cs)) :
    exec (convertInteger type) c = match type.ofDouble value with
      | some x => (.ok (some x), cs)
      | none => (.error .undefined, cs) := by
  rw [convertInteger, exec_bind_of_ok h]
  cases hresult : type.ofDouble value with
  | none => simp only [hresult, exec_throw]
  | some x => simp only [hresult, exec_pure]

theorem boolOfDouble_doubleOfBool (value : Bool) : boolOfDouble (doubleOfBool value) = value := by
  cases value <;> decide

theorem exec_convertBool (value : Bool) : ∃ cs,
    exec convertBool (Cursor.make (some (itemBytes typeNumber
      (integerBytes 8 (doubleOfBool value).toNat)))) = (.ok (some value), cs) := by
  obtain ⟨cs, hdouble⟩ := exec_convertDouble (doubleOfBool value)
  refine ⟨cs, ?_⟩
  rw [convertBool, exec_bind_of_ok hdouble, Option.map_some, boolOfDouble_doubleOfBool]
  rfl

theorem ofNat_littleEndian_word (word : UInt32) :
    UInt32.ofNat (littleEndian (integerBytes 4 word.toNat)) = word := by
  have hlt : word.toNat < 256 ^ 4 := word.toNat_lt
  rw [littleEndian_integerBytes, Nat.mod_eq_of_lt hlt, UInt32.ofNat_toNat]

theorem exec_convertTimeDate_bytes {bytes : List UInt8} (h : bytes.length = 8) : ∃ cs,
    exec convertTimeDate (Cursor.make (some (itemBytes typeTime bytes))) =
      (.ok (some ⟨UInt32.ofNat (littleEndian (bytes.take 4)),
        UInt32.ofNat (littleEndian (bytes.drop 4))⟩), cs) := by
  have hread := exec_readData typeTime (show bytes.length + 2 < 2 ^ 16 by rw [h]; decide)
  rw [h] at hread
  refine ⟨(behindType typeTime bytes).advanced 8, ?_⟩
  rw [convertTimeDate, isTimeDate, exec_bind_of_ok (exec_hasTypeAndSize typeTime h), if_pos rfl,
    exec_bind_of_ok hread]
  rfl

theorem exec_convertTimeDate (value : TimeDate) : ∃ cs,
    exec convertTimeDate (Cursor.make (some (itemBytes typeTime value.bytes))) =
      (.ok (some value), cs) := by
  have hfirst : (integerBytes 4 value.first.toNat).length = 4 := length_integerBytes 4 _
  have hbytes : value.bytes.length = 8 := by
    rw [TimeDate.bytes, List.length_append, hfirst, length_integerBytes]
  have hconvert := exec_convertTimeDate_bytes hbytes
  rwa [TimeDate.bytes, List.take_left' hfirst, List.drop_left' hfirst, ofNat_littleEndian_word,
    ofNat_littleEndian_word] at hconvert

theorem exec_formulaSpan (bytes : List UInt8) :
    exec formulaSpan (Cursor.make (some (itemBytes typeFormula bytes))) =
      (.ok (some bytes), behindType typeFormula bytes) := by
  rw [formulaSpan, isFormula, exec_bind_of_ok (exec_hasType typeFormula bytes), if_pos rfl,
    exec_bind_of_ok (exec_get _), exec_bind_of_ok (exec_loadData typeFormula bytes)]
  rfl

/-! ## Taking a value apart -/

/-- The setter's arguments for a value. -/
def applied (env : Env) : Value → Applied
  | .string value => applyString env value
  | .double value => applyDouble value
  | .bool value => applyBool value
  | .timeDate value => applyTimeDate value
  | .list value => ⟨typeTextList, (TextList.bytes (value.memory.getD [])).drop 2⟩
  | .formula memory => ⟨typeFormula, memory.take (env.engine.getSize memory).toNat⟩
  | .itemValue type bytes => ⟨type, bytes⟩

/-- The object has memory, and all that it is said to hold. -/
def Filled (env : Env) : Value → Prop
  | .list value => ∃ entries, value.memory = some entries
  | .formula memory => (env.engine.getSize memory).toNat ≤ memory.length
  | _ => True

/-- A string survives the conversion to LMBCS. Of the native library's memory, a list has less
than 64 KB and a compiled formula is not empty. -/
def Sound (env : Env) : Value → Prop
  | .string value => Lmbcs.toString env.codePage (Lmbcs.fromString env.codePage value) = value
  | .list value => ∀ entries, value.memory = some entries → TextList.byteSize entries < 2 ^ 16
  | .formula memory => 0 < (env.engine.getSize memory).toNat
  | _ => True

variable {σ : Type} {s t : Called σ} {a : Applied}

theorem exec_lock_eq_ok {value : List UInt8} {cursor : Cursor}
    (h : exec (lock env value) s = (.ok cursor, t)) :
    cursor = Cursor.make (some value) ∧ t.value = s.value := by
  rw [lock, exec_bind_of_ok (exec_call s)] at h
  split at h
  · cases h
  · cases h
    exact ⟨rfl, rfl⟩

theorem exec_applyList_eq_ok {value : TextList} (hvalue : Sound env (.list value))
    (h : exec (applyList env value) s = (.ok a, t)) :
    Filled env (.list value) ∧ a = applied env (.list value) ∧ t.value = s.value := by
  obtain ⟨cursor, u, hobject, h⟩ := exec_bind_eq_ok h
  obtain ⟨v, hcursor, rfl⟩ := exec_onObject_eq_ok hobject
  obtain ⟨entries, hmemory, rfl⟩ := TextList.exec_getCursor_eq_ok hcursor
  replace hmemory : value.memory = some entries := hmemory
  split at h
  · cases h
  · cases h
    refine ⟨⟨entries, hmemory⟩, ?_, rfl⟩
    rw [applied, hmemory, Option.getD_some, Nat.mod_eq_of_lt (hvalue entries hmemory)]
    simp only [Cursor.make, Option.getD_some, TextList.byteSize, List.take_length]

theorem exec_applyFormula_eq_ok {memory : List UInt8}
    (h : exec (applyFormula env memory) s = (.ok a, t)) :
    Filled env (.formula memory) ∧ a = applied env (.formula memory) ∧ t.value = s.value := by
  obtain ⟨cursor, u, hobject, h⟩ := exec_bind_eq_ok h
  obtain ⟨v, hcursor, rfl⟩ := exec_onObject_eq_ok hobject
  obtain ⟨hfit, rfl⟩ := Formula.exec_getCursor_eq_ok hcursor
  cases h
  exact ⟨hfit, rfl, rfl⟩

theorem exec_applyItemValue_eq_ok {type : UInt16} {bytes : List UInt8}
    (h : exec (applyItemValue env type bytes) s = (.ok a, t)) :
    a = ⟨type, bytes⟩ ∧ t.value = s.value := by
  obtain ⟨cursor, u, hlock, h⟩ := exec_bind_eq_ok h
  obtain ⟨rfl, hu⟩ := exec_lock_eq_ok hlock
  have hread : exec (do
      let typ ← readInteger 2
      let span ← load ((Cursor.make (some (itemBytes type bytes))).buffer.length - 2)
      pure (⟨UInt16.ofNat typ, span⟩ : Applied)) (Cursor.make (some (itemBytes type bytes))) =
        (.ok ⟨type, bytes⟩, behindType type bytes) := by
    rw [exec_bind_of_ok (exec_readType type bytes), UInt16.ofNat_toNat]
    exact exec_bind_of_ok (exec_loadData type bytes)
  rw [exec_onCursor hread u] at h
  cases h
  exact ⟨rfl, hu⟩

/-- A value that was taken apart gives its type and bytes. -/
theorem exec_apply_eq_ok {value : Value} (hvalue : Sound env value)
    (h : exec (apply env value) s = (.ok a, t)) :
    Filled env value ∧ a = applied env value ∧ t.value = s.value := by
  cases value with
  | list value => exact exec_applyList_eq_ok hvalue h
  | formula memory => exact exec_applyFormula_eq_ok h
  | itemValue type bytes => exact ⟨trivial, exec_applyItemValue_eq_ok h⟩
  | string | double | bool | timeDate =>
      cases h
      exact ⟨trivial, rfl, rfl⟩

/-! ## Getting a value -/

theorem yields_lock (value : List UInt8) (v : σ) :
    Yields env.native (lock env value) v (Cursor.make (some value)) v :=
  (Yields.call v).bind (Delivers.pure v _).yields

theorem yields_tryAs {α : Type} {convert : Cursor → Native.M σ (Option α)} {type : UInt16}
    {bytes : List UInt8} {result : Option α} {v : σ}
    (h : Yields env.native (convert (Cursor.make (some (itemBytes type bytes)))) v result v) :
    Yields env.native (tryAs env type bytes convert) v result v := by
  have hlength : ¬ (itemBytes type bytes).length < 2 := by
    rw [length_itemBytes]
    omega
  rw [tryAs, if_neg hlength]
  exact ((yields_lock _ v).bind h).tryCatch

/-- What is got was converted, with no exception in between. -/
theorem exec_tryAs_eq_ok_some {α : Type} {convert : Cursor → Native.M σ (Option α)}
    {type : UInt16} {bytes : List UInt8} {a : α}
    (h : exec (tryAs env type bytes convert) s = (.ok (some a), t)) :
    ∃ u, u.value = s.value ∧
      exec (convert (Cursor.make (some (itemBytes type bytes)))) u = (.ok (some a), t) := by
  have hlength : ¬ (itemBytes type bytes).length < 2 := by
    rw [length_itemBytes]
    omega
  rw [tryAs, if_neg hlength, exec_tryCatch] at h
  split at h
  · next result u hresult =>
    cases h
    obtain ⟨cursor, w, hlock, hconvert⟩ := exec_bind_eq_ok hresult
    obtain ⟨rfl, hvalue⟩ := exec_lock_eq_ok hlock
    exact ⟨w, hvalue, hconvert⟩
  · next stop u hresult =>
    cases stop <;> cases h

variable {items : List Item} {item : Item} {key name : List UInt8}

/-- The item is looked up under its name. -/
theorem yields_found {α : Type} {f : Item → Note.M (Option α)} {result : Option α}
    (hname : Lmbcs.fromString env.codePage key = name)
    (hplain : key.take (key.length % 2 ^ 16) = name)
    (hitem : Table.lookup Item.name name items = some item)
    (h : Yields env.native (f item) items result items) :
    Yields env.native (do
      let present ← Note.has env.codePage key
      if present then do
        let item ← Note.itemInfo env.native key
        f item
      else pure none) items result items := by
  have hhas : Delivers env.native (Note.has env.codePage key) items true items := by
    rw [show true = (Table.lookup Item.name name items).isSome by rw [hitem]; rfl]
    exact Note.delivers_has hname items
  exact hhas.yields.bind ((Note.delivers_itemInfo hplain hitem).yields.bind h)

theorem yields_get {α : Type} {convert : Cursor → Note.M (Option α)} {result : Option α}
    (hname : Lmbcs.fromString env.codePage key = name)
    (hplain : key.take (key.length % 2 ^ 16) = name)
    (hitem : Table.lookup Item.name name items = some item)
    (h : Yields env.native (convert (Cursor.make (some (itemBytes item.type item.value)))) items
      result items) :
    Yields env.native (get env convert key) items result items :=
  yields_found hname hplain hitem (yields_tryAs h)

theorem exec_get_eq_ok_some {α : Type} {convert : Cursor → Note.M (Option α)}
    {s t : Called (List Item)} {a : α} (h : exec (get env convert key) s = (.ok (some a), t)) :
    ∃ item u, Table.lookup Item.name (key.take (key.length % 2 ^ 16)) s.value = some item ∧
      u.value = s.value ∧
      exec (convert (Cursor.make (some (itemBytes item.type item.value)))) u =
        (.ok (some a), t) := by
  obtain ⟨present, u, hhas, h⟩ := exec_bind_eq_ok h
  have hu := (Note.reads_has key).of_ok hhas
  split at h
  · obtain ⟨item, v, hinfo, h⟩ := exec_bind_eq_ok h
    obtain ⟨hitem, hv⟩ := Note.exec_itemInfo_eq_ok hinfo
    obtain ⟨w, hw, hconvert⟩ := exec_tryAs_eq_ok_some h
    rw [hu] at hitem hv
    exact ⟨item, w, hitem, hw.trans hv, hconvert⟩
  · cases h

theorem yields_getItemValue (hname : Lmbcs.fromString env.codePage key = name)
    (hplain : key.take (key.length % 2 ^ 16) = name)
    (hitem : Table.lookup Item.name name items = some item) :
    Yields env.native (getItemValue env key) items (some (item.type, item.value)) items :=
  yields_found hname hplain hitem (Delivers.pure items _).yields

theorem yields_convertFormula {bytes : List UInt8} (hbytes : bytes ≠ [])
    (hlimit : bytes.length < 2 ^ 32) (v : σ) :
    Yields env.native
      (convertFormula env (Cursor.make (some (itemBytes typeFormula bytes)))) v (some bytes) v := by
  have hspan : Delivers env.native
      (onCursor (Cursor.make (some (itemBytes typeFormula bytes))) formulaSpan) v (some bytes) v :=
    .onCursor (exec_formulaSpan bytes) v
  have hbuffer : (filled bytes []).buffer = bytes := List.append_nil bytes
  refine (hspan.bind ((delivers_allocateCopy hbytes hlimit v).bind ?_)).yields
  rw [hbuffer]
  exact .pure v _

theorem itemBytes_list (entries : TextList.Entries) :
    itemBytes typeTextList ((TextList.bytes entries).drop 2) = TextList.bytes entries := by
  rw [itemBytes, TextList.bytes, List.drop_left' (length_integerBytes 2 _)]

/-- The value that was set; a list or a formula has its memory copied. -/
def Same (env : Env) : Value → Value → Prop
  | .list value, .list got => got.memory = value.memory
  | .formula memory, .formula got => got = memory.take (env.engine.getSize memory).toNat
  | value, got => got = value

/-- An item with the type and bytes of a value is that value. -/
theorem yields_getAs {value : Value} (hsound : Sound env value) (hfilled : Filled env value)
    (hname : Lmbcs.fromString env.codePage key = name)
    (hplain : key.take (key.length % 2 ^ 16) = name)
    (hitem : Table.lookup Item.name name items = some item)
    (htype : item.type = (applied env value).type)
    (hbytes : item.value = (applied env value).buffer) :
    ∃ got, Same env value got ∧
      Yields env.native (getAs env value.kind key) items (some got) items := by
  have hget : ∀ {α : Type} {convert : Cursor → Note.M (Option α)} {a : α} (wrap : α → Value),
      Yields env.native (convert (Cursor.make (some (itemBytes (applied env value).type
        (applied env value).buffer)))) items (some a) items →
      Yields env.native (do
        let value ← get env convert key
        pure (value.map wrap)) items (some (wrap a)) items := by
    intro α convert a wrap h
    rw [← htype, ← hbytes] at h
    exact (yields_get hname hplain hitem h).bind (Delivers.pure items _).yields
  cases value with
  | string value =>
      have h := exec_convertString env (Lmbcs.fromString env.codePage value)
      rw [show Lmbcs.toString env.codePage (Lmbcs.fromString env.codePage value) = value
        from hsound] at h
      exact ⟨.string value, rfl, hget .string (Delivers.onCursor h items).yields⟩
  | double value =>
      obtain ⟨cs, h⟩ := exec_convertDouble value
      exact ⟨.double value, rfl, hget .double (Delivers.onCursor h items).yields⟩
  | bool value =>
      obtain ⟨cs, h⟩ := exec_convertBool value
      exact ⟨.bool value, rfl, hget .bool (Delivers.onCursor h items).yields⟩
  | timeDate value =>
      obtain ⟨cs, h⟩ := exec_convertTimeDate value
      exact ⟨.timeDate value, rfl, hget .timeDate (Delivers.onCursor h items).yields⟩
  | list value =>
      obtain ⟨entries, hmemory⟩ := hfilled
      refine ⟨.list ⟨some entries, 0⟩, hmemory.symm, hget .list ?_⟩
      simp only [applied, hmemory, Option.getD_some, itemBytes_list]
      exact (TextList.delivers_convert (hsound entries hmemory) items).yields
  | formula memory =>
      have hpos : 0 < (env.engine.getSize memory).toNat := hsound
      have hlimit := (env.engine.getSize memory).toNat_lt
      have hlength : (applied env (.formula memory)).buffer.length =
          (env.engine.getSize memory).toNat := List.length_take_of_le hfilled
      refine ⟨.formula _, rfl, hget .formula (yields_convertFormula ?_ ?_ items)⟩
      · rw [← List.length_pos_iff, hlength]
        exact hpos
      · rw [hlength]
        omega
  | itemValue type bytes =>
      have h := yields_getItemValue hname hplain hitem
      rw [htype, hbytes] at h
      exact ⟨.itemValue type bytes, rfl, h.bind (Delivers.pure items _).yields⟩

/-! ## Setting a value -/

/-- The item stands in the place of the first one of its name, or behind all items. -/
inductive Placed (item : Item) : List Item → List Item → Prop where
  | appended (items : List Item) (h : ∀ other ∈ items, other.name ≠ item.name) :
      Placed item items (items ++ [item])
  | replaced (front : List Item) (old : Item) (back : List Item) (hold : old.name = item.name)
      (hfront : ∀ other ∈ front, other.name ≠ item.name) :
      Placed item (front ++ old :: back) (front ++ item :: back)

/-- The number of items of a name. -/
def count (key : List UInt8) (items : List Item) : Nat :=
  items.countP fun item => item.name = key

theorem placed_put (item : Item) (items : List Item) :
    Placed item items (Table.put Item.name item items) := by
  rcases Table.put_cases Item.name item items with
    ⟨hnone, hput⟩ | ⟨front, old, back, rfl, hold, hfront, hput⟩ <;> rw [hput]
  · exact .appended items hnone
  · exact .replaced front old back hold hfront

theorem Placed.count_eq {items' : List Item} (h : Placed item items items') :
    count item.name items' = max 1 (count item.name items) := by
  cases h with
  | appended _ hnone =>
      have hzero : count item.name items = 0 := by
        rw [count, List.countP_eq_zero]
        simpa using hnone
      rw [hzero, count, List.countP_append, ← count, hzero]
      simp
  | replaced front old back hold =>
      simp only [count, List.countP_append, List.countP_cons, hold, decide_true, if_true]
      omega

/-- Whatever was there before, a value that was set is the one that is got, and no other item
is changed. -/
theorem get_set {value : Value} {flags : UInt16} {n m : Nat} {items' : List Item}
    (hkey : Lmbcs.fromString env.codePage key = key) (hvalue : Sound env value)
    (hset : exec (set env key value flags) ⟨n, items⟩ = (.ok (), ⟨m, items'⟩)) :
    (∃ got, Same env value got ∧
        Yields env.native (getAs env value.kind key) items' (some got) items') ∧
      count key items' = max 1 (count key items) ∧
      ∃ item : Item, item.name = key ∧ Placed item items items' := by
  have hlength := Lmbcs.length_fromString_lt env.codePage key
  rw [hkey] at hlength
  obtain ⟨a, t, happly, hset⟩ := exec_bind_eq_ok hset
  obtain ⟨hfilled, rfl, ht⟩ := exec_apply_eq_ok hvalue happly
  have hplain := Note.take_length_mod hlength
  obtain ⟨_, hitems, _⟩ := (Note.delivers_set hkey hplain _ _ flags t.value).of_ok hset
  rw [ht] at hitems
  let stored := Note.stored key (applied env value).type (applied env value).buffer flags
  replace hitems : items' = Table.put Item.name stored items := hitems
  subst hitems
  have hitem : Table.lookup Item.name key (Table.put Item.name stored items) = some stored :=
    Table.lookup_put_self Item.name stored items
  have hplaced := placed_put stored items
  exact ⟨yields_getAs hvalue hfilled hkey hplain hitem rfl rfl, hplaced.count_eq, stored, rfl, hplaced⟩

def sampleEnv : Env where
  toEnv := TextList.sampleEnv
  engine := ⟨fun memory => UInt16.ofNat memory.length, fun other _ => other, fun memory _ => memory⟩

/-- An item `N`, with the flags of a summary item. -/
def sampleItem (type : UInt16) (value : List UInt8) : Item := ⟨[0x4E], Note.itemSummary, type, value⟩

def sampleList : Value := .list ⟨some [[0x61]], 0⟩

theorem get_set_sample :
    let before := [sampleItem typeNumber (integerBytes 8 0), sampleItem typeText [0x62]]
    let after := [sampleItem typeTextList [1, 0, 1, 0, 0x61], sampleItem typeText [0x62]]
    (∃ got, Same sampleEnv sampleList got ∧
        Yields sampleEnv.native (getAs sampleEnv sampleList.kind [0x4E]) after (some got) after) ∧
      count [0x4E] after = max 1 (count [0x4E] before) ∧
      ∃ item : Item, item.name = [0x4E] ∧ Placed item before after :=
  have hkey : Lmbcs.fromString sampleEnv.codePage [0x4E] = [0x4E] := by decide
  have hsound : Sound sampleEnv sampleList := by
    intro entries h
    cases h
    decide
  have hset : exec (set sampleEnv [0x4E] sampleList 0)
      ⟨0, [sampleItem typeNumber (integerBytes 8 0), sampleItem typeText [0x62]]⟩ =
      (.ok (), ⟨4, [sampleItem typeTextList [1, 0, 1, 0, 0x61], sampleItem typeText [0x62]]⟩) := rfl
  get_set hkey hsound hset

end Dmn.NoteValue
