import Mathlib.Data.Bool.AllAny
import Dmn.Model.Agent
import Dmn.Verification.Cursor.Correctness
import Dmn.Verification.Formula.ItemName
import Dmn.Verification.NoteIntegers

/-! # The code of an agent

The memory of an action item has room for a code of even size. A compiled formula of odd size
leaves its last byte unwritten, and the record counts it. -/

namespace Dmn.Agent

open Exec Native Cursor

/-! ## Stored codes -/

/-- The length of a record with what follows it, by its header. -/
def Record.length : Record → ℕ
  | .actionHeader _ length => length.toNat
  | .actionLotusScript _ length _ => length.toNat
  | .actionFormula _ length _ => length.toNat

/-- The number of code bytes that a record announces. -/
def Record.codeLength : Record → ℕ
  | .actionHeader _ _ => 0
  | .actionLotusScript _ _ dwScriptLen => dwScriptLen.toNat
  | .actionFormula _ _ wFormulaLen => wFormulaLen.toNat

variable (env : Env)

/-- The bytes behind the records of an action item. -/
def behindRecords (typ : OdsType) (value : List UInt8) : List UInt8 :=
  value.drop (odsSize env cdActionHeader + odsSize env typ)

/-- An action item is made of the header, a record and the code, all of them written. The record
covers itself and the code, and announces as many bytes as the code has. -/
structure Describes (typ : OdsType) (record : Record) (code value : List UInt8) : Prop where
  written : value = env.ods.write cdActionHeader (actionHeader env) ++
    (env.ods.write typ record ++ code)
  covered : record.length = odsSize env typ + code.length
  announced : (behindRecords env typ value).take record.codeLength = code

variable {env}

theorem odsSize_lt (typ : OdsType) : odsSize env typ < 2 ^ 16 := (env.ods.size typ).toNat_lt

@[simp] theorem length_write (typ : OdsType) (record : Record) :
    (env.ods.write typ record).length = odsSize env typ := env.ods.length_write typ record

theorem behindRecords_append (typ : OdsType) (record : Record) (bytes : List UInt8) :
    behindRecords env typ (env.ods.write cdActionHeader (actionHeader env) ++
      (env.ods.write typ record ++ bytes)) = bytes := by
  rw [behindRecords, ← List.append_assoc, List.drop_left']
  simp

/-! ## Filling the memory -/

section Values

variable {σ : Type} {s t : Called σ} {lock : Cursor}

theorem exec_writeTo_eq_ok {written rest bytes : List UInt8}
    (hsize : written.length + rest.length < 2 ^ 32)
    (h : exec (writeTo (filled written rest) (write bytes)) s = (.ok lock, t)) :
    bytes.length ≤ rest.length ∧ lock = filled (written ++ bytes) (rest.drop bytes.length) := by
  obtain ⟨⟨c, hwrite⟩, -⟩ := exec_onCursor_eq_ok h
  obtain ⟨_, c', hbytes, hget⟩ := exec_bind_eq_ok hwrite
  obtain ⟨hfit, hfilled⟩ := exec_write_filled_eq_ok hsize hbytes
  cases hget
  exact ⟨hfit, hfilled⟩

/-- The memory of an action item, filled up to the record of the code. -/
theorem exec_getActionItem_eq_ok {codeSize : UInt16} {typ : OdsType}
    (h : exec (getActionItem env codeSize typ) s = (.ok lock, t)) :
    ∃ rest : List UInt8, rest.length = odsSize env typ + codeSize.toNat ∧
      lock = filled (integerBytes 2 typeAction.toNat ++
        env.ods.write cdActionHeader (actionHeader env)) rest := by
  obtain ⟨c, s₁, hallocate, h⟩ := exec_bind_eq_ok h
  obtain ⟨-, hlimit, hoffset, hlength⟩ := exec_allocate_eq_ok hallocate
  have hc : c = filled [] c.buffer := by
    cases c
    cases hoffset
    rfl
  rw [hc] at h
  obtain ⟨c₁, s₂, htype, h⟩ := exec_bind_eq_ok h
  obtain ⟨-, rfl⟩ := exec_writeTo_eq_ok (by simpa [hlength] using hlimit) htype
  rw [writeObject_some] at h
  have hrest : (integerBytes 2 typeAction.toNat).length + (c.buffer.drop 2).length < 2 ^ 32 := by
    simp
    omega
  obtain ⟨-, rfl⟩ := exec_writeTo_eq_ok (by simpa using hrest) h
  refine ⟨(c.buffer.drop 2).drop (odsSize env cdActionHeader), ?_, ?_⟩
  · simp [hlength]
    omega
  · rw [List.nil_append, length_integerBytes, length_write]

theorem exec_checkedCast_eq_ok {n : ℕ} {size : UInt16}
    (h : exec (checkedCast n : Native.M σ UInt16) s = (.ok size, t)) :
    n < 2 ^ 16 ∧ size = UInt16.ofNat n := by
  unfold checkedCast at h
  split at h
  · next hn =>
    cases h
    exact ⟨hn, rfl⟩
  · cases h

theorem exec_applyValue_eq_ok {type : UInt16} {bytes : List UInt8} {applied : NoteValue.Applied}
    (h : exec (applyValue env (NoteValue.itemBytes type bytes)) s = (.ok applied, t)) :
    applied = ⟨type, bytes⟩ := by
  rw [applyValue, NoteValue.littleEndian_itemBytes, NoteValue.drop_itemBytes,
    UInt16.ofNat_toNat] at h
  exact (NoteValue.exec_applyItemValue_eq_ok h).1

/-- What the first item is put with. Behind the code, it has the bytes of the memory as it was. -/
theorem exec_codeValue_eq_ok {typ : OdsType} {record : UInt16 → Record} {codeSize : UInt16}
    {getCursor : Native.M σ Cursor} {applied : NoteValue.Applied}
    (h : exec (codeValue env typ record getCursor codeSize) s = (.ok applied, t)) :
    odsSize env typ + codeSize.toNat < 2 ^ 16 ∧
    ∃ u v cursor, exec getCursor u = (.ok cursor, v) ∧
    ∃ spare : List UInt8, cursor.buffer.length + spare.length = codeSize.toNat ∧
      applied = ⟨typeAction, env.ods.write cdActionHeader (actionHeader env) ++
        (env.ods.write typ (record (UInt16.ofNat (odsSize env typ + codeSize.toNat))) ++
          (cursor.buffer ++ spare))⟩ := by
  obtain ⟨lock, s₁, hlock, h⟩ := exec_bind_eq_ok h
  obtain ⟨rest, hrest, rfl⟩ := exec_getActionItem_eq_ok hlock
  obtain ⟨length, s₂, hlength, h⟩ := exec_bind_eq_ok h
  obtain ⟨hfits, rfl⟩ := exec_checkedCast_eq_ok hlength
  obtain ⟨lock, s₃, hrecord, h⟩ := exec_bind_eq_ok h
  have hheader : odsSize env cdActionHeader < 2 ^ 16 := odsSize_lt cdActionHeader
  rw [writeObject_some] at hrecord
  obtain ⟨-, rfl⟩ := exec_writeTo_eq_ok (by simp; omega) hrecord
  obtain ⟨cursor, s₄, hget, h⟩ := exec_bind_eq_ok h
  obtain ⟨lock, s₅, hcode, h⟩ := exec_bind_eq_ok h
  obtain ⟨hfit, rfl⟩ := exec_writeTo_eq_ok (by simp; omega) hcode
  simp only [length_write, List.length_drop] at hfit
  refine ⟨hfits, _, _, cursor, hget, (rest.drop (odsSize env typ)).drop cursor.buffer.length, ?_, ?_⟩
  · simp only [List.length_drop]
    omega
  · simp only [filled, length_write, List.append_assoc] at h
    exact exec_applyValue_eq_ok h

theorem exec_lotusScript_getCursor_eq_ok {code : LotusScript} {cursor : Cursor}
    (h : exec (code.getCursor env.native : Native.M σ Cursor) s = (.ok cursor, t)) :
    cursor.buffer = code.text := by
  obtain ⟨result, u, hcall, h⟩ := exec_bind_eq_ok h
  split at h
  · cases h
  · cases h
    rfl

theorem exec_formulaSizeEven_eq_ok {memory : List UInt8} {n : ℕ}
    (h : exec (Native.onObject memory (Formula.sizeEven env.native env.engine)) s = (.ok n, t)) :
    n = (env.engine.getSize memory).toNat + (env.engine.getSize memory).toNat % 2 := by
  obtain ⟨u, heven, -⟩ := exec_onObject_eq_ok h
  obtain ⟨size, v, hsize, heven⟩ := exec_bind_eq_ok heven
  cases heven
  rw [Formula.exec_size_eq_ok hsize]

theorem exec_formulaCursor_eq_ok {memory : List UInt8} {cursor : Cursor}
    (h : exec (Native.onObject memory (Formula.getCursor env.native env.engine)) s =
      (.ok cursor, t)) :
    cursor.buffer = memory.take (env.engine.getSize memory).toNat ∧
      cursor.buffer.length = (env.engine.getSize memory).toNat := by
  obtain ⟨u, hcursor, -⟩ := exec_onObject_eq_ok h
  obtain ⟨hfit, rfl⟩ := Formula.exec_getCursor_eq_ok hcursor
  exact ⟨rfl, List.length_take_of_le hfit⟩

/-- A script is stored as a whole. -/
theorem exec_lotusScriptValue_eq_ok {code : LotusScript} {applied : NoteValue.Applied}
    (h : exec (lotusScriptValue env code) s = (.ok applied, t)) :
    code.size < 2 ^ 16 ∧ odsSize env cdActionLotusScript + code.size < 2 ^ 16 ∧
      applied = ⟨typeAction, env.ods.write cdActionHeader (actionHeader env) ++
        (env.ods.write cdActionLotusScript (.actionLotusScript languageLotusScript
          (UInt16.ofNat (odsSize env cdActionLotusScript + code.size))
          (UInt16.ofNat code.size).toUInt32) ++ (code.text ++ []))⟩ := by
  obtain ⟨codeSize, s₁, hsize, h⟩ := exec_bind_eq_ok h
  obtain ⟨hfits, rfl⟩ := exec_checkedCast_eq_ok hsize
  have hsize : (UInt16.ofNat code.size).toNat = code.size := UInt16.toNat_ofNat_of_lt' hfits
  have htext : code.text.length = code.size := List.length_take_of_le code.size_le
  obtain ⟨hlength, u, v, cursor, hcursor, spare, hspare, rfl⟩ := exec_codeValue_eq_ok h
  rw [exec_lotusScript_getCursor_eq_ok hcursor, hsize] at hspare ⊢
  rw [hsize] at hlength
  obtain rfl : spare = [] := List.length_eq_zero_iff.mp (by omega)
  exact ⟨hfits, hlength, rfl⟩

/-- The size of a compiled formula, and the next even number. -/
def formulaSize (env : Env) (memory : List UInt8) : ℕ :=
  (env.engine.getSize memory).toNat + (env.engine.getSize memory).toNat % 2

theorem exec_formulaValue_eq_ok {memory : List UInt8} {applied : NoteValue.Applied}
    (h : exec (formulaValue env memory) s = (.ok applied, t)) :
    formulaSize env memory < 2 ^ 16 ∧
    odsSize env cdActionFormula + formulaSize env memory < 2 ^ 16 ∧
    (memory.take (env.engine.getSize memory).toNat).length = (env.engine.getSize memory).toNat ∧
    ∃ spare : List UInt8,
      (env.engine.getSize memory).toNat + spare.length = formulaSize env memory ∧
      applied = ⟨typeAction, env.ods.write cdActionHeader (actionHeader env) ++
        (env.ods.write cdActionFormula (.actionFormula languageFormula
          (UInt16.ofNat (odsSize env cdActionFormula + formulaSize env memory))
          (UInt16.ofNat (formulaSize env memory))) ++
            (memory.take (env.engine.getSize memory).toNat ++ spare))⟩ := by
  obtain ⟨n, s₁, hn, h⟩ := exec_bind_eq_ok h
  obtain rfl := exec_formulaSizeEven_eq_ok hn
  obtain ⟨codeSize, s₂, hcast, h⟩ := exec_bind_eq_ok h
  obtain ⟨hfits, rfl⟩ := exec_checkedCast_eq_ok hcast
  have hsize : (UInt16.ofNat (formulaSize env memory)).toNat = formulaSize env memory :=
    UInt16.toNat_ofNat_of_lt' hfits
  obtain ⟨hlength, u, v, cursor, hcursor, spare, hspare, rfl⟩ := exec_codeValue_eq_ok h
  obtain ⟨hbuffer, hcode⟩ := exec_formulaCursor_eq_ok hcursor
  rw [← formulaSize, hsize] at hlength hspare ⊢
  rw [hcode] at hspare
  rw [hbuffer] at hcode ⊢
  exact ⟨hfits, hlength, hcode, spare, hspare, rfl⟩

end Values

variable {s t : Called (List Item)}

/-! ## Setting the items -/

theorem exec_setItem_eq_ok (hascii : Lmbcs.KeepsAscii env.codePage) {text : List Char}
    (htext : ∀ c ∈ text, Lmbcs.Printable c) (hlength : text.length < 2 ^ 15) {type : UInt16}
    {buffer : List UInt8} {flags : UInt16}
    (h : exec (Note.set env.codePage env.native (Lmbcs.asciiBytes text) type buffer flags) s =
      (.ok (), t)) :
    t.value = Table.put Item.name (Note.stored (Lmbcs.asciiBytes text) type buffer flags)
      s.value := by
  have hbytes : (Lmbcs.asciiBytes text).length < 2 ^ 16 := by
    rw [Lmbcs.asciiBytes, List.length_map]
    omega
  exact ((Note.delivers_set (hascii.fromString_asciiBytes htext hlength)
    (Note.take_length_mod hbytes) type buffer flags s.value).of_ok h).2.1

/-- The item that `set_code` leaves, of the type and with the bytes of a value. -/
def actionItem (type : UInt16) (bytes : List UInt8) : Item :=
  Note.stored assistActionItem type bytes itemSign

/-- The other items do not touch the action item. -/
theorem exec_setOther_eq_ok (hascii : Lmbcs.KeepsAscii env.codePage) {language : UInt16}
    (h : exec (do
      NoteValue.setInteger env.values assistTypeItem language.toNat itemSign
      NoteValue.set env.values designFlagsItem (.string (flagsFromLanguage language)) 0) s =
        (.ok (), t)) :
    Table.lookup Item.name assistActionItem t.value =
      Table.lookup Item.name assistActionItem s.value := by
  obtain ⟨_, u, htype, h⟩ := exec_bind_eq_ok h
  obtain ⟨applied, v, happly, h⟩ := exec_bind_eq_ok h
  cases happly
  have htypeItem : Lmbcs.asciiBytes "$AssistType".toList ≠ assistActionItem := by decide
  have hflagsItem : Lmbcs.asciiBytes "$Flags".toList ≠ assistActionItem := by decide
  rw [exec_setItem_eq_ok hascii (List.all_iff_forall_prop.mp (by decide)) (by decide) h,
    Table.lookup_put_of_ne Item.name _ hflagsItem,
    exec_setItem_eq_ok hascii (List.all_iff_forall_prop.mp (by decide)) (by decide) htype,
    Table.lookup_put_of_ne Item.name _ htypeItem]

theorem exec_setCodeItems_eq_ok (hascii : Lmbcs.KeepsAscii env.codePage) {language : UInt16}
    {applied : NoteValue.Applied} (h : exec (setCodeItems env language applied) s = (.ok (), t)) :
    Table.lookup Item.name assistActionItem t.value =
      some (actionItem applied.type applied.buffer) := by
  obtain ⟨_, u, hvalue, hothers⟩ := exec_bind_eq_ok h
  rw [exec_setOther_eq_ok hascii hothers,
    exec_setItem_eq_ok hascii (List.all_iff_forall_prop.mp (by decide)) (by decide) hvalue]
  exact Table.lookup_put_self Item.name (actionItem applied.type applied.buffer) s.value

/-! ## `set_code` -/

/-- Whether the stored bytes describe the code depends on the bytes left over. -/
theorem exists_describes_iff {typ : OdsType} {record : Record} {code spare value : List UInt8}
    (hvalue : value = env.ods.write cdActionHeader (actionHeader env) ++
      (env.ods.write typ record ++ (code ++ spare)))
    (hlength : record.length = odsSize env typ + (code.length + spare.length))
    (hcode : record.codeLength = code.length + spare.length) :
    (∃ record, Describes env typ record code value) ↔ spare = [] := by
  constructor
  · rintro ⟨record', hdescribes⟩
    have hwritten := congrArg List.length (hvalue.symm.trans hdescribes.written)
    simp only [List.length_append, length_write] at hwritten
    exact List.length_eq_zero_iff.mp (by omega)
  · rintro rfl
    rw [List.append_nil] at hvalue
    rw [List.length_nil, Nat.add_zero] at hlength hcode
    refine ⟨record, hvalue, hlength, ?_⟩
    rw [hvalue, behindRecords_append, hcode, List.take_length]

/-- The action item that `set_code` leaves describes the code. -/
def Stores (env : Env) (typ : OdsType) (code : List UInt8) (items : List Item) : Prop :=
  ∃ record value, Table.lookup Item.name assistActionItem items =
    some (actionItem typeAction value) ∧ Describes env typ record code value

theorem stores_iff {typ : OdsType} {code value : List UInt8} {items : List Item}
    (hitem : Table.lookup Item.name assistActionItem items =
      some (actionItem typeAction value)) :
    Stores env typ code items ↔ ∃ record, Describes env typ record code value := by
  constructor
  · rintro ⟨record, value', hlookup, hdescribes⟩
    rw [hitem] at hlookup
    have hvalue := congrArg Item.value (Option.some.inj hlookup)
    obtain rfl : value = value' := hvalue
    exact ⟨record, hdescribes⟩
  · rintro ⟨record, hdescribes⟩
    exact ⟨record, value, hitem, hdescribes⟩

theorem stores_of_setLotusScript (hascii : Lmbcs.KeepsAscii env.codePage) {code : LotusScript}
    (h : exec (setLotusScript env code) s = (.ok (), t)) :
    Stores env cdActionLotusScript code.text t.value := by
  obtain ⟨applied, u, hvalue, h⟩ := exec_bind_eq_ok h
  obtain ⟨hfits, hlength, rfl⟩ := exec_lotusScriptValue_eq_ok hvalue
  have htext : code.text.length = code.size := List.length_take_of_le code.size_le
  rw [stores_iff (exec_setCodeItems_eq_ok hascii h), exists_describes_iff rfl]
  · rw [Record.length, UInt16.toNat_ofNat_of_lt' hlength, List.length_nil, htext, Nat.add_zero]
  · rw [Record.codeLength, UInt16.toNat_toUInt32, UInt16.toNat_ofNat_of_lt' hfits, List.length_nil,
      htext, Nat.add_zero]

theorem stores_setFormula_iff (hascii : Lmbcs.KeepsAscii env.codePage) {memory : List UInt8}
    (h : exec (setFormula env memory) s = (.ok (), t)) :
    Stores env cdActionFormula (memory.take (env.engine.getSize memory).toNat) t.value ↔
      (env.engine.getSize memory).toNat % 2 = 0 := by
  obtain ⟨applied, u, hvalue, h⟩ := exec_bind_eq_ok h
  obtain ⟨hfits, hlength, hcode, spare, hspare, rfl⟩ := exec_formulaValue_eq_ok hvalue
  rw [stores_iff (exec_setCodeItems_eq_ok hascii h), exists_describes_iff rfl]
  · rw [← List.length_eq_zero_iff]
    unfold formulaSize at hspare
    omega
  · rw [Record.length, UInt16.toNat_ofNat_of_lt' hlength, hcode, hspare]
  · rw [Record.codeLength, UInt16.toNat_ofNat_of_lt' hfits, hcode, hspare]

/-! ## Both codes -/

inductive Code where
  | lotusScript (code : LotusScript)
  | formula (memory : List UInt8)

namespace Code

def set (env : Env) : Code → Note.M Unit
  | lotusScript code => setLotusScript env code
  | formula memory => setFormula env memory

def typ : Code → OdsType
  | lotusScript _ => cdActionLotusScript
  | formula _ => cdActionFormula

def bytes (env : Env) : Code → List UInt8
  | lotusScript code => code.text
  | formula memory => memory.take (env.engine.getSize memory).toNat

/-- The rounding to an even size leaves the size as it is. -/
def Even (env : Env) : Code → Prop
  | lotusScript _ => True
  | formula memory => (env.engine.getSize memory).toNat % 2 = 0

end Code

theorem setCode_stores_iff (hascii : Lmbcs.KeepsAscii env.codePage) (code : Code)
    {s t : Called (List Item)} (h : exec (code.set env) s = (.ok (), t)) :
    Stores env code.typ (code.bytes env) t.value ↔ code.Even env := by
  cases code with
  | lotusScript code => exact iff_of_true (stores_of_setLotusScript hascii h) trivial
  | formula memory => exact stores_setFormula_iff hascii h

/-! ## A formula of seven bytes -/

def packedSize (typ : OdsType) : UInt16 :=
  if typ = cdActionHeader then 2 else if typ = cdActionFormula then 10 else 12

def packed : Record → List UInt8
  | .actionHeader signature length => [signature, length]
  | .actionLotusScript signature length dwScriptLen =>
      integerBytes 2 signature.toNat ++ integerBytes 2 length.toNat ++ integerBytes 4 0 ++
        integerBytes 4 dwScriptLen.toNat
  | .actionFormula signature length wFormulaLen =>
      integerBytes 2 signature.toNat ++ integerBytes 2 length.toNat ++ integerBytes 4 0 ++
        integerBytes 2 wFormulaLen.toNat

def packedOds : Ods Record where
  bytes := packed
  ofBytes bytes := .actionHeader (bytes.getD 0 0) (bytes.getD 1 0)
  size := packedSize
  write typ record :=
    (packed record ++ List.replicate (packedSize typ).toNat 0).take (packedSize typ).toNat
  read _ bytes := .actionHeader (bytes.getD 0 0) (bytes.getD 1 0)
  length_write _ _ := List.length_take_of_le (by simp)

/-- The memory of a new item is not zero. -/
def dirtyEnv : Env where
  values := {
    native := ⟨fun _ => .noError, fun _ _ => 0xFF⟩
    codePage := utf8
    listFull := .other 1
    isError_listFull := by decide
    engine := NoteValue.sampleEnv.engine }
  ods := packedOds
  sigActionHeader := 129

def evenFormula : List UInt8 := [6, 0, 0, 0, 0, 0]

def oddFormula : List UInt8 := [7, 0, 0, 0, 0, 0, 0x87]

theorem setCode_evenFormula :
    Stores dirtyEnv cdActionFormula evenFormula
        (exec (setFormula dirtyEnv evenFormula) ⟨0, []⟩).2.value ↔
      (Code.formula evenFormula).Even dirtyEnv :=
  setCode_stores_iff Lmbcs.keepsAscii_utf8 (.formula evenFormula) (Prod.ext rfl rfl)

/-- The byte behind the seven of the code is stored as it was. -/
theorem not_stores_oddFormula : ¬ ∀ (env : Env) (code : Code) (s t : Called (List Item)),
    Lmbcs.KeepsAscii env.codePage → exec (code.set env) s = (.ok (), t) →
      Stores env code.typ (code.bytes env) t.value := by
  intro h
  have hset : exec (setFormula dirtyEnv oddFormula) ⟨0, []⟩ =
      (.ok (), (exec (setFormula dirtyEnv oddFormula) ⟨0, []⟩).2) := Prod.ext rfl rfl
  have hstores := h dirtyEnv (.formula oddFormula) ⟨0, []⟩ _ Lmbcs.keepsAscii_utf8 hset
  have heven := (stores_setFormula_iff Lmbcs.keepsAscii_utf8 hset).mp hstores
  revert heven
  decide

end Dmn.Agent
