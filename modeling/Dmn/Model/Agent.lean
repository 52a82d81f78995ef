import Dmn.Model.LotusScript
import Dmn.Model.NoteValue

/-! # `design::agent`

The code of an agent is stored in its action item: the header of the action, the record of the
code, and the code. -/

namespace Dmn

namespace Agent

/-! ## Records

The flags of the two records of a code are zero. -/

inductive Record where
  | actionHeader (signature length : UInt8)
  | actionLotusScript (signature length : UInt16) (dwScriptLen : UInt32)
  | actionFormula (signature length : UInt16) (wFormulaLen : UInt16)

def cdActionHeader : OdsType := .other 316

def cdActionFormula : OdsType := .other 332

def cdActionLotusScript : OdsType := .other 333

structure Env extends values : NoteValue.Env where
  ods : Ods Record
  /-- `SIG_ACTION_HEADER`. -/
  sigActionHeader : UInt8

/-- `std::to_underlying(language::formula)`, which is also the signature of the record. -/
def languageFormula : UInt16 := 65412

def languageLotusScript : UInt16 := 65413

/-- `std::to_underlying(type::action)`. -/
def typeAction : UInt16 := 16

/-- `item_flag::sign`. -/
def itemSign : UInt16 := 0x0001

def assistActionItem : List UInt8 := Lmbcs.asciiBytes "$AssistAction".toList

def assistTypeItem : List UInt8 := Lmbcs.asciiBytes "$AssistType".toList

def designFlagsItem : List UInt8 := Lmbcs.asciiBytes "$Flags".toList

/-- `flags::from_language`: a flag for V4 agents, one that hides from V3, and one for the
language. -/
def flagsFromLanguage (language : UInt16) : List UInt8 :=
  Lmbcs.asciiBytes (if language = languageLotusScript then "f3L".toList else "f3".toList)

variable (env : Env)

/-- `ods::size`. -/
def odsSize (typ : OdsType) : ℕ := (env.ods.size typ).toNat

/-- The length of the header is cast to its byte. -/
def actionHeader : Record :=
  .actionHeader env.sigActionHeader (UInt8.ofNat (odsSize env cdActionHeader))

/-! ## `set_code` -/

section Values

variable {σ : Type}

/-- Write to a locker. -/
def writeTo (lock : Cursor) (x : Cursor.M Unit) : Native.M σ Cursor :=
  Native.onCursor lock do
    x
    get

/-- `get_action_item_impl`. -/
def getActionItem (codeSize : UInt16) (typ : OdsType) : Native.M σ Cursor := do
  let lock ← env.native.allocate
    (odsSize env cdActionHeader + odsSize env typ + codeSize.toNat + 2)
  let lock ← writeTo lock (Cursor.writeInteger 2 typeAction.toNat)
  writeTo lock (Cursor.writeObject env.ods (actionHeader env) (some cdActionHeader))

/-- `note_value::apply` with a `value`, whose first two bytes are the type. -/
def applyValue (value : List UInt8) : Native.M σ NoteValue.Applied :=
  NoteValue.apply env.values
    (.itemValue (UInt16.ofNat (Cursor.littleEndian (value.take 2))) (value.drop 2))

/-- The part of `set_code` between the size of the code and the first item. The two functions differ
in the record, and in the code they write. -/
def codeValue (typ : OdsType) (record : UInt16 → Record) (getCursor : Native.M σ Cursor)
    (codeSize : UInt16) : Native.M σ NoteValue.Applied := do
  let lock ← getActionItem env codeSize typ
  let length ← checkedCast (odsSize env typ + codeSize.toNat)
  let lock ← writeTo lock (Cursor.writeObject env.ods (record length) (some typ))
  let cursor ← getCursor
  let lock ← writeTo lock (Cursor.write cursor.buffer)
  applyValue env lock.buffer

def lotusScriptValue (code : LotusScript) : Native.M σ NoteValue.Applied := do
  let codeSize ← checkedCast code.size
  codeValue env cdActionLotusScript
    (fun length => .actionLotusScript languageLotusScript length codeSize.toUInt32)
    (code.getCursor env.native) codeSize

/-- The formula is known by its memory. -/
def formulaValue (memory : List UInt8) : Native.M σ NoteValue.Applied := do
  let size ← Native.onObject memory (Formula.sizeEven env.native env.engine)
  let codeSize ← checkedCast size
  codeValue env cdActionFormula (fun length => .actionFormula languageFormula length codeSize)
    (Native.onObject memory (Formula.getCursor env.native env.engine)) codeSize

end Values

/-- The items of `set_code`. -/
def setCodeItems (language : UInt16) (applied : NoteValue.Applied) : Note.M Unit := do
  Note.set env.codePage env.native assistActionItem applied.type applied.buffer itemSign
  NoteValue.setInteger env.values assistTypeItem language.toNat itemSign
  NoteValue.set env.values designFlagsItem (.string (flagsFromLanguage language)) 0

/-- `set_code(lotusscript)`, where the note is open. -/
def setLotusScript (code : LotusScript) : Note.M Unit := do
  let applied ← lotusScriptValue env code
  setCodeItems env languageLotusScript applied

/-- `set_code(formula)`, where the note is open. -/
def setFormula (memory : List UInt8) : Note.M Unit := do
  let applied ← formulaValue env memory
  setCodeItems env languageFormula applied

end Agent

end Dmn
