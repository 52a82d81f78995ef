import Dmn.Library.Binary64
import Dmn.Model.Formula
import Dmn.Model.Note
import Dmn.Model.TextList

/-! # Values of items

`note::set` takes a value apart into a type and its bytes. `note::get` sees the bytes of an item
behind their type word, and puts a value together. -/

namespace Dmn

def typeNumber : UInt16 := 0x0300

def typeTime : UInt16 := 0x0400

def typeFormula : UInt16 := 0x0600

/-- `time_date`, by its two `innards`. -/
structure TimeDate where
  first : UInt32
  second : UInt32
  deriving DecidableEq, Repr

def TimeDate.bytes (value : TimeDate) : List UInt8 :=
  Cursor.integerBytes 4 value.first.toNat ++ Cursor.integerBytes 4 value.second.toNat

namespace NoteValue

structure Env extends TextList.Env where
  engine : Formula.Engine

/-- What the setter is called with. -/
structure Applied where
  type : UInt16
  buffer : List UInt8
  deriving DecidableEq, Repr

/-- The values that can be set. A `double` is the word of its bytes, a formula its memory, and
an item value has a type and bytes. -/
inductive Value where
  | string (value : List UInt8)
  | double (value : UInt64)
  | bool (value : Bool)
  | timeDate (value : TimeDate)
  | list (value : TextList)
  | formula (memory : List UInt8)
  | itemValue (type : UInt16) (bytes : List UInt8)

/-- The types of values. -/
inductive Kind where
  | string
  | double
  | bool
  | timeDate
  | list
  | formula
  | itemValue
  deriving DecidableEq, Repr

def Value.kind : Value → Kind
  | .string _ => .string
  | .double _ => .double
  | .bool _ => .bool
  | .timeDate _ => .timeDate
  | .list _ => .list
  | .formula _ => .formula
  | .itemValue _ _ => .itemValue

/-- `static_cast<double>`. -/
def doubleOfBool (value : Bool) : UInt64 := if value then 0x3FF0000000000000 else 0

/-- `static_cast<bool>`; there are two zeros. -/
def boolOfDouble (value : UInt64) : Bool := value &&& 0x7FFFFFFFFFFFFFFF ≠ 0

/-- The integer types, with `bool`. -/
inductive IntegerType where
  | bool
  | signed (width : Nat)
  | unsigned (width : Nat)
  deriving DecidableEq, Repr

namespace IntegerType

def width : IntegerType → Nat
  | bool => 8
  | signed width => width
  | unsigned width => width

def Holds : IntegerType → Int → Prop
  | bool, value => value = 0 ∨ value = 1
  | signed width, value => -2 ^ (width - 1) ≤ value ∧ value < 2 ^ (width - 1)
  | unsigned width, value => 0 ≤ value ∧ value < 2 ^ width

instance (type : IntegerType) (value : Int) : Decidable (type.Holds value) := by
  cases type <;> unfold Holds <;> infer_instance

/-- `static_cast` from a `double`, which has no defined result for a number out of the range of
the type. -/
def ofDouble (type : IntegerType) (value : UInt64) : Option Int :=
  match type with
  | bool => some (if boolOfDouble value then 1 else 0)
  | type => (Binary64.truncate value).filter fun value => type.Holds value

end IntegerType

variable (env : Env) {σ α : Type}

/-- The constructor of a borrowing `locker` on a value. -/
def lock (value : List UInt8) : Native.M σ Cursor := do
  let result ← Native.call env.native
  if result.isError then throw (.throws (.invalidHandle "Memory pointed to by handle is empty"))
  else pure (Cursor.make (some value))

/-- The bytes of an item value, as a cursor sees them. -/
def itemBytes (type : UInt16) (bytes : List UInt8) : List UInt8 :=
  Cursor.integerBytes 2 type.toNat ++ bytes

/-! ## `note_value` -/

def applyString (value : List UInt8) : Applied :=
  ⟨typeText, Lmbcs.fromString env.codePage value⟩

def applyDouble (value : UInt64) : Applied := ⟨typeNumber, Cursor.integerBytes 8 value.toNat⟩

def applyBool (value : Bool) : Applied := applyDouble (doubleOfBool value)

/-- For the integer types; `static_cast<double>` rounds to the nearest, to even. -/
def applyInteger (value : Int) : Applied := applyDouble (Binary64.ofInt value)

def applyTimeDate (value : TimeDate) : Applied := ⟨typeTime, value.bytes⟩

/-- A cursor without a type word makes the size of the span wrap around. -/
def applyList (value : TextList) : Native.M σ Applied := do
  let cursor ← Native.onObject value (TextList.getCursor env.toEnv)
  if cursor.buffer.length < 2 then throw .undefined
  else pure ⟨typeTextList, cursor.buffer.drop 2⟩

def applyFormula (memory : List UInt8) : Native.M σ Applied := do
  let cursor ← Native.onObject memory (Formula.getCursor env.native env.engine)
  pure ⟨typeFormula, cursor.buffer⟩

/-- For a `value_impl`. -/
def applyItemValue (type : UInt16) (bytes : List UInt8) : Native.M σ Applied := do
  let cursor ← lock env (itemBytes type bytes)
  Native.onCursor cursor do
    let typ ← Cursor.readInteger 2
    let span ← Cursor.load (cursor.buffer.length - 2)
    pure ⟨UInt16.ofNat typ, span⟩

def apply : Value → Native.M σ Applied
  | .string value => pure (applyString env value)
  | .double value => pure (applyDouble value)
  | .bool value => pure (applyBool value)
  | .timeDate value => pure (applyTimeDate value)
  | .list value => applyList env value
  | .formula memory => applyFormula env memory
  | .itemValue type bytes => applyItemValue env type bytes

/-- `note::set`. -/
def set (key : List UInt8) (value : Value) (flags : UInt16) : Note.M Unit := do
  let applied ← apply env value
  Note.set env.codePage env.native key applied.type applied.buffer flags

def setInteger (key : List UInt8) (value : Int) (flags : UInt16) : Note.M Unit :=
  let applied := applyInteger value
  Note.set env.codePage env.native key applied.type applied.buffer flags

/-! ## `object_value` -/

def hasType (type : UInt16) : Cursor.M Bool := do
  let typ ← Cursor.readInteger 2
  pure (typ = type.toNat)

/-- The type and the size of the data are those of a number or a time. -/
def hasTypeAndSize (type : UInt16) (size : Nat) : Cursor.M Bool := do
  let cs ← get
  if cs.buffer.length = size + 2 then hasType type else pure false

def isString : Cursor.M Bool := hasType typeText

def isDouble : Cursor.M Bool := hasTypeAndSize typeNumber 8

def isTimeDate : Cursor.M Bool := hasTypeAndSize typeTime 8

def isFormula : Cursor.M Bool := hasType typeFormula

def convertString : Cursor.M (Option (List UInt8)) := do
  if ← isString then do
    let cs ← get
    let text ← Cursor.load (cs.buffer.length - 2)
    pure (some (Lmbcs.toString env.codePage text))
  else pure none

def convertDouble : Cursor.M (Option UInt64) := do
  if ← isDouble then do
    let value ← Cursor.readInteger 8
    pure (some (UInt64.ofNat value))
  else pure none

def convertBool : Cursor.M (Option Bool) := do
  let value ← convertDouble
  pure (value.map boolOfDouble)

def convertInteger (type : IntegerType) : Cursor.M (Option Int) := do
  match ← convertDouble with
  | none => pure none
  | some value =>
      match type.ofDouble value with
      | none => throw .undefined
      | some value => pure (some value)

def convertTimeDate : Cursor.M (Option TimeDate) := do
  if ← isTimeDate then do
    let value ← Cursor.read 8
    pure (some ⟨UInt32.ofNat (Cursor.littleEndian (value.take 4)),
      UInt32.ofNat (Cursor.littleEndian (value.drop 4))⟩)
  else pure none

/-- The bytes of a formula behind the type word, if it is one. -/
def formulaSpan : Cursor.M (Option (List UInt8)) := do
  if ← isFormula then do
    let cs ← get
    let span ← Cursor.load (cs.buffer.length - 2)
    pure (some span)
  else pure none

/-- The new formula has memory of its own. -/
def convertFormula (cs : Cursor) : Native.M σ (Option (List UInt8)) := do
  match ← Native.onCursor cs formulaSpan with
  | none => pure none
  | some span => do
      let memory ← env.native.allocateCopy span
      pure (some memory.buffer)

/-! ## `note::get` -/

/-- `try_as`. -/
def tryAs (type : UInt16) (bytes : List UInt8) (convert : Cursor → Native.M σ (Option α)) :
    Native.M σ (Option α) :=
  if (itemBytes type bytes).length < 2 then pure none
  else tryCatch (do
    let cs ← lock env (itemBytes type bytes)
    convert cs) fun stop => match stop with
      | .throws _ => pure none
      | .undefined => throw .undefined

def get (convert : Cursor → Note.M (Option α)) (key : List UInt8) : Note.M (Option α) := do
  let present ← Note.has env.codePage key
  if present then do
    let item ← Note.itemInfo env.native key
    tryAs env item.type item.value convert
  else pure none

def getItemValue (key : List UInt8) : Note.M (Option (UInt16 × List UInt8)) := do
  let present ← Note.has env.codePage key
  if present then do
    let item ← Note.itemInfo env.native key
    pure (some (item.type, item.value))
  else pure none

def getInteger (type : IntegerType) (key : List UInt8) : Note.M (Option Int) :=
  get env (fun cs => Native.onCursor cs (convertInteger type)) key

/-- `get` of one of these types. -/
def getAs : Kind → List UInt8 → Note.M (Option Value)
  | .string, key => do
      let value ← get env (fun cs => Native.onCursor cs (convertString env)) key
      pure (value.map .string)
  | .double, key => do
      let value ← get env (fun cs => Native.onCursor cs convertDouble) key
      pure (value.map .double)
  | .bool, key => do
      let value ← get env (fun cs => Native.onCursor cs convertBool) key
      pure (value.map .bool)
  | .timeDate, key => do
      let value ← get env (fun cs => Native.onCursor cs convertTimeDate) key
      pure (value.map .timeDate)
  | .list, key => do
      let value ← get env (fun cs => TextList.convert env.toEnv cs.buffer) key
      pure (value.map .list)
  | .formula, key => do
      let value ← get env (convertFormula env) key
      pure (value.map .formula)
  | .itemValue, key => do
      let value ← getItemValue env key
      pure (value.map fun value => .itemValue value.1 value.2)

end NoteValue

end Dmn
