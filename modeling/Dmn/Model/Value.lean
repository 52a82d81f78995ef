import Dmn.Model.NoteValue
import Dmn.Model.View

/-! # `value_impl`

A value of an item or in memory is the content that its cursor sees, whatever its size. -/

namespace Dmn.ValueImpl

open NoteValue (Env IntegerType)

/-- The types with a conversion of their own, and the arithmetic ones. A conversion to another
floating-point type is defined for all numbers. -/
inductive ValueType where
  | string
  | double
  | integer (type : IntegerType)
  | floating (cast : UInt64 → Nat)
  | timeDate
  | formula

namespace ValueType

def Result : ValueType → Type
  | string => List UInt8
  | double => UInt64
  | integer _ => Int
  | floating _ => Nat
  | timeDate => TimeDate
  | formula => List UInt8

/-- `object_value<T>::is`. -/
def is : ValueType → Cursor.M Bool
  | string => NoteValue.isString
  | double => NoteValue.isDouble
  | integer _ => NoteValue.isDouble
  | floating _ => NoteValue.isDouble
  | timeDate => NoteValue.isTimeDate
  | formula => NoteValue.isFormula

end ValueType

variable (env : Env) {σ : Type}

def convertFloating (cast : UInt64 → Nat) : Cursor.M (Option Nat) := do
  let value ← NoteValue.convertDouble
  pure (value.map cast)

/-- `object_value<T>::convert`. -/
def convert (cs : Cursor) : (type : ValueType) → Native.M σ (Option type.Result)
  | .string => Native.onCursor cs (NoteValue.convertString env)
  | .double => Native.onCursor cs NoteValue.convertDouble
  | .integer type => Native.onCursor cs (NoteValue.convertInteger type)
  | .floating cast => Native.onCursor cs (convertFloating cast)
  | .timeDate => Native.onCursor cs NoteValue.convertTimeDate
  | .formula => NoteValue.convertFormula env cs

def is (content : List UInt8) (type : ValueType) : Native.M σ Bool :=
  if content.length < 2 then pure false
  else do
    let cs ← NoteValue.lock env content
    Native.onCursor cs type.is

def tryAs (content : List UInt8) (type : ValueType) : Native.M σ (Option type.Result) :=
  if content.length < 2 then pure none
  else tryCatch (do
    let cs ← NoteValue.lock env content
    convert env cs type) fun stop => match stop with
      | .throws _ => pure none
      | .undefined => throw .undefined

/-! ## `as_string` -/

/-- `std::to_chars` and `ConvertTIMEDATEtoRFC3339Date`, which may fail. -/
structure Formats where
  number : UInt64 → Option (List UInt8)
  time : List UInt8 → Option (List UInt8)

variable (formats : Formats)

/-- The texts of a list, at the lengths that it says they have. -/
def readTexts : List Nat → Cursor.M (List (List UInt8))
  | [] => pure []
  | len :: lengths => do
      let out ← Cursor.load len
      Cursor.advanceOffset (UInt64.ofNat len)
      let texts ← readTexts lengths
      pure (Lmbcs.toString env.codePage out :: texts)

def listAsString : Cursor.M (List UInt8) := do
  let entries ← Cursor.readInteger 2
  let lengths ← View.readLengths entries
  let texts ← readTexts env lengths
  let output := texts.flatMap fun text => text ++ Lmbcs.asciiBytes [';']
  pure (output.take (output.length - 1))

/-- `as_string` behind `get_cursor`. -/
def asStringOf : Cursor.M (Option (List UInt8)) := do
  let typ ← Cursor.readInteger 2
  let cs ← get
  let dataSize := cs.buffer.length - 2
  if typ = typeText.toNat then do
    let value ← Cursor.load dataSize
    pure (some (Lmbcs.toString env.codePage value))
  else if typ = typeNumber.toNat ∧ dataSize = 8 then do
    let num ← Cursor.readInteger 8
    pure (formats.number (UInt64.ofNat num))
  else if typ = typeTime.toNat ∧ dataSize = 8 then do
    let td ← Cursor.read 8
    pure (formats.time td)
  else if typ = typeTextList.toNat ∧ 2 ≤ dataSize then do
    let output ← listAsString env
    pure (some output)
  else pure none

def asString (content : List UInt8) : Native.M σ (Option (List UInt8)) :=
  if content.length < 2 then pure none
  else do
    let cs ← NoteValue.lock env content
    Native.onCursor cs (asStringOf env formats)

end Dmn.ValueImpl
