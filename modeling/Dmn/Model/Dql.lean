import Mathlib.Algebra.Group.Nat.Defs
import Mathlib.Data.List.DropRight
import Dmn.Model.Error

/-! # `dql`

Builders and renderer of DQL expressions. A text is the list of its bytes, each written
as the character of that code. -/

namespace Dmn

/-- A `double`: finite numbers as `±mantissa * 2 ^ exponent`. -/
inductive Double where
  | finite (negative : Bool) (mantissa : ℕ) (exponent : ℤ)
  | infinity (negative : Bool)
  | nan (negative : Bool)
  deriving DecidableEq, Repr

namespace Dql

/-- `date_time`. -/
structure DateTime where
  value : List Char
  deriving DecidableEq, Repr

/-- `value_t`; the null pointer is the missing C string. -/
inductive Value where
  | string (s : List Char)
  | cString (s : Option (List Char))
  | int (n : Int32)
  | long (n : Int64)
  | longLong (n : Int64)
  | double (d : Double)
  | bool (b : Bool)
  | dateTime (d : DateTime)
  deriving DecidableEq, Repr

/-- `expression::oper`. -/
inductive Oper where
  | comparison
  | contains
  | logicalAnd
  | logicalOr
  | logicalNot
  | raw
  deriving DecidableEq, Repr

structure Expression where
  mode : Oper := .raw
  field : List Char := []
  op : List Char := []
  value : Value := .string []
  raw : List Char := []
  children : List Expression := []

/-! ## Builders -/

def datetime (value : List Char) : Except Error DateTime :=
  if value = [] then throw (.invalidArgument "DQL datetime value cannot be empty")
  else pure ⟨value⟩

/-- `std::isalpha` and `std::isalnum` know the letters of ASCII only. -/
def isValidIdentifier : List Char → Bool
  | [] => false
  | c :: cs => (c.isAlpha || c = '_') && cs.all fun c => c.isAlphanum || c = '_'

def validateField (field : List Char) : Except Error Unit :=
  if isValidIdentifier field then pure ()
  else throw (.invalidArgument "Invalid DQL field identifier provided")

def comparison (field op : List Char) (value : Value) : Except Error Expression := do
  validateField field
  pure { mode := .comparison, field := field, op := op, value := value }

def eq (field : List Char) (value : Value) : Except Error Expression :=
  comparison field "=".toList value

def ne (field : List Char) (value : Value) : Except Error Expression := do
  let child ← eq field value
  pure { mode := .logicalNot, children := [child] }

def lt (field : List Char) (value : Value) : Except Error Expression :=
  comparison field "<".toList value

def lte (field : List Char) (value : Value) : Except Error Expression :=
  comparison field "<=".toList value

def gt (field : List Char) (value : Value) : Except Error Expression :=
  comparison field ">".toList value

def gte (field : List Char) (value : Value) : Except Error Expression :=
  comparison field ">=".toList value

def contains (field text : List Char) : Except Error Expression := do
  validateField field
  if text = [] then throw (.invalidArgument "DQL contains text cannot be empty")
  pure { mode := .contains, field := field, value := .string text }

def all (terms : List Expression) : Except Error Expression :=
  if terms.isEmpty then
    throw (.invalidArgument "DQL all() requires at least one expression")
  else pure { mode := .logicalAnd, children := terms }

def any (terms : List Expression) : Except Error Expression :=
  if terms.isEmpty then
    throw (.invalidArgument "DQL any() requires at least one expression")
  else pure { mode := .logicalOr, children := terms }

/-! ## Literals -/

def quoteChar (c : Char) : List Char :=
  if c = '\'' then "''".toList
  else if c = '\n' then "\\n".toList
  else if c = '\r' then "\\r".toList
  else if c = '\t' then "\\t".toList
  else [c]

def quote (value : List Char) : List Char :=
  '\'' :: (value.flatMap quoteChar ++ ['\''])

/-- `std::to_string` of an integer. -/
def decimal (n : ℤ) : List Char :=
  if n < 0 then '-' :: Nat.toDigits 10 n.natAbs else Nat.toDigits 10 n.natAbs

/-- The number of millionths nearest to `mantissa * 2 ^ exponent`; a tie goes to the even
neighbour. -/
def millionths (mantissa : ℕ) (exponent : ℤ) : ℕ :=
  let scaled := mantissa * 10 ^ 6 * 2 ^ exponent.toNat
  let unit := 2 ^ (-exponent).toNat
  let down := scaled / unit
  let rest := scaled % unit
  if unit < 2 * rest ∨ 2 * rest = unit ∧ down % 2 = 1 then down + 1 else down

/-- `std::to_string` of a double, which writes six digits behind the point. -/
def fixed : Double → List Char
  | .finite negative mantissa exponent =>
      let n := millionths mantissa exponent
      (if negative then ['-'] else []) ++ (Nat.toDigits 10 (n / 10 ^ 6) ++
        '.' :: (Nat.toDigits 10 (n % 10 ^ 6)).leftpad 6 '0')
  | .infinity negative => (if negative then ['-'] else []) ++ "inf".toList
  | .nan negative => (if negative then ['-'] else []) ++ "nan".toList

def renderDouble (value : Double) : List Char :=
  let out := (fixed value).rdropWhile (· = '0')
  if out.getLast? = some '.' then out.dropLast else out

def renderValue : Value → Except Error (List Char)
  | .string s => pure (quote s)
  | .cString none => throw (.invalidArgument "DQL string value cannot be null")
  | .cString (some s) => pure (quote s)
  | .bool b => pure (if b then "true".toList else "false".toList)
  | .int n => pure (decimal n.toInt)
  | .long n => pure (decimal n.toInt)
  | .longLong n => pure (decimal n.toInt)
  | .double d => pure (renderDouble d)
  | .dateTime d => pure ("@dt(".toList ++ quote d.value ++ ")".toList)

/-! ## Rendering -/

def renderIdentifier (field : List Char) : Except Error (List Char) := do
  validateField field
  pure field

def needsParens (child : Expression) : Bool :=
  child.mode = .logicalAnd || child.mode = .logicalOr

def parenthesized (child : Expression) (text : List Char) : List Char :=
  if needsParens child then "(".toList ++ text ++ ")".toList else text

mutual

def render : Expression → Except Error (List Char)
  | ⟨.comparison, field, op, value, _, _⟩ => do
      let name ← renderIdentifier field
      let literal ← renderValue value
      pure (name ++ " ".toList ++ op ++ " ".toList ++ literal)
  | ⟨.contains, field, _, value, _, _⟩ => do
      let name ← renderIdentifier field
      let literal ← renderValue value
      pure (name ++ " contains (".toList ++ literal ++ ")".toList)
  | ⟨.logicalAnd, _, _, _, _, children⟩ => renderJoined children " and ".toList
  | ⟨.logicalOr, _, _, _, _, children⟩ => renderJoined children " or ".toList
  | ⟨.logicalNot, _, _, _, _, [child]⟩ => do
      let text ← render child
      pure ("not ".toList ++ text)
  | ⟨.logicalNot, _, _, _, _, _⟩ =>
      throw (.invalidArgument "DQL not expression requires exactly one child")
  | ⟨.raw, _, _, _, raw, _⟩ =>
      if raw = [] then throw (.invalidArgument "DQL raw expression cannot be empty")
      else pure raw

def renderJoined (children : List Expression) (op : List Char) : Except Error (List Char) :=
  match children with
  | [] => throw (.invalidArgument "DQL group expression cannot be empty")
  | child :: rest => do
      let text ← render child
      let more ← renderRest rest op
      pure (parenthesized child text ++ more)

/-- The loop of `render_joined` from its second turn on. -/
def renderRest (children : List Expression) (op : List Char) : Except Error (List Char) :=
  match children with
  | [] => pure []
  | child :: rest => do
      let text ← render child
      let more ← renderRest rest op
      pure (op ++ parenthesized child text ++ more)

end

end Dql

end Dmn
