import Mathlib.Data.Nat.Digits.Defs

/-! # `unid`

A universal note ID and its text of hexadecimal digits. -/

namespace Dmn

/-- `MAXUNIDSTRING`. -/
def maxUnidString : ℕ := 32

structure Unid where
  file : Vector UInt32 2
  note : Vector UInt32 2
  deriving DecidableEq

namespace Unid

/-! ## Numbers in base 16 -/

/-- The value of a hexadecimal digit, in either case. -/
def hexDigit (c : UInt8) : Option ℕ :=
  if 48 ≤ c.toNat ∧ c.toNat ≤ 57 then some (c.toNat - 48)
  else if 65 ≤ c.toNat ∧ c.toNat ≤ 70 then some (c.toNat - 55)
  else if 97 ≤ c.toNat ∧ c.toNat ≤ 102 then some (c.toNat - 87)
  else none

/-- The digits that a text begins with, and the rest of it. -/
def leadingDigits : List UInt8 → List ℕ × List UInt8
  | [] => ([], [])
  | c :: text =>
      match hexDigit c with
      | none => ([], c :: text)
      | some d => (d :: (leadingDigits text).1, (leadingDigits text).2)

/-- `std::from_chars` for a `uint32_t` in base 16: the number and the text behind it. There is no
sign and no `0x`. A text without a number is refused, and so is a number out of range. -/
def fromChars (text : List UInt8) : Option (UInt32 × List UInt8) :=
  let (digits, rest) := leadingDigits text
  let value := Nat.ofDigits 16 digits.reverse
  if digits = [] then none
  else if 2 ^ 32 ≤ value then none
  else some (UInt32.ofNat value, rest)

def upperDigit (d : ℕ) : UInt8 := UInt8.ofNat (if d < 10 then 48 + d else 55 + d)

/-- `std::format` with `{:08X}`. -/
def format08X (part : UInt32) : List UInt8 :=
  ((Nat.digits 16 part.toNat).reverse.map upperDigit).leftpad 8 (upperDigit 0)

/-! ## `unid` -/

/-- `str.substr(i * 8, 8)`. -/
def chunk (str : List UInt8) (i : ℕ) : List UInt8 := (str.drop (i * 8)).take 8

/-- One step of the loop over the parts; where the number ends is not looked at. -/
def part (str : List UInt8) (i : ℕ) : Option UInt32 := do
  let (part, _) ← fromChars (chunk str i)
  pure part

def fromString (str : List UInt8) : Option Unid :=
  if str.length ≠ maxUnidString then none
  else do
    let part0 ← part str 0
    let part1 ← part str 1
    let part2 ← part str 2
    let part3 ← part str 3
    pure { file := #v[part1, part0], note := #v[part3, part2] }

def toString (self : Unid) : List UInt8 :=
  format08X self.file[1] ++ format08X self.file[0] ++ format08X self.note[1] ++
    format08X self.note[0]

end Unid

end Dmn
