import Mathlib.Algebra.Group.Nat.Defs
import Dmn.Library.Exec
import Dmn.Model.Error

/-! # `detail::cursor`

The viewed block is the list of its bytes. A pointer into it is the offset from the
start of the block in 64-bit arithmetic, so that an offset the class accepts without a
check can lie anywhere. -/

namespace Dmn

/-- The records of `ods::type` that the library stores, and every other code. -/
inductive OdsType where
  | viewTableFormat
  | viewColumnFormat
  | viewTableFormat2
  | viewColumnFormat2
  | collation
  | collateDescriptor
  | other (code : UInt16)
  deriving DecidableEq, Repr

/-- `detail::ods` for the objects of `Obj`: their representation in memory, and the
canonical form that `ods::write` stores and `ods::read` loads. -/
structure Ods (Obj : Type) where
  bytes : Obj → List UInt8
  ofBytes : List UInt8 → Obj
  size : OdsType → UInt16
  write : OdsType → Obj → List UInt8
  read : OdsType → List UInt8 → Obj
  length_write : ∀ typ value, (write typ value).length = (size typ).toNat

structure Cursor where
  buffer : List UInt8
  offset : UInt64
  deriving DecidableEq, Repr

namespace Cursor

abbrev M (α : Type) := Exec Stop Cursor α

/-- The constructor: a null pointer gives an empty view. -/
def make (block : Option (List UInt8)) : Cursor := ⟨block.getD [], 0⟩

/-- The first `n` bytes behind `get_pointer()`; only bytes of the block may be read. -/
def load (n : Nat) : M (List UInt8) := do
  let c ← get
  if n = 0 ∨ c.offset.toNat + n ≤ c.buffer.length then
    pure ((c.buffer.drop c.offset.toNat).take n)
  else
    throw .undefined

/-- The block with `bytes` in place of those from the offset on. -/
def overwritten (c : Cursor) (bytes : List UInt8) : List UInt8 :=
  c.buffer.take c.offset.toNat ++ bytes ++ c.buffer.drop (c.offset.toNat + bytes.length)

/-- Overwrite the bytes behind `get_pointer()`; only bytes of the block may be written. -/
def store (bytes : List UInt8) : M Unit := do
  let c ← get
  if bytes = [] ∨ c.offset.toNat + bytes.length ≤ c.buffer.length then
    set { c with buffer := c.overwritten bytes }
  else
    throw .undefined

def advanceOffset (amount : UInt64) : M Unit :=
  modify fun c => { c with offset := c.offset + amount }

def setOffset (position : UInt64) : M Unit := modify fun c => { c with offset := position }

def reset : M Unit := modify fun c => { c with offset := 0 }

def resetTo (block : List UInt8) : M Unit := set (⟨block, 0⟩ : Cursor)

def ensureBounds (sizeToRead : UInt32) : M Unit := do
  let c ← get
  let newOffset := c.offset + sizeToRead.toUInt64
  if newOffset.toNat > c.buffer.length then
    throw (.throws (.outOfRange "Memory read out of range"))

/-- `write(std::span<T>)`; the size narrows to 32 bits on its way into the check. -/
def write (buffer : List UInt8) : M Unit := do
  ensureBounds (UInt32.ofNat buffer.length)
  store buffer
  advanceOffset (UInt64.ofNat buffer.length)

/-- `read(std::span<T>)` into a span of `n` bytes. -/
def read (n : Nat) : M (List UInt8) := do
  ensureBounds (UInt32.ofNat n)
  let bytes ← load n
  advanceOffset (UInt64.ofNat n)
  pure bytes

/-! ## Integers

The platform stores the low byte first. -/

def littleEndian (bytes : List UInt8) : Nat :=
  bytes.foldr (fun byte value => byte.toNat + 256 * value) 0

def integerBytes : Nat → Nat → List UInt8
  | 0, _ => []
  | k + 1, n => UInt8.ofNat n :: integerBytes k (n / 256)

/-- `read<T>()` for an integer type of `k` bytes. -/
def readInteger (k : Nat) : M Nat := do
  let bytes ← read k
  pure (littleEndian bytes)

/-- `write(const T&)` for an integer type of `k` bytes. -/
def writeInteger (k n : Nat) : M Unit := write (integerBytes k n)

/-! ## Objects -/

variable {Obj : Type} (ods : Ods Obj)

/-- `write(const T&, std::optional<ods::type>)`. -/
def writeObject (value : Obj) (typ : Option OdsType) : M Unit := do
  let size := match typ with
    | some t => (ods.size t).toNat
    | none => (ods.bytes value).length
  ensureBounds (UInt32.ofNat size)
  match typ with
  | some t => store (ods.write t value)
  | none => store (ods.bytes value)
  advanceOffset (UInt64.ofNat size)

/-- `read<T>(std::optional<ods::type>)` for a type of `sizeOf` bytes. -/
def readObject (sizeOf : Nat) (typ : Option OdsType) : M Obj := do
  let size := match typ with
    | some t => (ods.size t).toNat
    | none => sizeOf
  ensureBounds (UInt32.ofNat size)
  let bytes ← load size
  advanceOffset (UInt64.ofNat size)
  pure (match typ with
    | some t => ods.read t bytes
    | none => ods.ofBytes bytes)

end Cursor

end Dmn
