import Dmn.Model.Lmbcs
import Dmn.Model.Native

/-! # `formula`

A compiled formula is the content of the memory behind its handle. -/

namespace Dmn

namespace Formula

/-- The native functions on compiled formulas. -/
structure Engine where
  getSize : List UInt8 → UInt16
  merge : List UInt8 → List UInt8 → List UInt8
  summaryItem : List UInt8 → List UInt8 → List UInt8

structure Header where
  length : UInt16
  flags : UInt16
  offset : UInt16
  deriving DecidableEq, Repr

def Header.bytes (hdr : Header) : List UInt8 :=
  Cursor.integerBytes 2 hdr.length.toNat ++ (Cursor.integerBytes 2 hdr.flags.toNat ++
    Cursor.integerBytes 2 hdr.offset.toNat)

def Header.ofBytes (bytes : List UInt8) : Header :=
  ⟨UInt16.ofNat (Cursor.littleEndian (bytes.take 2)),
    UInt16.ofNat (Cursor.littleEndian ((bytes.drop 2).take 2)),
    UInt16.ofNat (Cursor.littleEndian ((bytes.drop 4).take 2))⟩

/-- `sizeof(header)`. -/
def headerSize : Nat := 6

abbrev M (α : Type) := Native.M (List UInt8) α

variable (native : Native) (engine : Engine)

def size : M Nat := do
  let result ← native.call
  result.throwIfError "Failed to get formula size"
  let memory ← Native.value
  pure (engine.getSize memory).toNat

/-- `size(true)`. -/
def sizeEven : M Nat := do
  let size ← size native engine
  pure (size + size % 2)

/-- `get_cursor`. A size beyond the memory makes the view reach outside of it. -/
def getCursor : M Cursor := do
  let size ← size native engine
  let memory ← Native.value
  if memory.length < size then throw .undefined
  else pure (Cursor.make (some (memory.take size)))

/-- Work through a cursor on the memory as it is now. -/
def through {α : Type} (cursor : Cursor) (x : Cursor.M α) : M α := do
  let memory ← Native.value
  let (result, cursor') :=
    Exec.exec x { cursor with buffer := memory.take cursor.buffer.length }
  Native.update fun memory => cursor'.buffer ++ memory.drop cursor.buffer.length
  match result with
  | .ok a => pure a
  | .error stop => throw stop

def merge (other : List UInt8) : M Unit := do
  let result ← native.call
  result.throwIfError "Failed to merge formulas"
  Native.update (engine.merge other)

/-- `add_summary(lmbcs_view)`; the length of the name is passed as a 16-bit word. -/
def addSummary (itemName : List UInt8) : M Unit := do
  let result ← native.call
  result.throwIfError "Failed to add summary item to formula"
  Native.update fun memory =>
    engine.summaryItem memory (itemName.take (itemName.length % 2 ^ 16))

/-- `add_summary(std::string_view)`. -/
def addSummaryText (codePage : CharCode Char UInt8) (itemName : List UInt8) : M Unit :=
  addSummary native engine (Lmbcs.fromString codePage itemName)

/-- `OSMemRealloc`; the bytes behind the old ones are not set. -/
def realloc (newSize : Nat) : M Unit := do
  let s ← get
  let result ← native.call
  result.throwIfError "Failed to resize formula memory"
  Native.update fun memory =>
    memory.take newSize ++ (List.range (newSize - memory.length)).map (native.garbage s.calls)

/-- Move the `count` bytes at `source` to `target`, all inside the memory. -/
def memmove (target source count : Nat) : M Unit := do
  let memory ← Native.value
  if memory.length < source + count ∨ memory.length < target + count then throw .undefined
  else
    Native.update fun memory =>
      memory.take target ++ (memory.drop source).take count ++ memory.drop (target + count)

def readHeader : M Header := do
  let cursor ← getCursor native engine
  let bytes ← through cursor (Cursor.read headerSize)
  pure (Header.ofBytes bytes)

def writeItemName (newHdr : Header) (nameSize : UInt16) (itemName : List UInt8)
    (padding : Nat) : Cursor.M Unit := do
  Cursor.setOffset 0
  Cursor.write newHdr.bytes
  Cursor.writeInteger 2 nameSize.toNat
  Cursor.write (itemName.take nameSize.toNat)
  if padding ≠ 0 then Cursor.write [0]

/-- The part of `add_item_name` behind the check of the flags. -/
def insertItemName (hdr : Header) (itemName : List UInt8) : M Unit := do
  let nameSize ← checkedCast itemName.length
  let sectionSize := 2 + nameSize.toNat
  let padding := sectionSize % 2
  let paddedSize ← checkedCast (sectionSize + padding)
  let newLength ← checkedCast (hdr.length.toNat + paddedSize.toNat)
  let newOffset ← checkedCast (hdr.offset.toNat + paddedSize.toNat)
  realloc native newLength.toNat
  let cursor ← getCursor native engine
  -- a recorded length below the header's size makes the count of bytes wrap around
  if hdr.length.toNat < headerSize then throw .undefined
  else do
    memmove (headerSize + paddedSize.toNat) headerSize (hdr.length.toNat - headerSize)
    through cursor (writeItemName ⟨newLength, 2, newOffset⟩ nameSize itemName padding)

/-- `add_item_name(lmbcs_view)`. -/
def addItemName (itemName : List UInt8) : M Unit := do
  let hdr ← readHeader native engine
  if hdr.flags ≠ 0 then throw (.throws (.runtimeError "Formula already has an item name"))
  else insertItemName native engine hdr itemName

end Formula

end Dmn
