import Dmn.Model.Locker
import Dmn.Model.NoteValue

/-! # Objects that own memory

`value`, `formula`, `names`, `list` and `lotusscript` keep the handle of a block of their own, which
their methods lock and unlock. -/

namespace Dmn

/-- The members `hdl_` and `size_`. A formula and a names list have no size. -/
structure MemoryOwner where
  hdl_ : Nat
  size_ : Nat
  deriving DecidableEq, Repr

namespace MemoryOwner

open Heap Locker

inductive AuthenticationState where
  | unauthenticated
  | password
  | notes
  | admin
  deriving DecidableEq, Repr

/-- What the native functions put into memory. The script formatter gives the formatted code, an
error text, or both. -/
structure Env extends toNoteValue : NoteValue.Env where
  compile : List UInt8 → List UInt8
  decompile : Bool → List UInt8 → List UInt8
  textFormat : List UInt8 → Option (List UInt8) × Option (List UInt8)
  buildNamesList : List UInt8 → List UInt8
  numNames : List UInt8 → Nat
  sizeofNamesList : Nat
  authenticate : AuthenticationState → List UInt8 → List UInt8

variable (env : Env) {α : Type}

/-- `hdl_.get()`. -/
def getHandle (self : MemoryOwner) : Heap.M Nat :=
  if self.hdl_ = 0 then throw (.throws (.invalidHandle "Empty handle accessed"))
  else pure self.hdl_

/-- A borrowing locker on `size_` bytes. -/
def borrowed (self : MemoryOwner) : Heap.M Locker := do
  let hdl ← self.getHandle
  make env.native hdl self.size_ .borrow

/-- The handle is freed. -/
def destroy (self : MemoryOwner) : Heap.M Unit :=
  if self.hdl_ = 0 then pure () else osMemFree self.hdl_

/-- The object takes what a locker owns. -/
def takeFrom (locker : Locker) (size : Nat) : Heap.M MemoryOwner := do
  let (pool, locker) := locker.release
  locker.destroy
  pure ⟨pool, size⟩

/-! ## `formula` -/

def formulaOfSpan (buffer : List UInt8) : Heap.M MemoryOwner := do
  let obj ← allocate env.native buffer .take
  takeFrom obj 0

/-- `NSFFormulaCompile` reports two status words. -/
def formulaOfCode (code : List UInt8) : Heap.M MemoryOwner := do
  let result ← Native.call env.native
  let compileError ← Native.call env.native
  compileError.throwIfError "Compile error"
  result.throwIfError "Failed to compile formula"
  let hdl ← obtain (env.compile (Lmbcs.fromString env.codePage code)) 0
  pure ⟨hdl, 0⟩

def formulaSize (self : MemoryOwner) : Heap.M Nat := do
  let hdl ← self.getHandle
  let result ← Native.call env.native
  result.throwIfError "Failed to get formula size"
  let block ← block hdl
  pure (env.engine.getSize block.bytes).toNat

def formulaGetCursor (self : MemoryOwner) : Heap.M Locker := do
  let hdl ← self.getHandle
  let size ← formulaSize env self
  make env.native hdl size .borrow

def decompile (self : MemoryOwner) (isSelectionFormula : Bool) : Heap.M (List UInt8) :=
  within (formulaGetCursor env self) fun input => do
    let code ← input.bytes
    let result ← Native.call env.native
    result.throwIfError "Failed to decompile formula"
    let text := env.decompile isSelectionFormula code
    let textHdl ← obtain text 0
    within (make env.native textHdl (text.length % 2 ^ 16) .take) fun output => do
      let raw ← output.bytes
      pure (Lmbcs.toString env.codePage raw)

def merge (self other : MemoryOwner) : Heap.M Unit := do
  let source ← other.getHandle
  let hdl ← self.getHandle
  let merged ← block source
  let result ← Native.call env.native
  result.throwIfError "Failed to merge formulas"
  Native.update (modify hdl fun block =>
    { block with bytes := env.engine.merge merged.bytes block.bytes })

def addSummary (self : MemoryOwner) (itemName : List UInt8) : Heap.M Unit := do
  let hdl ← self.getHandle
  onBytes hdl (Formula.addSummary env.native env.engine itemName)

def addItemName (self : MemoryOwner) (itemName : List UInt8) : Heap.M Unit := do
  let hdr ← within (formulaGetCursor env self) fun cursor => do
    let bytes ← cursor.through (Cursor.read Formula.headerSize)
    pure (Formula.Header.ofBytes bytes)
  if hdr.flags ≠ 0 then throw (.throws (.runtimeError "Formula already has an item name"))
  else do
    let nameSize ← checkedCast itemName.length
    let sectionSize := 2 + nameSize.toNat
    let padding := sectionSize % 2
    let paddedSize ← checkedCast (sectionSize + padding)
    let newLength ← checkedCast (hdr.length.toNat + paddedSize.toNat)
    let newOffset ← checkedCast (hdr.offset.toNat + paddedSize.toNat)
    let hdl ← self.getHandle
    let result ← osMemRealloc env.native hdl newLength.toNat
    result.throwIfError "Failed to resize formula memory"
    within (formulaGetCursor env self) fun cursor =>
      if hdr.length.toNat < Formula.headerSize then throw .undefined
      else do
        onBytes hdl (Formula.memmove (Formula.headerSize + paddedSize.toNat) Formula.headerSize
          (hdr.length.toNat - Formula.headerSize))
        cursor.through (Formula.writeItemName ⟨newLength, 2, newOffset⟩ nameSize itemName padding)

/-! ## `names` -/

def fromUsername (name : List UInt8) : Heap.M MemoryOwner := do
  let result ← Native.call env.native
  result.throwIfError "Failed to build names list"
  let hdl ← obtain (env.buildNamesList (Lmbcs.fromString env.codePage name)) 0
  pure ⟨hdl, 0⟩

def namesGetCursor (self : MemoryOwner) : Heap.M Locker := do
  let hdl ← self.getHandle
  ofHandle env.native hdl .borrow

def namesClone (self : MemoryOwner) : Heap.M MemoryOwner := do
  let copy ← within (namesGetCursor env self) (Locker.clone env.native)
  takeFrom copy 0

def setAuthentication (self : MemoryOwner) (state : AuthenticationState) : Heap.M Unit :=
  within (namesGetCursor env self) fun lock =>
    onBytes lock.hdl_ (Native.update (env.authenticate state))

/-! ## `lotusscript` -/

def terminated (text : List UInt8) : List UInt8 := text.takeWhile (· ≠ 0)

/-- The text in front of the null byte. -/
def cString (locker : Locker) : Heap.M (List UInt8) := do
  let bytes ← locker.bytes
  if 0 ∈ bytes then pure (terminated bytes) else throw .undefined

/-- The memory of one of the formatter's results, or a null handle. -/
def obtainResult : Option (List UInt8) → Heap.M Nat
  | none => pure 0
  | some text => obtain (text ++ [0]) 0

def lotusscript (code : List UInt8) : Heap.M MemoryOwner := do
  let converted := Lmbcs.fromString env.codePage code
  let (destHdl, errorHdl) ←
    within (allocate env.native (converted ++ [0]) .take) fun lock => do
      let data ← lock.bytes
      let error ← Native.call env.native
      error.throwIfError "Failed to format LotusScript code"
      let destHdl ← obtainResult (env.textFormat (terminated data)).1
      let errorHdl ← obtainResult (env.textFormat (terminated data)).2
      pure (destHdl, errorHdl)
  if errorHdl ≠ 0 then
    within (ofHandle env.native errorHdl .take) fun lock => do
      let error ← cString lock
      throw (.throws (.formattingError error))
  else do
    let lock ← ofHandle env.native destHdl .take
    let text ← lock.guarded (cString lock)
    takeFrom lock text.length

def lotusscriptGetCursor (self : MemoryOwner) : Heap.M Locker := borrowed env self

/-! ## `list` -/

def listOf (entries : TextList.Entries) (size : Nat) : Heap.M MemoryOwner := do
  let hdl ← obtain (TextList.bytes entries) 1
  osUnlock hdl
  pure ⟨hdl, size⟩

/-- `ListAllocate` locks the memory. -/
def list : Heap.M MemoryOwner := do
  let result ← Native.call env.native
  result.throwIfError "Failed to allocate list"
  listOf [] (TextList.byteSize [])

/-- `ListDuplicate` locks the memory. -/
def listOfSpan (buffer : List UInt8) : Heap.M MemoryOwner := do
  if buffer.length < 2 then throw .undefined
  else if Cursor.littleEndian (buffer.take 2) ≠ typeTextList.toNat then
    throw (.throws (.invalidArgument "Provided pointer is not a text list"))
  else do
    let result ← Native.call env.native
    result.throwIfError "Failed to duplicate list"
    match TextList.ofBytes buffer with
    | none => throw .undefined
    | some entries => listOf entries 0

/-- A native function reads the list behind a handle or a pointer. -/
def entries (hdl : Nat) : Heap.M TextList.Entries := do
  let block ← block hdl
  match TextList.ofBytes block.bytes with
  | none => throw .undefined
  | some entries => pure entries

def listSize (self : MemoryOwner) : Heap.M Nat :=
  within (borrowed env self) fun list => do
    let entries ← entries list.hdl_
    pure entries.length

def bufferSize (self : MemoryOwner) : Heap.M Nat :=
  within (borrowed env self) fun list => do
    let entries ← entries list.hdl_
    pure (TextList.byteSize entries % 2 ^ 16)

def listGetCursor (self : MemoryOwner) : Heap.M Locker := do
  let hdl ← self.getHandle
  let size ← bufferSize env self
  make env.native hdl size .borrow

def listAt (self : MemoryOwner) (index : Nat) : Heap.M (List UInt8) := do
  let count ← listSize env self
  if count ≤ index then throw (.throws (.outOfRange "List index is out of range"))
  else within (borrowed env self) fun list => do
    let entries ← entries list.hdl_
    let result ← Native.call env.native
    result.throwIfError "Failed to get list entry"
    match entries[index % 2 ^ 16]? with
    | none => throw .undefined
    | some text => pure (Lmbcs.toString env.codePage text)

/-- A native call that changes the entries, unless it fails or there is no room. The size it is
given must be that of the memory, and it gives the new one. -/
def listChange (self : MemoryOwner) (f : TextList.Entries → TextList.Entries) (message : String) :
    Heap.M Nat := do
  let hdl ← self.getHandle
  let entries ← entries hdl
  if self.size_ ≠ TextList.byteSize entries then throw .undefined
  else do
    let result ← Native.call env.native
    result.throwIfError message
    if TextList.byteSize (f entries) < 2 ^ 16 then do
      Native.update (modify hdl fun block => { block with bytes := TextList.bytes (f entries) })
      pure (TextList.byteSize (f entries))
    else throw (.throws (.nativeError message env.listFull))

def listPushBack (self : MemoryOwner) (value : List UInt8) : Heap.M Nat := do
  let converted := Lmbcs.fromString env.codePage value
  if converted.length > 2 ^ 16 - 1 then
    throw (.throws (.outOfRange "Text list entry too large"))
  else do
    let count ← listSize env self
    if count > 2 ^ 16 - 1 then throw (.throws (.outOfRange "Text list has too many entries"))
    else do
      let added := fun entries : TextList.Entries =>
        entries.take count ++ converted :: entries.drop count
      listChange env self added "Failed to add list entry"

def listErase (self : MemoryOwner) (index : Nat) : Heap.M Nat := do
  let count ← listSize env self
  if count ≤ index then throw (.throws (.outOfRange "List index is out of range"))
  else do
    let removed := fun entries : TextList.Entries => entries.eraseIdx (index % 2 ^ 16)
    listChange env self removed "Failed to remove list entry"

def listPopBack (self : MemoryOwner) : Heap.M Nat := do
  let count ← listSize env self
  if count = 0 then throw (.throws (.outOfRange "List is empty"))
  else listErase env self (count - 1)

def listClear (self : MemoryOwner) : Heap.M Nat :=
  listChange env self (fun _ => []) "Failed to clear list"

/-! ## `value` -/

/-- The constructor from a locker, which is destroyed with the call. -/
def value (locker : Locker) : Heap.M MemoryOwner :=
  if locker.own_ ≠ .take then do
    locker.destroy
    throw (.throws (.invalidArgument "Locker must own memory in order to create an value"))
  else takeFrom locker locker.size_

def valueGetCursor (self : MemoryOwner) : Heap.M Locker := borrowed env self

/-- A method that reads through a cursor of its own. -/
def valueRead (self : MemoryOwner) (x : Cursor.M α) : Heap.M α :=
  within (valueGetCursor env self) fun cursor => cursor.through x

/-- `try_as`. -/
def valueTryAs (self : MemoryOwner) (convert : Locker → Heap.M (Option α)) :
    Heap.M (Option α) :=
  if self.size_ < 2 then pure none
  else tryCatch (within (valueGetCursor env self) convert) fun stop => match stop with
    | .throws _ => pure none
    | .undefined => throw .undefined

/-- `object_value<dmn::list>::convert`. A list that gets no entry is destroyed. -/
def convertList (cursor : Locker) : Heap.M (Option MemoryOwner) := do
  let type ← cursor.through (Cursor.readInteger 2)
  if type = typeText.toNat then do
    let text ← cursor.through (NoteValue.convertString env.toNoteValue)
    let list ← list env
    let size ← tryCatch (listPushBack env list (text.getD [])) fun stop => do
      list.destroy
      throw stop
    pure (some { list with size_ := size })
  else if type = typeTextList.toNat then do
    let bytes ← cursor.bytes
    let list ← listOfSpan env bytes
    pure (some list)
  else pure none

/-- `object_value<dmn::formula>::convert`. -/
def convertFormula (cursor : Locker) : Heap.M (Option MemoryOwner) := do
  match ← cursor.through NoteValue.formulaSpan with
  | none => pure none
  | some span => do
      let formula ← formulaOfSpan env span
      pure (some formula)

end MemoryOwner

end Dmn
