import Mathlib.Algebra.Ring.Nat
import Dmn.Model.Lmbcs
import Dmn.Model.Native

/-! # `list`

A text list in memory is the list of its entries, in LMBCS. The object keeps the size of that
memory a second time. -/

namespace Dmn

def typeText : UInt16 := 0x0500

def typeTextList : UInt16 := 0x0501

/-- The members of a `list`: what the handle stands for, if it is not null, and `size_`. -/
structure TextList where
  memory : Option (List (List UInt8))
  size_ : UInt16
  deriving DecidableEq, Repr

namespace TextList

abbrev Entries := List (List UInt8)

/-! ## Text lists in memory -/

def lengthBytes (entries : Entries) : List UInt8 :=
  entries.flatMap fun text => Cursor.integerBytes 2 text.length

/-- The list with its type word. -/
def bytes (entries : Entries) : List UInt8 :=
  Cursor.integerBytes 2 typeTextList.toNat ++ (Cursor.integerBytes 2 entries.length ++
    (lengthBytes entries ++ entries.flatten))

def byteSize (entries : Entries) : Nat := (bytes entries).length

def readLengths : Nat → List UInt8 → List Nat
  | 0, _ => []
  | count + 1, table => Cursor.littleEndian (table.take 2) :: readLengths count (table.drop 2)

/-- The texts, one behind the other. -/
def splitTexts : List Nat → List UInt8 → Entries
  | [], _ => []
  | length :: lengths, text => text.take length :: splitTexts lengths (text.drop length)

/-- A list with its type word is read. It must lie within the block. -/
def ofBytes (block : List UInt8) : Option Entries :=
  let count := Cursor.littleEndian ((block.drop 2).take 2)
  let lengths := readLengths count (block.drop 4)
  if block.length < 4 + 2 * count + lengths.sum then none
  else some (splitTexts lengths (block.drop (4 + 2 * count)))

/-- `listFull` is the error of a list that has no room for an entry. -/
structure Env where
  native : Native
  codePage : CharCode Char UInt8
  listFull : Status
  isError_listFull : listFull.isError = true

abbrev M (α : Type) := Native.M TextList α

variable (env : Env)

/-! ## Native calls on the memory

They take `*pListSize` as the size of the memory, and leave what is undefined where it is
another one. -/

/-- Change the memory and the size, unless the call fails or there is no room. -/
def listChange (f : Entries → Entries) : M Status := do
  let self ← Native.value
  match self.memory with
  | none => throw .undefined
  | some entries =>
      if self.size_.toNat ≠ byteSize entries then throw .undefined
      else do
        let result ← Native.call env.native
        if result.isError then pure result
        else if byteSize (f entries) < 2 ^ 16 then do
          Native.update fun _ => ⟨some (f entries), UInt16.ofNat (byteSize (f entries))⟩
          pure result
        else pure env.listFull

def listAddEntry (index : Nat) (text : List UInt8) : M Status :=
  listChange env fun entries => entries.take index ++ text :: entries.drop index

def listRemoveEntry (index : Nat) : M Status :=
  listChange env fun entries => entries.eraseIdx index

def listRemoveAllEntries : M Status := listChange env fun _ => []

/-! ## Methods -/

/-- `hdl_.get()`. -/
def getHandle : M Entries := do
  let self ← Native.value
  match self.memory with
  | none => throw (.throws (.invalidHandle "Empty handle accessed"))
  | some entries => pure entries

/-- A borrowing `locker` on the memory. -/
def lock : M Entries := do
  let entries ← getHandle
  let result ← Native.call env.native
  if result.isError then throw (.throws (.invalidHandle "Memory pointed to by handle is empty"))
  else pure entries

def size : M Nat := do
  let entries ← lock env
  pure entries.length

def empty : M Bool := do
  let count ← size env
  pure (count = 0)

def bufferSize : M UInt16 := do
  let entries ← lock env
  pure (UInt16.ofNat (byteSize entries))

def getCursor : M Cursor := do
  let _ ← getHandle
  let size ← bufferSize env
  let entries ← lock env
  pure (Cursor.make (some ((bytes entries).take size.toNat)))

/-- `at`. The index is passed as a 16-bit word. -/
def get (index : Nat) : M (List UInt8) := do
  let count ← size env
  if count ≤ index then throw (.throws (.outOfRange "List index is out of range"))
  else do
    let entries ← lock env
    let result ← Native.call env.native
    result.throwIfError "Failed to get list entry"
    match entries[index % 2 ^ 16]? with
    | none => throw .undefined
    | some text => pure (Lmbcs.toString env.codePage text)

def pushBack (value : List UInt8) : M Unit := do
  let converted := Lmbcs.fromString env.codePage value
  if converted.length > 2 ^ 16 - 1 then
    throw (.throws (.outOfRange "Text list entry too large"))
  else do
    let count ← size env
    if count > 2 ^ 16 - 1 then throw (.throws (.outOfRange "Text list has too many entries"))
    else do
      let result ← listAddEntry env count converted
      result.throwIfError "Failed to add list entry"

def erase (index : Nat) : M Unit := do
  let count ← size env
  if count ≤ index then throw (.throws (.outOfRange "List index is out of range"))
  else do
    let result ← listRemoveEntry env (index % 2 ^ 16)
    result.throwIfError "Failed to remove list entry"

def popBack : M Unit := do
  let count ← size env
  if count = 0 then throw (.throws (.outOfRange "List is empty"))
  else erase env (count - 1)

def clear : M Unit := do
  let _ ← getHandle
  let result ← listRemoveAllEntries env
  result.throwIfError "Failed to clear list"

/-- Iteration from `index` on, over `count` entries. -/
def iterateFrom (index : Nat) : Nat → M (List (List UInt8))
  | 0 => pure []
  | count + 1 => do
      let text ← get env index
      let texts ← iterateFrom (index + 1) count
      pure (text :: texts)

/-- From `begin()` to `end()`. -/
def iterate : M (List (List UInt8)) := do
  let count ← size env
  iterateFrom env 0 count

/-! ## Construction -/

variable {σ : Type}

/-- The constructor without arguments. `ListAllocate` reports the size of the empty list. -/
def construct : Native.M σ TextList := do
  let result ← Native.call env.native
  result.throwIfError "Failed to allocate list"
  pure ⟨some [], UInt16.ofNat (byteSize [])⟩

/-- The constructor from a list with its type word. -/
def ofBuffer (buffer : List UInt8) : Native.M σ TextList := do
  if buffer.length < 2 then throw .undefined
  else if Cursor.littleEndian (buffer.take 2) ≠ typeTextList.toNat then
    throw (.throws (.invalidArgument "Provided pointer is not a text list"))
  else do
    let result ← Native.call env.native
    result.throwIfError "Failed to duplicate list"
    match ofBytes buffer with
    | none => throw .undefined
    | some entries => pure ⟨some entries, 0⟩

/-- `object_value<list>::convert`, on the bytes of a value with its type word. -/
def convert (value : List UInt8) : Native.M σ (Option TextList) := do
  if value.length < 2 then throw (.throws (.outOfRange "Memory read out of range"))
  else
    let type := Cursor.littleEndian (value.take 2)
    if type = typeText.toNat then do
      let list ← construct env
      let text := Lmbcs.toString env.codePage (value.drop 2)
      let (_, list) ← Native.withLocal list
        (Native.part Prod.snd (fun list v => (v.1, list)) (pushBack env text))
      pure (some list)
    else if type = typeTextList.toNat then do
      let list ← ofBuffer env value
      pure (some list)
    else pure none

/-- Where a list comes from: the default constructor, or a value that is converted. -/
inductive Origin where
  | allocated
  | converted (value : List UInt8)

def Origin.obtain : Origin → Native.M σ (Option TextList)
  | allocated => do
      let list ← construct env
      pure (some list)
  | converted value => convert env value

/-! ## Runs -/

inductive Op where
  | pushBack (value : List UInt8)
  | popBack
  | erase (index : Nat)
  | clear

def Op.perform : Op → M Unit
  | pushBack value => TextList.pushBack env value
  | popBack => TextList.popBack env
  | erase index => TextList.erase env index
  | clear => TextList.clear env

/-- What an operation is for, on the sequence of entries. -/
def Op.apply : Op → List (List UInt8) → List (List UInt8)
  | pushBack value, texts =>
      texts ++ [Lmbcs.toString env.codePage (Lmbcs.fromString env.codePage value)]
  | popBack, texts => texts.dropLast
  | erase index, texts => texts.eraseIdx index
  | clear, _ => []

end TextList

end Dmn
