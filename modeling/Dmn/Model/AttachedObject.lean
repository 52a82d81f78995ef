import Dmn.Library.Ledger
import Dmn.Model.MemoryOwner

/-! # `detail::attached_object`

An object is memory in a database. Items of a note can refer to it. -/

namespace Dmn

/-- An object of the database. -/
structure DbObject where
  rrv : ℕ
  bytes : List UInt8
  deriving DecidableEq

/-- The members `object_type_` and `hdl_`. -/
structure AttachedObject where
  objectType_ : UInt16
  hdl_ : ℕ
  deriving DecidableEq

namespace AttachedObject

/-- `OBJECT_DESCRIPTOR`. -/
structure Descriptor where
  objectType : UInt16
  rrv : ℕ

def objectDescriptor : OdsType := .other 27

/-- `type::assist_run_data`. -/
def assistRunData : UInt16 := 8

/-- `dmn::type::object`. -/
def typeObject : UInt16 := 3

structure Env where
  native : Native
  codePage : CharCode Char UInt8
  ods : Ods Descriptor
  /-- What `NSFDbWriteObject` reports for bytes that the object has no room for. -/
  tooSmall : Status
  isError_tooSmall : tooSmall.isError = true

/-- The items are those of a note that is open. The library has taken some blocks of memory, which
are not those of the program any more. -/
structure World where
  heap : Heap
  items : List Item
  objects : List DbObject
  rrvs : Ledger.Book
  taken : List (ℕ × Block)

abbrev M (α : Type) := Native.M World α

variable (env : Env) {α : Type}

def onHeap (x : Heap.M α) : M α :=
  Native.part World.heap (fun heap w => { w with heap := heap }) x

def onItems (x : Note.M α) : M α :=
  Native.part World.items (fun items w => { w with items := items }) x

/-- An exception leaves the scope of the locker. -/
def guarded (locker : Locker) (x : M α) : M α :=
  tryCatch x fun stop => do
    onHeap locker.destroy
    throw stop

/-- An exception leaves the scope of an object that owns memory. -/
def owning (self : MemoryOwner) (x : M α) : M α :=
  tryCatch x fun stop => do
    onHeap self.destroy
    throw stop

/-! ## Native calls -/

/-- The size is passed as a 32-bit word. -/
def nsfDbAllocObject (size : ℕ) : M (Status × ℕ) := do
  let s ← get
  let result ← Native.call env.native
  if result.isError then pure (result, 0)
  else do
    Native.update fun w =>
      { w with
        objects := w.objects ++
          [⟨w.rrvs.next, (List.range (size % 2 ^ 32)).map (env.native.garbage s.calls)⟩]
        rrvs := w.rrvs.opens }
    pure (result, s.value.rrvs.next)

/-- The status is not looked at. -/
def nsfDbFreeObject (rrv : ℕ) : M Unit := do
  let result ← Native.call env.native
  Native.update fun w =>
    { w with
      objects := if result.isError then w.objects else Table.erase DbObject.rrv rrv w.objects
      rrvs := w.rrvs.closes rrv }

/-- A block of the program becomes one of the library. -/
def World.takes (hdl : ℕ) (block : Block) (w : World) : World :=
  { w with heap := w.heap.erase hdl, taken := (hdl, block) :: w.taken }

/-- The value of the item is behind its type. The length of the name is passed as a 16-bit word. The
block is taken. -/
def nsfItemAppendObject (name : List UInt8) (hdl size : ℕ) : M Status := do
  let block ← onHeap (Heap.block hdl)
  let result ← Native.call env.native
  if result.isError then pure result
  else do
    let value := block.bytes.take size
    Native.update fun w =>
      { w.takes hdl block with
        items := w.items ++ [⟨name.take (name.length % 2 ^ 16), Note.itemSummary,
          UInt16.ofNat (Cursor.littleEndian (value.take 2)), value.drop 2⟩] }
    pure result

/-- The block is taken. -/
def nsfDbWriteObject (rrv hdl size : ℕ) : M Status := do
  let block ← onHeap (Heap.block hdl)
  let result ← Native.call env.native
  if result.isError then pure result
  else do
    let w ← Native.value
    match Table.lookup DbObject.rrv rrv w.objects with
    | none => throw .undefined
    | some object =>
        if object.bytes.length < size then pure env.tooSmall
        else do
          Native.update fun w =>
            { w.takes hdl block with
              objects := Table.modify DbObject.rrv rrv (fun object => { object with
                bytes := block.bytes.take size ++ object.bytes.drop size }) w.objects }
          pure result

/-! ## Methods -/

/-- The constructor. -/
def construct (objectType : UInt16) (size : ℕ) : M AttachedObject := do
  let (result, handle) ← nsfDbAllocObject env size
  result.throwIfError "Failed to allocate attached object memory"
  pure ⟨objectType, handle⟩

/-- The cleanup is not called for a null handle. -/
def destroy (self : AttachedObject) : M Unit :=
  if self.hdl_ = 0 then pure () else nsfDbFreeObject env self.hdl_

/-- `hdl_.get()`. -/
def getHandle (self : AttachedObject) : M ℕ :=
  if self.hdl_ = 0 then throw (.throws (.invalidHandle "Empty handle accessed"))
  else pure self.hdl_

/-- The handle is given away. -/
def release (self : AttachedObject) : ℕ × AttachedObject := (self.hdl_, { self with hdl_ := 0 })

/-- A scope with an object, which an exception leaves. -/
def inScope (self : AttachedObject) (x : M α) : M α :=
  tryCatch x fun stop => do
    self.destroy env
    throw stop

/-- A locker whose handle is released has nothing to destroy. -/
def appendToNote (self : AttachedObject) (key : List UInt8) : M Unit := do
  let itemSize := 2 + (env.ods.size objectDescriptor).toNat
  let rrv ← self.getHandle
  let lock ← onHeap (Locker.allocateImpl env.native itemSize .take)
  guarded lock do
    onHeap <| lock.through do
      Cursor.writeInteger 2 typeObject.toNat
      Cursor.writeObject env.ods ⟨self.objectType_, rrv⟩ (some objectDescriptor)
    let converted := Lmbcs.fromString env.codePage key
    let result ← nsfItemAppendObject env converted lock.hdl_ lock.size_
    result.throwIfError "Failed to append attached object to note"

/-- `write`, which has the locker as a local variable. -/
def write (self : AttachedObject) (locker : Locker) : M Unit :=
  guarded locker do
    if locker.own_ ≠ .take then
      throw (.throws (.invalidArgument
        "Locker must own memory in order to write to attached object"))
    let rrv ← self.getHandle
    let result ← nsfDbWriteObject env rrv locker.hdl_ locker.size_
    result.throwIfError "Failed to write data to attachted object"

end AttachedObject

end Dmn
