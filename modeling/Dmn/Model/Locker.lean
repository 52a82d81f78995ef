import Dmn.Library.Table
import Dmn.Model.Formula

/-! # `detail::locker`

The native library hands out memory by handle, and counts how often a block is locked. A
locker is destroyed at the end of its scope, however the scope is left. -/

namespace Dmn

structure Block where
  locks : Nat
  bytes : List UInt8
  deriving DecidableEq, Repr

/-- The blocks of memory under their handles, and the last handle that was given out. The null
handle is 0. -/
structure Heap where
  blocks : List (Nat × Block)
  last : Nat
  handle_valid : ∀ entry ∈ blocks, 0 < entry.1 ∧ entry.1 ≤ last

namespace Heap

def get? (heap : Heap) (hdl : Nat) : Option Block :=
  (Table.lookup Prod.fst hdl heap.blocks).map Prod.snd

def modify (hdl : Nat) (f : Block → Block) (heap : Heap) : Heap where
  blocks := Table.modify Prod.fst hdl (fun entry => (entry.1, f entry.2)) heap.blocks
  last := heap.last
  handle_valid := Table.forall_key_modify Prod.fst (p := fun hdl => 0 < hdl ∧ hdl ≤ heap.last)
    (fun _ => rfl) heap.handle_valid

def add (block : Block) (heap : Heap) : Heap where
  blocks := heap.blocks ++ [(heap.last + 1, block)]
  last := heap.last + 1
  handle_valid entry hentry := by
    rcases List.mem_append.mp hentry with hold | hnew
    · have hvalid := heap.handle_valid entry hold
      exact ⟨hvalid.1, Nat.le_succ_of_le hvalid.2⟩
    · cases List.mem_singleton.mp hnew
      exact ⟨Nat.succ_pos _, Nat.le_refl _⟩

def erase (hdl : Nat) (heap : Heap) : Heap where
  blocks := Table.erase Prod.fst hdl heap.blocks
  last := heap.last
  handle_valid entry hentry := heap.handle_valid entry ((Table.mem_erase_iff Prod.fst).mp hentry).1

abbrev M (α : Type) := Native.M Heap α

variable (native : Native) {α : Type}

/-- Only the handle of a block may be used. -/
def block (hdl : Nat) : M Block := do
  let heap ← Native.value
  match heap.get? hdl with
  | none => throw .undefined
  | some block => pure block

/-- A native call hands out new memory. -/
def obtain (bytes : List UInt8) (locks : Nat) : M Nat := do
  let heap ← Native.value
  Native.update (add ⟨locks, bytes⟩)
  pure (heap.last + 1)

/-- A program on the bytes of a block. -/
def onBytes (hdl : Nat) (x : Native.M (List UInt8) α) : M α := do
  let block ← block hdl
  Native.part (fun _ => block.bytes)
    (fun bytes => modify hdl fun block => { block with bytes := bytes }) x

/-- Whether there is a pointer to the memory. -/
def osLockBlock (hdl : Nat) : M Bool := do
  let _ ← block hdl
  let result ← Native.call native
  if result.isError then pure false
  else do
    Native.update (modify hdl fun block => { block with locks := block.locks + 1 })
    pure true

def osUnlock (hdl : Nat) : M Unit := do
  let block ← block hdl
  if block.locks = 0 then throw .undefined
  else Native.update (modify hdl fun block => { block with locks := block.locks - 1 })

def osMemFree (hdl : Nat) : M Unit := do
  let _ ← block hdl
  Native.update (erase hdl)

def osMemGetSize (hdl : Nat) : M (Status × Nat) := do
  let block ← block hdl
  let result ← Native.call native
  pure (result, block.bytes.length)

/-- The size is passed as a 32-bit word. -/
def osMemAlloc (size : Nat) : M (Status × Nat) := do
  let s ← get
  let result ← Native.call native
  if result.isError then pure (result, 0)
  else do
    let hdl ← obtain ((List.range (size % 2 ^ 32)).map (native.garbage s.calls)) 0
    pure (result, hdl)

/-- The block must not be locked. The bytes behind the old ones are not set. -/
def osMemRealloc (hdl newSize : Nat) : M Status := do
  let old ← block hdl
  let s ← get
  if old.locks ≠ 0 then throw .undefined
  else do
    let result ← Native.call native
    if result.isError then pure result
    else do
      Native.update (modify hdl fun block => { block with
        bytes := block.bytes.take newSize ++
          (List.range (newSize - block.bytes.length)).map (native.garbage s.calls) })
      pure result

end Heap

inductive Ownership where
  | take
  | borrow
  | free
  deriving DecidableEq, Repr

/-- A locker on a whole block. -/
structure Locker where
  hdl_ : Nat
  size_ : Nat
  own_ : Ownership
  deriving DecidableEq, Repr

namespace Locker

open Heap

variable (native : Native) {α : Type}

/-- The constructor from a handle and a size. -/
def make (hdl size : Nat) (own : Ownership) : M Locker :=
  if hdl = 0 then throw (.throws (.invalidHandle "Provided handle is empty"))
  else if own = .free then pure ⟨hdl, size, own⟩
  else do
    let locked ← osLockBlock native hdl
    if locked then pure ⟨hdl, size, own⟩
    else throw (.throws (.invalidHandle "Memory pointed to by handle is empty"))

/-- The cleanup of `hdl_`, which is not called for a null handle. -/
def destroy (locker : Locker) : M Unit :=
  if locker.hdl_ = 0 then pure ()
  else do
    if locker.own_ ≠ .free then osUnlock locker.hdl_
    if locker.own_ ≠ .borrow then osMemFree locker.hdl_

/-- An exception leaves the scope of the locker. -/
def guarded (locker : Locker) (x : M α) : M α :=
  tryCatch x fun stop => do
    locker.destroy
    throw stop

/-- A scope with a locker. -/
def within (acquire : M Locker) (body : Locker → M α) : M α := do
  let locker ← acquire
  let a ← locker.guarded (body locker)
  locker.destroy
  pure a

/-- The constructor from a handle alone. -/
def ofHandle (hdl : Nat) (own : Ownership) : M Locker := do
  let locker ← make native hdl 0 own
  locker.guarded do
    let (result, size) ← osMemGetSize native hdl
    result.throwIfError "Failed to determine size of memory"
    pure { locker with size_ := size }

/-- The handle is given away, and the locker is left with a null handle. -/
def release (locker : Locker) : Nat × Locker := (locker.hdl_, { locker with hdl_ := 0 })

/-- Work through the locker from its first byte on. Without a lock it has no pointer. -/
def through (locker : Locker) (x : Cursor.M α) : M α :=
  if locker.own_ = .free then throw .undefined
  else onBytes locker.hdl_ do
    let memory ← Native.value
    if memory.length < locker.size_ then throw .undefined
    else Formula.through (Cursor.make (some (memory.take locker.size_))) x

def allocateImpl (size : Nat) (own : Ownership) : M Locker :=
  if size = 0 then throw (.throws (.invalidArgument "Size cannot be zero"))
  else do
    let (result, out) ← osMemAlloc native size
    result.throwIfError "Failed to allocate memory"
    make native out size own

/-- `allocate` with the bytes to copy. -/
def allocate (buffer : List UInt8) (own : Ownership) : M Locker := do
  let locker ← allocateImpl native buffer.length own
  locker.guarded do
    locker.through (Cursor.write buffer)
    pure locker

/-- All bytes behind the pointer. -/
def bytes (locker : Locker) : M (List UInt8) := locker.through (Cursor.load locker.size_)

def clone (locker : Locker) : M Locker := do
  let bytes ← locker.bytes
  allocate native bytes .take

end Locker

end Dmn
