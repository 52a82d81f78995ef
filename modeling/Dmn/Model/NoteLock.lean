import Dmn.Library.Table
import Dmn.Model.Native

/-! # `note_lock`

The locks that the library has set, and the objects of a program that own them. A lock is
set for a note of a database, by its identifier there. -/

namespace Dmn.NoteLock

abbrev ObjectId := Nat

/-- The members of a `note_lock`. A `database` that was moved from is `none`. -/
structure Wrapper (Db : Type) where
  id : ObjectId
  db : Option Db
  ownsLock : Bool
  noteId : UInt32

/-- A lock on a note, with the object that it was set for. -/
structure Lock (File : Type) where
  file : File
  noteId : UInt32
  holder : ObjectId

namespace Lock

variable {File : Type}

def key (lock : Lock File) : File × UInt32 := (lock.file, lock.noteId)

end Lock

/-- A call of `NSFDbNoteUnlock` by an object, on a note that is locked for `holder`. -/
structure Unlock where
  issuer : ObjectId
  holder : Option ObjectId
  deriving DecidableEq

structure World (Db File : Type) where
  wrappers : List (Wrapper Db)
  locks : List (Lock File)
  nextId : ObjectId
  unlocks : List Unlock

/-- `file` is the database behind an object, and `handleError` the exception of its
`get_handle`, if any, by the number of calls made so far. -/
structure Env (Db File : Type) where
  native : Native
  file : Db → File
  handleError : Nat → Db → Option Error

variable {Db File : Type} [DecidableEq File]

namespace World

def start : World Db File := ⟨[], [], 0, []⟩

/-- The object that the note is locked for. -/
def holder (file : File) (noteId : UInt32) (w : World Db File) : Option ObjectId :=
  (Table.lookup Lock.key (file, noteId) w.locks).map Lock.holder

/-- `owns_lock_` is set to false. -/
def disown (id : ObjectId) (w : World Db File) : World Db File :=
  { w with
    wrappers := Table.modify Wrapper.id id (fun self => { self with ownsLock := false }) w.wrappers }

def born (db : Option Db) (ownsLock : Bool) (noteId : UInt32) (w : World Db File) :
    World Db File :=
  { w with
    wrappers := ⟨w.nextId, db, ownsLock, noteId⟩ :: w.wrappers
    nextId := w.nextId + 1 }

/-- The members of an object are moved to a new one, and the lock is held for that one. -/
def move (source : Wrapper Db) (w : World Db File) : World Db File :=
  { w with
    wrappers := Table.modify Wrapper.id source.id
      (fun self => { self with ownsLock := false, db := none, noteId := 0 }) w.wrappers
    locks := if source.ownsLock then
        w.locks.map fun lock => if lock.holder = source.id then { lock with holder := w.nextId } else lock
      else w.locks }

def erase (id : ObjectId) (w : World Db File) : World Db File :=
  { w with wrappers := Table.erase Wrapper.id id w.wrappers }

end World

abbrev M (Db File α : Type) := Native.M (World Db File) α

variable (env : Env Db File)

/-! ## Native calls -/

/-- `NSFDbNoteLock`, for the object that is made next. It fails where the note is locked. -/
def nsfDbNoteLock (file : File) (noteId : UInt32) : M Db File Status := do
  let result ← Native.call env.native
  let w ← Native.value
  if result.isError then pure result
  else if (w.holder file noteId).isSome then pure .noteAlreadyLockedByLocker
  else do
    Native.update fun w => { w with locks := ⟨file, noteId, w.nextId⟩ :: w.locks }
    pure result

/-- `NSFDbNoteUnlock`. -/
def nsfDbNoteUnlock (issuer : ObjectId) (file : File) (noteId : UInt32) : M Db File Status := do
  Native.update fun w => { w with unlocks := ⟨issuer, w.holder file noteId⟩ :: w.unlocks }
  let result ← Native.call env.native
  if result.isError then pure result
  else do
    Native.update fun w => { w with locks := Table.erase Lock.key (file, noteId) w.locks }
    pure result

/-! ## Methods -/

/-- `database::get_handle`, as the database that the handle stands for. -/
def getHandle : Option Db → M Db File File
  | none => throw .undefined
  | some db => do
      let s ← get
      match env.handleError s.calls db with
      | some error => throw (.throws error)
      | none => pure (env.file db)

/-- `get_db_handle`. -/
def getDbHandle (db : Option Db) : M Db File (Option File) :=
  tryCatch (do let handle ← getHandle env db; pure (some handle)) fun
    | .throws _ => pure none
    | .undefined => throw .undefined

/-- The value of an optional. -/
def value : Option File → M Db File File
  | some file => pure file
  | none => throw .undefined

def this (id : ObjectId) : M Db File (Wrapper Db) := do
  let w ← Native.value
  match Table.lookup Wrapper.id id w.wrappers with
  | some self => pure self
  | none => throw .undefined

def lockNote (file : File) (noteId : UInt32) : M Db File Status := do
  -- the user name
  let result ← Native.call env.native
  if result.isError then pure result else nsfDbNoteLock env file noteId

/-- The public constructor. -/
def construct (db : Db) (noteId : UInt32) : M Db File ObjectId := do
  let w ← Native.value
  Native.update (World.born (some db) true noteId)
  pure w.nextId

def moveConstruct (other : ObjectId) : M Db File ObjectId := do
  let source ← this other
  let w ← Native.value
  Native.update (World.move source)
  Native.update (World.born source.db source.ownsLock source.noteId)
  pure w.nextId

def tryUnlock (id : ObjectId) : M Db File Bool := do
  let self ← this id
  if !self.ownsLock then pure true
  else do
    let handle ← getDbHandle env self.db
    let file ← value handle
    let result ← nsfDbNoteUnlock env id file self.noteId
    if result.isError then pure false
    else do
      Native.update (World.disown id)
      pure true

def unlock (id : ObjectId) : M Db File Unit := do
  let self ← this id
  if !self.ownsLock then pure ()
  else do
    let file ← getHandle env self.db
    let result ← nsfDbNoteUnlock env id file self.noteId
    result.throwIfError "Failed to unlock note"
    Native.update (World.disown id)

def destroy (id : ObjectId) : M Db File Unit := do
  discard (tryUnlock env id)
  Native.update (World.erase id)

def acquire (db : Db) (noteId : UInt32) : M Db File ObjectId := do
  let file ← getHandle env (some db)
  let result ← lockNote env file noteId
  if result.isLocked then
    throw (.throws (.nativeError "Note is already locked" result))
  result.throwIfError "Failed to acquire lock"
  construct db noteId

/-- The object is moved into the optional. -/
def tryAcquire (db : Db) (noteId : UInt32) : M Db File (Option ObjectId) := do
  let handle ← getDbHandle env (some db)
  let file ← value handle
  let result ← lockNote env file noteId
  if result.isError then pure none
  else do
    let temporary ← construct db noteId
    let lock ← moveConstruct temporary
    destroy env temporary
    pure (some lock)

/-! ## Runs -/

inductive Op (Db : Type) where
  | acquire (db : Db) (noteId : UInt32)
  | tryAcquire (db : Db) (noteId : UInt32)
  | moveConstruct (other : ObjectId)
  | unlock (id : ObjectId)
  | tryUnlock (id : ObjectId)
  | destroy (id : ObjectId)

namespace Op

/-- The object that the operation is called on lives. -/
def able (w : World Db File) : Op Db → Bool
  | acquire _ _ | tryAcquire _ _ => true
  | moveConstruct id | unlock id | tryUnlock id | destroy id =>
      w.wrappers.any fun self => self.id = id

def perform : Op Db → M Db File Unit
  | acquire db noteId => discard (NoteLock.acquire env db noteId)
  | tryAcquire db noteId => discard (NoteLock.tryAcquire env db noteId)
  | moveConstruct other => discard (NoteLock.moveConstruct other)
  | unlock id => NoteLock.unlock env id
  | tryUnlock id => discard (NoteLock.tryUnlock env id)
  | destroy id => NoteLock.destroy env id

end Op

/-- Exceptions are caught, and the program goes on. -/
def step (s : Called (World Db File)) (op : Op Db) : Called (World Db File) :=
  if op.able s.value then (Exec.exec (op.perform env) s).2 else s

end Dmn.NoteLock
