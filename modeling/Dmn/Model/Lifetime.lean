import Dmn.Model.ThreadContext

/-! # Handles of databases and notes

A program on one thread makes, copies and drops objects and calls their methods. The session
has been started. A call can fail wherever a native call does. -/

namespace Dmn.ThreadContext

variable (env : Env)

/-! ## `database` -/

namespace Database

/-- The state behind the pointer. -/
def deref (id : StateId) : M (Cell × DatabaseState) := do
  let w ← Native.value
  match w.lock id with
  | none => throw .undefined
  | some cell =>
      match cell.state with
      | .database state => pure (cell, state)
      | .note _ => throw .undefined

/-- `names::get_handle`, for the list that the database is opened with. -/
def namesHandle : Option UInt32 → Except Stop UInt32
  | none => .ok 0
  | some handle =>
      if handle = 0 then .error (.throws (.invalidHandle "Empty handle accessed"))
      else .ok handle

def openImpl (id : StateId) : M (Option Handle) := do
  current
  Native.update (World.sweep .database)
  let (cell, state) ← deref id
  let names ← Exec.ofExcept (namesHandle state.names)
  let result ← Native.call env.native
  if result.isNotFound then pure none
  else do
    result.throwIfError "Failed to open database"
    let handle ← opened (.database id state.path names) none
    let entry ← insert .database cell handle
    pure (some entry.handle)

/-- `open`. -/
def openFile (file : List UInt8) (names : Option UInt32) : M (Option StateId) := do
  let db ← make env (.database ⟨Lmbcs.fromString env.codePage file, names⟩)
  let handle ← owning db.id (openImpl env db.id)
  match handle with
  | none => do
      Native.update (World.drop db.id)
      pure none
  | some _ => pure (some db.id)

def create (file : List UInt8) : M (Option StateId) := do
  let result ← Native.call env.native
  result.throwIfError "Failed to create database"
  openFile env file none

def getHandle (id : StateId) : M Handle := do
  current
  Native.update (World.sweep .database)
  let (cell, _) ← deref id
  let entry ← find .database cell
  match entry with
  | some entry => pure entry.handle
  | none => do
      let handle ← openImpl env id
      match handle with
      | none => throw (.throws (.invalidHandle "The database has disappeared"))
      | some handle => pure handle

end Database

/-! ## `note` -/

namespace Note

/-- The state behind the pointer. -/
def deref (id : StateId) : M (Cell × NoteState) := do
  let w ← Native.value
  match w.lock id with
  | none => throw .undefined
  | some cell =>
      match cell.state with
      | .note state => pure (cell, state)
      | .database _ => throw .undefined

def openImpl (id : StateId) : M (Option Handle) := do
  current
  Native.update (World.sweep .note)
  let (cell, state) ← deref id
  let db ← Database.getHandle env state.db
  let result ← Native.call env.native
  if result.isNotFound then pure none
  else do
    result.throwIfError "Failed to open note"
    let handle ← opened (.note id db state.noteId) (some state.noteId)
    let entry ← insert .note cell handle
    pure (some entry.handle)

/-- `open`, by note identifier. -/
def openId (db : StateId) (noteId : UInt32) : M (Option StateId) := do
  let nt ← make env (.note ⟨db, noteId, none⟩)
  let handle ← owning nt.id (openImpl env nt.id)
  match handle with
  | none => do
      Native.update (World.drop nt.id)
      pure none
  | some _ => pure (some nt.id)

/-- `open`, by UNID. -/
def openUnid (db : StateId) (unid : Unid) : M (Option StateId) := do
  let dbHandle ← Database.getHandle env db
  let s ← get
  let result ← Native.call env.native
  if result.isNotFound then pure none
  else do
    result.throwIfError "Failed to open note"
    let handle ← opened (.unid dbHandle unid) (some (env.noteId s.calls))
    let w ← Native.value
    openId env db ((w.noteIds handle).getD 0)

def create (db : StateId) : M StateId := do
  let dbHandle ← Database.getHandle env db
  let result ← Native.call env.native
  result.throwIfError "Failed to create note"
  let handle ← opened (.created dbHandle) none
  let nt ← make env (.note ⟨db, 0, some handle⟩)
  pure nt.id

def getHandle (id : StateId) : M Handle := do
  let (cell, state) ← deref id
  match state.hdl with
  | some handle => pure handle
  | none => do
      current
      Native.update (World.sweep .note)
      let entry ← find .note cell
      match entry with
      | some entry => pure entry.handle
      | none => do
          let db ← Database.getHandle env state.db
          let result ← Native.call env.native
          result.throwIfError "Failed to open note"
          let handle ← opened (.note id db state.noteId) (some state.noteId)
          let entry ← insert .note cell handle
          pure entry.handle

/-- `NSFNoteUpdate` gives a new note its identifier. -/
def updated (handle : Handle) (noteId : UInt32) (w : World) : World :=
  if (w.noteIds handle).isSome then w
  else { w with noteIds := Function.update w.noteIds handle (some noteId) }

/-- What `save` makes of the state. -/
def saved (noteId : UInt32) : State → State
  | .note state => .note { state with noteId := noteId, hdl := none }
  | .database state => .database state

def save (id : StateId) : M Unit := do
  let handle ← getHandle env id
  let s ← get
  let result ← Native.call env.native
  result.throwIfError "Failed to save note"
  Native.update (updated handle (env.noteId s.calls))
  let handle ← getHandle env id
  let w ← Native.value
  let (_, state) ← deref id
  Native.update (World.assign id (saved ((w.noteIds handle).getD 0)))
  match state.hdl with
  | none => pure ()
  | some handle => Native.update (World.close handle)

end Note

/-! ## Runs -/

/-- `get_handle` of the object. -/
def getHandle (id : StateId) : M Handle := do
  let w ← Native.value
  match w.lock id with
  | none => throw .undefined
  | some cell =>
      match cell.state with
      | .database _ => Database.getHandle env id
      | .note _ => Note.getHandle env id

inductive Op where
  | openDatabase (file : List UInt8) (names : Option UInt32)
  | createDatabase (file : List UInt8)
  | createNote (db : StateId)
  | openNote (db : StateId) (noteId : UInt32)
  | openUnid (db : StateId) (unid : Unid)
  | save (note : StateId)
  | copy (id : StateId)
  | drop (id : StateId)
  | getHandle (id : StateId)
  | endContext

namespace Op

/-- There is an object to call the operation on. -/
def able (w : World) : Op → Bool
  | openDatabase _ _ | createDatabase _ => true
  | createNote db | openNote db _ | openUnid db _ =>
      (w.lock db).any fun cell => cell.state.kind = .database
  | save note => (w.lock note).any fun cell => cell.state.kind = .note
  | copy id | getHandle id => (w.lock id).isSome
  | drop id => id ∈ w.owners
  | endContext => w.context

def perform : Op → M Unit
  | openDatabase file names => discard (Database.openFile env file names)
  | createDatabase file => discard (Database.create env file)
  | createNote db => discard (Note.create env db)
  | openNote db noteId => discard (Note.openId env db noteId)
  | openUnid db unid => discard (Note.openUnid env db unid)
  | save note => Note.save env note
  | copy id => Native.update (World.copy id)
  | drop id => Native.update (World.drop id)
  | getHandle id => discard (ThreadContext.getHandle env id)
  | endContext => Native.update World.endContext

end Op

/-- Exceptions are caught, and the program goes on. -/
def step (s : Called World) (op : Op) : Called World :=
  if op.able s.value then (Exec.exec (op.perform env) s).2 else s

end Dmn.ThreadContext
