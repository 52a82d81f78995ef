import Mathlib.Logic.Function.Basic
import Dmn.Library.Table
import Dmn.Model.Lmbcs
import Dmn.Model.Native

/-! # `thread_context`

The states that shared pointers own, and the handles that a thread keeps for them. States and
handles are numbered as they are made; the address of a state can be given again to a later
one. Successful native calls hand out handles that are not null. -/

namespace Dmn.ThreadContext

abbrev Address := Nat

abbrev StateId := Nat

abbrev Handle := Nat

abbrev Unid := BitVec 128

/-- `database::state`. Of a names list, its handle is kept, which is zero after `release`. -/
structure DatabaseState where
  path : List UInt8
  names : Option UInt32
  deriving DecidableEq

/-- `note::state`. -/
structure NoteState where
  db : StateId
  noteId : UInt32
  hdl : Option Handle
  deriving DecidableEq

inductive State where
  | database (state : DatabaseState)
  | note (state : NoteState)
  deriving DecidableEq

/-- What a store is for. -/
inductive Kind where
  | database
  | note
  deriving DecidableEq

namespace State

def kind : State → Kind
  | database _ => .database
  | note _ => .note

/-- The handle that is a member. -/
def hdl : State → Option Handle
  | database _ => none
  | note state => state.hdl

/-- The state that is owned by a member. -/
def db : State → Option StateId
  | database _ => none
  | note state => some state.db

end State

/-- A living state. -/
structure Cell where
  id : StateId
  address : Address
  state : State
  deriving DecidableEq

/-- `thread_handle`, with the address it is stored under. `state` is a weak pointer. -/
structure Entry where
  address : Address
  state : StateId
  handle : Handle
  deriving DecidableEq

/-- The native call that has opened a handle, on behalf of a state if it was made for one. -/
inductive Opening where
  | database (state : StateId) (path : List UInt8) (names : UInt32)
  | note (state : StateId) (db : Handle) (noteId : UInt32)
  | unid (db : Handle) (unid : Unid)
  | created (db : Handle)
  deriving DecidableEq

inductive Event where
  | opened (handle : Handle) (opening : Opening)
  | placed (kind : Kind) (handle : Handle) (state : StateId)
  | closed (handle : Handle)
  | died (state : StateId)
  | swept (kind : Kind)
  | ended
  deriving DecidableEq

/-- `owners` lists the objects of the program, and `trace` what has happened, the latest
first. `noteIds` is what the library knows of an open note. -/
structure World where
  heap : List Cell
  owners : List StateId
  stores : Kind → List Entry
  context : Bool
  noteIds : Handle → Option UInt32
  nextState : StateId
  nextHandle : Handle
  trace : List Event

namespace World

/-- At the start of the thread's context. -/
def start : World where
  heap := []
  owners := []
  stores := fun _ => []
  context := true
  noteIds := fun _ => none
  nextState := 0
  nextHandle := 1
  trace := []

def log (event : Event) (w : World) : World := { w with trace := event :: w.trace }

/-- `weak_ptr::lock`. -/
def lock (id : StateId) (w : World) : Option Cell := Table.lookup Cell.id id w.heap

/-! ## Handles in a store -/

/-- Entries leave a store, each closing its handle. -/
def eraseIf (kind : Kind) (p : Entry → Bool) (w : World) : World :=
  { w with
    stores := Function.update w.stores kind ((w.stores kind).filter (!p ·))
    trace := ((w.stores kind).filter p).map (fun entry => .closed entry.handle) ++ w.trace }

/-- `weak_ptr::expired`. -/
def expired (w : World) (entry : Entry) : Bool := (w.lock entry.state).isNone

def removeStale (kind : Kind) (w : World) : World := w.eraseIf kind w.expired

/-- A call of `remove_stale`, which the trace mentions. -/
def sweep (kind : Kind) (w : World) : World := (w.removeStale kind).log (.swept kind)

/-- A native call has opened the next handle. -/
def opens (opening : Opening) (noteId : Option UInt32) (w : World) : World :=
  { w.log (.opened w.nextHandle opening) with
    noteIds := Function.update w.noteIds w.nextHandle noteId
    nextHandle := w.nextHandle + 1 }

/-- A handle is moved into a new entry. -/
def place (kind : Kind) (entry : Entry) (w : World) : World :=
  { w.log (.placed kind entry.handle entry.state) with
    stores := Function.update w.stores kind (entry :: w.stores kind) }

/-- A `scoped_handle` goes out of scope. -/
def close (handle : Handle) (w : World) : World := w.log (.closed handle)

/-- `~thread_context`. -/
def endContext (w : World) : World :=
  let cleared := (w.eraseIf .database fun _ => true).eraseIf .note fun _ => true
  { cleared.log .ended with context := false }

/-! ## Lifetimes of states -/

/-- A state with the object that owns it. -/
def born (cell : Cell) (w : World) : World :=
  { w with
    heap := cell :: w.heap
    owners := cell.id :: w.owners
    nextState := w.nextState + 1 }

/-- An object or a member owns the state. -/
def owned (id : StateId) (w : World) : Bool :=
  id ∈ w.owners || w.heap.any fun cell => cell.state.db = some id

/-- A state that nothing owns is destroyed, with the handle that is its member. -/
def release (id : StateId) (w : World) : World :=
  if w.owned id then w
  else
    match w.lock id with
    | none => w
    | some cell =>
        let dead := { w.log (.died id) with heap := Table.erase Cell.id id w.heap }
        match cell.state.hdl with
        | none => dead
        | some handle => dead.close handle

def copy (id : StateId) (w : World) : World := { w with owners := id :: w.owners }

def forget (id : StateId) (w : World) : World := { w with owners := w.owners.erase id }

/-- An object is destroyed. The last one takes its state along, and what the state owns. -/
def drop (id : StateId) (w : World) : World :=
  match (w.lock id).bind fun cell => cell.state.db with
  | none => (w.forget id).release id
  | some db => ((w.forget id).release id).release db

/-- A state is assigned to. -/
def assign (id : StateId) (f : State → State) (w : World) : World :=
  { w with heap := Table.modify Cell.id id (fun cell => { cell with state := f cell.state }) w.heap }

end World

/-! ## Programs -/

/-- Where `make_shared` places a state: never where a living one is. -/
structure Allocator where
  choose : StateId → List Address → Address
  choose_not_mem : ∀ id used, choose id used ∉ used

/-- What the code works on. `noteId` is the identifier that the library reports for a note,
by the number of the call. -/
structure Env where
  native : Native
  codePage : CharCode Char UInt8
  allocator : Allocator
  noteId : Nat → UInt32

abbrev M (α : Type) := Native.M World α

variable (env : Env)

/-- `thread_context::current`. -/
def current : M Unit := do
  let w ← Native.value
  if w.context then pure ()
  else throw (.throws (.threadError "No Domino thread context exists on this thread"))

/-- `make_shared`. -/
def make (state : State) : M Cell := do
  let w ← Native.value
  let address := env.allocator.choose w.nextState (w.heap.map Cell.address)
  let cell : Cell := ⟨w.nextState, address, state⟩
  Native.update (World.born cell)
  pure cell

/-- An object in a scope that is left by an exception of `x`. -/
def owning {α : Type} (id : StateId) (x : M α) : M α :=
  tryCatch x fun stop => do
    Native.update (World.drop id)
    throw stop

/-- The handle that a native call has opened. -/
def opened (opening : Opening) (noteId : Option UInt32) : M Handle := do
  let w ← Native.value
  Native.update (World.opens opening noteId)
  pure w.nextHandle

/-- `thread_handle_store::find`. -/
def find (kind : Kind) (state : Cell) : M (Option Entry) := do
  let w ← Native.value
  match Table.lookup Entry.address state.address (w.stores kind) with
  | none => pure none
  | some entry =>
      if (w.lock entry.state).map Cell.address = some state.address then pure (some entry)
      else do
        Native.update (World.eraseIf kind fun entry => entry.address = state.address)
        pure none

/-- `thread_handle_store::insert`; the handle is closed if the address has an entry. -/
def insert (kind : Kind) (state : Cell) (handle : Handle) : M Entry := do
  let w ← Native.value
  match Table.lookup Entry.address state.address (w.stores kind) with
  | some entry => do
      Native.update (World.close handle)
      pure entry
  | none => do
      let entry : Entry := ⟨state.address, state.id, handle⟩
      Native.update (World.place kind entry)
      pure entry

end Dmn.ThreadContext
