import Dmn.Library.Exec
import Dmn.Library.Table
import Dmn.Model.Error

/-! # `scoped_handle`

Wrappers are objects of a program with several threads. Every operation is made by one of
them. The null handle is `default`, and an empty `std::function` is `none`. Any handle may be
wrapped, also one that was released or that another wrapper has; the wrappings are numbered. -/

namespace Dmn.ScopedHandle

abbrev ObjectId := Nat

/-- The members, and the number of the wrapping that `hdl` is from. -/
structure Wrapper (T Cleanup Thread : Type) where
  id : ObjectId
  hdl : T
  wrapping : Nat
  cleanup : Option Cleanup
  owner : Thread

/-- What happens to handles: one is wrapped, given away by `release`, or passed to a cleanup
function. The number is that of the wrapping. -/
inductive Event (T Cleanup Thread : Type) where
  | managed (wrapping : Nat) (handle : T) (cleanup : Option Cleanup) (thread : Thread)
  | released (wrapping : Nat) (handle : T)
  | cleaned (wrapping : Nat) (handle : T) (cleanup : Cleanup) (thread : Thread)
  deriving DecidableEq

/-- The living wrappers, those of them that were moved from, and the events, the latest first. -/
structure World (T Cleanup Thread : Type) where
  wrappers : List (Wrapper T Cleanup Thread)
  moved : List ObjectId
  nextId : ObjectId
  nextWrapping : Nat
  trace : List (Event T Cleanup Thread)
  terminated : Bool

inductive Failure where
  | stops (stop : Stop)
  | terminates

variable {T Cleanup Thread : Type} [DecidableEq T] [Inhabited T] [DecidableEq Thread]

namespace World

def start : World T Cleanup Thread := ⟨[], [], 0, 0, [], false⟩

def log (event : Event T Cleanup Thread) (w : World T Cleanup Thread) : World T Cleanup Thread :=
  { w with trace := event :: w.trace }

/-- A handle is wrapped, under the next number. -/
def wrap (handle : T) (cleanup : Option Cleanup) (thread : Thread) (w : World T Cleanup Thread) :
    World T Cleanup Thread :=
  { w.log (.managed w.nextWrapping handle cleanup thread) with nextWrapping := w.nextWrapping + 1 }

def modify (id : ObjectId) (f : Wrapper T Cleanup Thread → Wrapper T Cleanup Thread)
    (w : World T Cleanup Thread) : World T Cleanup Thread :=
  { w with wrappers := Table.modify Wrapper.id id f w.wrappers }

/-- The member `hdl_` is assigned to. -/
def setHdl (id : ObjectId) (hdl : T) (wrapping : Nat) (w : World T Cleanup Thread) :
    World T Cleanup Thread :=
  w.modify id fun self => { self with hdl := hdl, wrapping := wrapping }

/-- The member `hdl_` is set to null. -/
def clear (id : ObjectId) (w : World T Cleanup Thread) : World T Cleanup Thread :=
  w.modify id fun self => { self with hdl := default }

def born (hdl : T) (wrapping : Nat) (cleanup : Option Cleanup) (owner : Thread)
    (w : World T Cleanup Thread) : World T Cleanup Thread :=
  { w with
    wrappers := ⟨w.nextId, hdl, wrapping, cleanup, owner⟩ :: w.wrappers
    nextId := w.nextId + 1 }

/-- A wrapper is moved from. Its function is left in some state. -/
def moveOut (id : ObjectId) (left : Option Cleanup) (w : World T Cleanup Thread) :
    World T Cleanup Thread :=
  { w.modify id fun self => { self with hdl := default, cleanup := left } with
    moved := id :: w.moved }

/-- The members of `source` are moved to a wrapper, which can be used again. -/
def moveIn (id : ObjectId) (source : Wrapper T Cleanup Thread) (w : World T Cleanup Thread) :
    World T Cleanup Thread :=
  { w.modify id fun self => { source with id := self.id } with
    moved := w.moved.filter (· ≠ id) }

def erase (id : ObjectId) (w : World T Cleanup Thread) : World T Cleanup Thread :=
  { w with wrappers := Table.erase Wrapper.id id w.wrappers }

end World

abbrev M (T Cleanup Thread α : Type) := Exec Failure (World T Cleanup Thread) α

/-! ## Methods -/

/-- `*this`. -/
def this (id : ObjectId) : M T Cleanup Thread (Wrapper T Cleanup Thread) := do
  let w ← get
  match Table.lookup Wrapper.id id w.wrappers with
  | none => throw (.stops .undefined)
  | some self => pure self

def checkThread (thread : Thread) (id : ObjectId) : M T Cleanup Thread Unit := do
  let self ← this id
  if self.owner = thread then pure ()
  else throw (.stops (.throws (.threadAccessError "Handle accessed from non-owning thread")))

/-- The destructor and the assignment terminate where `check_thread` throws. -/
def terminateUnlessOwner (thread : Thread) (id : ObjectId) : M T Cleanup Thread Unit := do
  let self ← this id
  if self.owner = thread then pure () else throw .terminates

def resetUnchecked (thread : Thread) (id : ObjectId) : M T Cleanup Thread Unit := do
  let self ← this id
  match self.cleanup with
  | none => pure ()
  | some cleanup =>
      if self.hdl = default then pure ()
      else do
        modify (World.log (.cleaned self.wrapping self.hdl cleanup thread))
        modify (World.clear id)

def release (thread : Thread) (id : ObjectId) : M T Cleanup Thread T := do
  checkThread thread id
  let self ← this id
  modify (World.log (.released self.wrapping self.hdl))
  modify (World.clear id)
  pure self.hdl

def reset (thread : Thread) (id : ObjectId) : M T Cleanup Thread Unit := do
  checkThread thread id
  resetUnchecked thread id

def put (thread : Thread) (id : ObjectId) (handle : T) : M T Cleanup Thread Unit := do
  checkThread thread id
  reset thread id
  let self ← this id
  let w ← MonadState.get
  modify (World.wrap handle self.cleanup self.owner)
  modify (World.setHdl id handle w.nextWrapping)

def get (thread : Thread) (id : ObjectId) : M T Cleanup Thread T := do
  checkThread thread id
  let self ← this id
  if self.hdl = default then throw (.stops (.throws (.invalidHandle "Empty handle accessed")))
  else pure self.hdl

/-! ## Construction, moves and destruction -/

def construct (thread : Thread) (handle : T) (cleanup : Option Cleanup) :
    M T Cleanup Thread Unit := do
  let w ← MonadState.get
  modify (World.wrap handle cleanup thread)
  modify (World.born handle w.nextWrapping cleanup thread)

/-- The constructor without a handle, which is no wrapping. -/
def constructEmpty (thread : Thread) (cleanup : Option Cleanup) : M T Cleanup Thread Unit :=
  modify (World.born default 0 cleanup thread)

def moveConstruct (other : ObjectId) (left : Option Cleanup) : M T Cleanup Thread Unit := do
  let source ← this other
  modify (World.moveOut other left)
  modify (World.born source.hdl source.wrapping source.cleanup source.owner)

def moveAssign (thread : Thread) (id other : ObjectId) (left : Option Cleanup) :
    M T Cleanup Thread Unit :=
  if id = other then pure ()
  else do
    terminateUnlessOwner thread id
    resetUnchecked thread id
    let source ← this other
    modify (World.moveOut other left)
    modify (World.moveIn id source)

def destroy (thread : Thread) (id : ObjectId) : M T Cleanup Thread Unit := do
  terminateUnlessOwner thread id
  resetUnchecked thread id
  modify (World.erase id)

/-! ## Runs -/

inductive Op (T Cleanup Thread : Type) where
  | construct (handle : T) (cleanup : Option Cleanup)
  | constructEmpty (cleanup : Option Cleanup)
  | put (id : ObjectId) (handle : T)
  | release (id : ObjectId)
  | reset (id : ObjectId)
  | get (id : ObjectId)
  | moveConstruct (other : ObjectId) (left : Option Cleanup)
  | moveAssign (id other : ObjectId) (left : Option Cleanup)
  | destroy (id : ObjectId)

def World.alive (id : ObjectId) (w : World T Cleanup Thread) : Bool :=
  w.wrappers.any fun self => self.id = id

/-- The wrapper lives and was not moved from. -/
def World.usable (id : ObjectId) (w : World T Cleanup Thread) : Bool := w.alive id && id ∉ w.moved

namespace Op

/-- The operation is one that callers make. -/
def able (w : World T Cleanup Thread) : Op T Cleanup Thread → Bool
  | construct _ _ => true
  | constructEmpty _ => true
  | put id _ => w.usable id
  | release id | reset id | get id => w.usable id
  | moveConstruct other _ => w.usable other
  | moveAssign id other _ => w.alive id && w.usable other
  | destroy id => w.alive id

def perform (thread : Thread) : Op T Cleanup Thread → M T Cleanup Thread Unit
  | construct handle cleanup => ScopedHandle.construct thread handle cleanup
  | constructEmpty cleanup => ScopedHandle.constructEmpty thread cleanup
  | put id handle => ScopedHandle.put thread id handle
  | release id => discard (ScopedHandle.release thread id)
  | reset id => ScopedHandle.reset thread id
  | get id => discard (ScopedHandle.get thread id)
  | moveConstruct other left => ScopedHandle.moveConstruct other left
  | moveAssign id other left => ScopedHandle.moveAssign thread id other left
  | destroy id => ScopedHandle.destroy thread id

end Op

/-- A thread makes an operation. Exceptions are caught; a process that was terminated does
nothing more. -/
def step (w : World T Cleanup Thread) (call : Thread × Op T Cleanup Thread) :
    World T Cleanup Thread :=
  if w.terminated || !call.2.able w then w
  else
    match Exec.exec (call.2.perform call.1) w with
    | (.error .terminates, t) => { t with terminated := true }
    | (_, t) => t

end Dmn.ScopedHandle
