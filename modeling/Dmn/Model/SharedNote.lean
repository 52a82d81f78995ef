import Mathlib.Logic.Function.Basic
import Dmn.Model.NoteValue

/-! # A note that threads share

The object has been saved, so that its state has no handle, and it lives as long as the threads
use it. The entry that a thread's store has for it is then never stale, and `find` gives it. A
handle is a copy of the items of the note. -/

namespace Dmn

structure SharedNote (Thread : Type) where
  stored : List Item
  handles : Thread → Option (List Item)

namespace SharedNote

abbrev M (Thread α : Type) := Native.M (SharedNote Thread) α

variable {Thread : Type} [DecidableEq Thread] (env : NoteValue.Env) {α : Type}

/-- A handle is put into the store of a thread, or its items are changed. -/
def withHandle (note : SharedNote Thread) (thread : Thread) (items : List Item) :
    SharedNote Thread :=
  { note with handles := Function.update note.handles thread (some items) }

/-- `get_handle`. `NSFNoteOpen` copies the note as it is stored. -/
def getHandle (thread : Thread) : M Thread (List Item) := do
  let note ← Native.value
  match note.handles thread with
  | some items => pure items
  | none => do
      let result ← Native.call env.native
      result.throwIfError "Failed to open note"
      Native.update fun note => note.withHandle thread note.stored
      pure note.stored

/-- A method on the items of the thread's handle. The calls of `get_handle` behind the first
one find what that one has stored. -/
def onHandle (thread : Thread) (x : Note.M α) : M Thread α := do
  let items ← getHandle env thread
  Native.part (fun _ => items) (fun items note => note.withHandle thread items) x

def get (thread : Thread) (key : List UInt8) : M Thread (Option (UInt16 × List UInt8)) :=
  onHandle env thread (NoteValue.getItemValue env key)

/-- `set`, after `note_value::apply`. -/
def set (thread : Thread) (key : List UInt8) (type : UInt16) (buffer : List UInt8)
    (flags : UInt16) : M Thread Unit :=
  onHandle env thread (Note.set env.codePage env.native key type buffer flags)

def erase (thread : Thread) (key : List UInt8) : M Thread Unit :=
  onHandle env thread (Note.erase env.codePage env.native key)

/-- `save(true)`. `NSFNoteUpdate` with `UPDATE_FORCE` stores the items of the handle. -/
def save (thread : Thread) : M Thread Unit := do
  let items ← getHandle env thread
  let result ← Native.call env.native
  result.throwIfError "Failed to save note"
  Native.update fun note => { note with stored := items }

/-- `~thread_context`, for a thread that may get a new context. -/
def endContext (thread : Thread) : M Thread Unit :=
  Native.update fun note => { note with handles := Function.update note.handles thread none }

inductive Op (Thread : Type) where
  | get (thread : Thread) (key : List UInt8)
  | set (thread : Thread) (key : List UInt8) (type : UInt16) (buffer : List UInt8)
      (flags : UInt16)
  | erase (thread : Thread) (key : List UInt8)
  | save (thread : Thread)
  | endContext (thread : Thread)

end SharedNote

end Dmn
