import Dmn.Library.Run
import Mathlib.Data.Nat.Notation
import Mathlib.Logic.Function.Basic

/-! # `session`, `thread_context` and `thread`

The threads of a program, in any interleaving. The function `session::instance` has two static
objects, each with a guard that other threads wait for. -/

namespace Dmn.Threads

abbrev ThreadId := ℕ

/-- The thread that `main` runs on, and that destroys the static objects. -/
def mainThread : ThreadId := 0

/-- A static object with its guard, and the thread that constructs it or has constructed it. -/
inductive Guard where
  | free
  | running (thread : ThreadId)
  | done (thread : ThreadId)
  | destroyed
  deriving DecidableEq

/-- What a thread calls `session::instance` for. -/
inductive Purpose where
  | call
  | spawn
  deriving DecidableEq

/-- Where a thread is. In `session::instance` it constructs `s`, is between the two objects, or
constructs `ctx`. A thread is starting before its own context is there, and leaving once it has
destroyed the static context. -/
inductive Control where
  | absent
  | idle
  | session (purpose : Purpose)
  | between (purpose : Purpose)
  | context (purpose : Purpose)
  | starting
  | leaving
  | ended
  deriving DecidableEq

/-- The object `ctx` of `session::instance`, or of the function of a `thread`. -/
inductive Context where
  | static
  | ofThread (thread : ThreadId)
  deriving DecidableEq

/-- A handle in a context, and the thread that opened it. -/
structure Entry where
  context : Context
  thread : ThreadId
  hdl : ℕ
  deriving DecidableEq

/-- The native calls, and the ways in which the program stops: `std::terminate`, and behaviour that is
not defined. -/
inductive Event where
  | notesInit (ok : Bool)
  | notesInitThread (thread : ThreadId)
  | opened (thread : ThreadId) (hdl : ℕ)
  | closed (thread : ThreadId) (hdl : ℕ)
  | notesTermThread (thread : ThreadId)
  | ended (thread : ThreadId)
  | notesTerm
  | terminated
  | undefined
  deriving DecidableEq

/-- `current` is `current_context()` of each thread, and `next` the next thread to be started. Nothing
happens any more in a program that is halted. -/
structure World where
  session : Guard
  context : Guard
  control : ThreadId → Control
  current : ThreadId → Option Context
  handles : List Entry
  nextHandle : ℕ
  next : ThreadId
  halted : Bool

namespace World

/-- Only the thread of `main` is there. -/
def start : World where
  session := .free
  context := .free
  control := Function.update (fun _ => .absent) mainThread .idle
  current _ := none
  handles := []
  nextHandle := 1
  next := 1
  halted := false

def goTo (thread : ThreadId) (control : Control) (w : World) : World :=
  { w with control := Function.update w.control thread control }

def setCurrent (thread : ThreadId) (context : Option Context) (w : World) : World :=
  { w with current := Function.update w.current thread context }

/-- A thread more. -/
def adds (control : Control) (w : World) : World :=
  { w.goTo w.next control with next := w.next + 1 }

/-- `session::instance` returns. -/
def returns (thread : ThreadId) : Purpose → World → World
  | .call, w => w.goTo thread .idle
  | .spawn, w => (w.goTo thread .idle).adds .starting

/-- The handles of a context. -/
def stored (context : Context) (w : World) : List Entry :=
  w.handles.filter fun entry => entry.context = context

/-- `~thread_context`, on a thread. -/
def destroyContext (thread : ThreadId) (context : Context) (w : World) : World :=
  { w with handles := w.handles.filter fun entry => entry.context ≠ context }.setCurrent thread none

/-- `storage_.clear()` and the call behind it. The destructor of a handle that another thread has
opened terminates. -/
def clears (thread : ThreadId) : List Entry → List Event
  | [] => [.notesTermThread thread]
  | entry :: entries =>
      if entry.thread = thread then .closed thread entry.hdl :: clears thread entries
      else [.terminated]

/-- The native calls of `~thread_context`. -/
def contextEnds (thread : ThreadId) (context : Context) (w : World) : List Event :=
  clears thread (w.stored context)

/-- The context has handles of another thread. -/
def foreign (thread : ThreadId) (context : Context) (w : World) : Bool :=
  (w.stored context).any fun entry => entry.thread ≠ thread

def halt (w : World) : World := { w with halted := true }

end World

/-- What a thread does next. A thread that waits for a guard does nothing. -/
inductive Move where
  /-- Starts a thread that is not a `thread`. -/
  | start
  /-- Calls `session::instance`. -/
  | instance (purpose : Purpose)
  /-- Goes on in `session::instance`, where `ok` is the success of `NotesInit`. -/
  | proceed (ok : Bool)
  /-- Constructs its own context. -/
  | begin
  /-- Opens a handle that `thread_context::current` stores. -/
  | open
  /-- Closes a handle that `thread_context::current` stores. -/
  | close (hdl : ℕ)
  /-- Returns from its function. -/
  | finish
  /-- Destroys the next static object, on the thread of `main`. -/
  | exit
  deriving DecidableEq

structure Label where
  thread : ThreadId
  move : Move
  deriving DecidableEq

open World

/-- `session::instance`, up to the next guard. -/
def proceed (thread : ThreadId) (ok : Bool) (w : World) : World × List Event :=
  match w.control thread with
  | .session purpose =>
      if ok then
        ({ w with session := .done thread }.goTo thread (.between purpose), [.notesInit true])
      -- The constructor of the error calls `session::instance`, whose object is being constructed.
      else (w.halt, [.notesInit false, .undefined])
  | .between purpose =>
      match w.context with
      | .done _ => (w.returns thread purpose, [])
      | .destroyed => (w.returns thread purpose, [])
      | .running _ => (w, [])
      | .free =>
          -- The constructor of the context throws if there is one.
          if w.current thread = none then
            (({ w with context := .running thread }.goTo thread (.context purpose)).setCurrent
              thread (some .static), [])
          else (w.goTo thread .idle, [])
  | .context purpose =>
      ({ w with context := .done thread }.returns thread purpose, [.notesInitThread thread])
  | _ => (w, [])

def enterInstance (thread : ThreadId) (purpose : Purpose) (w : World) : World × List Event :=
  match w.session with
  | .done _ => (w.goTo thread (.between purpose), [])
  | .destroyed => (w.goTo thread (.between purpose), [])
  | .running _ => (w, [])
  | .free => ({ w with session := .running thread }.goTo thread (.session purpose), [])

def openHandle (thread : ThreadId) (w : World) : World × List Event :=
  match w.current thread with
  | none => (w, [])
  | some context =>
      ({ w with
        handles := ⟨context, thread, w.nextHandle⟩ :: w.handles
        nextHandle := w.nextHandle + 1 }, [.opened thread w.nextHandle])

def closeHandle (thread : ThreadId) (hdl : ℕ) (w : World) : World × List Event :=
  match w.current thread with
  | none => (w, [])
  | some context =>
      if ⟨context, thread, hdl⟩ ∈ w.handles then
        ({ w with handles := w.handles.erase ⟨context, thread, hdl⟩ }, [.closed thread hdl])
      else (w, [])

/-- The function of a thread returns. -/
def finish (thread : ThreadId) (w : World) : World × List Event :=
  if w.current thread = some (.ofThread thread) then
    if w.foreign thread (.ofThread thread) then (w.halt, w.contextEnds thread (.ofThread thread))
    else ((w.destroyContext thread (.ofThread thread)).goTo thread .ended,
      w.contextEnds thread (.ofThread thread) ++ [.ended thread])
  else (w.goTo thread .ended, [.ended thread])

/-- The static objects are destroyed in the order opposite to their construction. -/
def exit (w : World) : World × List Event :=
  match w.control mainThread with
  | .idle =>
      match w.context with
      | .done _ =>
          if w.foreign mainThread .static then (w.halt, w.contextEnds mainThread .static)
          else (({ w with context := .destroyed }.destroyContext mainThread .static).goTo mainThread
            .leaving, w.contextEnds mainThread .static)
      | _ => (w.goTo mainThread .leaving, [])
  | .leaving =>
      match w.session with
      | .done _ => ({ w with session := .destroyed }.goTo mainThread .ended, [.notesTerm])
      | _ => (w.goTo mainThread .ended, [])
  | _ => (w, [])

/-- A move of a thread, and its native calls. -/
def act (label : Label) (w : World) : World × List Event :=
  if w.halted then (w, [])
  else match label.move with
  | .proceed ok => proceed label.thread ok w
  | .begin =>
      if w.control label.thread = .starting then
        ((w.setCurrent label.thread (some (.ofThread label.thread))).goTo label.thread .idle,
          [.notesInitThread label.thread])
      else (w, [])
  | .exit => if label.thread = mainThread then exit w else (w, [])
  | move =>
      if w.control label.thread = .idle then
        match move with
        | .start => (w.adds .idle, [])
        | .instance purpose => enterInstance label.thread purpose w
        | .open => openHandle label.thread w
        | .close hdl => closeHandle label.thread hdl w
        | .finish => if label.thread = mainThread then (w, []) else finish label.thread w
        | _ => (w, [])
      else (w, [])

def step (w : World) (label : Label) : World := (act label w).1

def emit (w : World) (label : Label) : List Event := (act label w).2

/-- The native calls of a program, in their order. -/
def trace (labels : List Label) : List Event := Run.emitted step emit World.start labels

end Dmn.Threads
