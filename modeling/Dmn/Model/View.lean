import Dmn.Model.Cursor
import Dmn.Model.Lmbcs

/-! # `view`

The iteration over the entries of an open view. The calls of NIF and of the callback are
recorded in the state, so that they are known also where the iteration throws. -/

namespace Dmn

namespace View

structure QueryOptions where
  key : Option (List UInt8) := none
  count : UInt32 := 0xFFFFFFFF
  offset : UInt32 := 0

/-- A `NIFReadEntries` call; the navigation and the read mask are always the same. -/
structure Request (Pos : Type) where
  position : Pos
  skip : UInt32
  count : UInt32

/-- What `NIFReadEntries` returns. The buffer is missing when its handle is null. -/
structure Answer (Pos : Type) where
  status : Status
  position : Pos
  buffer : Option (List UInt8)
  entriesLength : UInt32
  signal : UInt16

/-- What `NIFFindByName` returns. -/
structure Found (Pos : Type) where
  status : Status
  position : Pos
  numMatches : UInt32

/-- NIF on the open collection. How far a read gets may depend on the calls before it. -/
structure Nif (Pos : Type) where
  start : Pos
  readEntries : List (Request Pos) → Request Pos → Answer Pos
  findByName : List UInt8 → Found Pos

def signalMoreToDo : UInt16 := 0x0020

def Answer.more {Pos : Type} (answer : Answer Pos) : Bool := answer.signal &&& signalMoreToDo ≠ 0

/-- An entry as the callback sees it; a `value` is its bytes. -/
structure Entry where
  noteid : UInt32
  columns : List (List UInt8)
  deriving DecidableEq, Repr

/-- `database::get_note` of the view's database, and the callback. The callback knows all
calls up to its own, and throws where it returns an exception. -/
structure Visitor (Note : Type) where
  getNote : UInt32 → Except Error (Option Note)
  func : List (Note × List (List UInt8)) → Option Error

structure State (Pos Note : Type) where
  position : Pos
  requests : List (Request Pos) := []
  calls : List (Note × List (List UInt8)) := []

abbrev M (Pos Note : Type) (α : Type) := Exec Stop (State Pos Note) α

/-! ## The entry buffer -/

def readLengths : ℕ → Cursor.M (List ℕ)
  | 0 => pure []
  | items + 1 => do
      let length ← Cursor.readInteger 2
      let rest ← readLengths items
      pure (length :: rest)

/-- The values of the item table. Items without a byte are skipped. -/
def readItems : List ℕ → Cursor.M (List (List UInt8))
  | [] => pure []
  | len :: rest => do
      if len = 0 then readItems rest
      else
        let bytes ← Cursor.load len
        Cursor.advanceOffset (UInt64.ofNat len)
        let values ← readItems rest
        pure (bytes :: values)

def readEntry : Cursor.M Entry := do
  let noteid ← Cursor.readInteger 4
  let base ← get
  let length ← Cursor.readInteger 2
  let items ← Cursor.readInteger 2
  let itemLengths ← readLengths items
  let columns ← readItems itemLengths
  Cursor.setOffset (base.offset + UInt64.ofNat length)
  pure ⟨UInt32.ofNat noteid, columns⟩

variable {Pos Note : Type} (nif : Nif Pos) (visitor : Visitor Note)

/-! ## Iteration -/

def visit (entry : Entry) : M Pos Note Unit := do
  match visitor.getNote entry.noteid with
  | .error error => throw (.throws error)
  | .ok none => pure ()
  | .ok (some note) => do
      modify fun s => { s with calls := s.calls ++ [(note, entry.columns)] }
      let s ← get
      match visitor.func s.calls with
      | some error => throw (.throws error)
      | none => pure ()

/-- The `for` loop over the entries of one buffer. -/
def readEntries : ℕ → Cursor → M Pos Note Unit
  | 0, _ => pure ()
  | n + 1, entriesObj =>
      match Exec.exec readEntry entriesObj with
      | (.error stop, _) => throw stop
      | (.ok entry, next) => do
          visit visitor entry
          readEntries n next

def nifReadEntries (skip count : UInt32) : M Pos Note (Answer Pos) := do
  let s ← get
  let request : Request Pos := ⟨s.position, skip, count⟩
  let answer := nif.readEntries s.requests request
  set { s with position := answer.position, requests := s.requests ++ [request] }
  pure answer

/-- The constructor of `detail::locker`. -/
def lock (buffer : Option (List UInt8)) : M Pos Note Cursor :=
  match buffer with
  | none => throw (.throws (.invalidHandle "Provided handle is empty"))
  | some bytes => pure (Cursor.make (some bytes))

private theorem remaining_decreases {count entriesLength : UInt32} (hempty : ¬ entriesLength = 0)
    (hdone : ¬ count ≤ entriesLength) : (count - entriesLength).toNat < count.toNat := by
  have hlt : entriesLength < count := UInt32.not_le.mp hdone
  have hpos : entriesLength.toNat ≠ 0 := fun h => hempty (UInt32.toNat_inj.mp h)
  rw [UInt32.toNat_sub_of_le _ _ (UInt32.le_of_lt hlt)]
  have hlt : entriesLength.toNat < count.toNat := hlt
  omega

/-- The `while` loop, entered with `SIGNAL_MORE_TO_DO` set. -/
def readLoop (remaining currentSkip : UInt32) : M Pos Note Unit :=
  if remaining = 0 then pure ()
  else do
    let answer ← nifReadEntries nif currentSkip remaining
    answer.status.throwIfError "Failed to read entries"
    let entriesObj ← lock answer.buffer
    if _hempty : answer.entriesLength = 0 then pure ()
    else do
      readEntries visitor answer.entriesLength.toNat entriesObj
      if _hdone : remaining ≤ answer.entriesLength then pure ()
      else if answer.more then readLoop (remaining - answer.entriesLength) 0
      else pure ()
  termination_by remaining.toNat
  decreasing_by exact remaining_decreases _hempty _hdone

def iterateEntries (opts : QueryOptions) (available : UInt32) : M Pos Note Unit :=
  let currentSkip := opts.offset
  if available ≤ currentSkip then pure ()
  else
    let remaining := min opts.count (available - currentSkip)
    let currentSkip :=
      if opts.key.isNone ∧ opts.offset ≠ 0xFFFFFFFF then currentSkip + 1 else currentSkip
    readLoop nif visitor remaining currentSkip

variable (codePage : CharCode Char UInt8)

/-- `iterate`, entered in a state at the start position. -/
def iterate (opts : QueryOptions) : M Pos Note Unit :=
  match opts.key with
  | none => iterateEntries nif visitor opts opts.count
  | some key =>
      if key = [] then iterateEntries nif visitor opts opts.count
      else do
        let found := nif.findByName (Lmbcs.fromString codePage key)
        if found.status.isNotFound then pure ()
        else do
          found.status.throwIfError "Failed to find entries by key"
          modify fun s => { s with position := found.position }
          iterateEntries nif visitor opts found.numMatches

/-- `get_entries`. Its callback keeps the id of the note with the columns, and never throws. -/
def getEntries (getNote : UInt32 → Except Error (Option Note)) (noteId : Note → UInt32)
    (opts : QueryOptions) : M Pos Note (List Entry) := do
  iterate nif ⟨getNote, fun _ => none⟩ codePage opts
  let s ← get
  pure (s.calls.map fun call => ⟨noteId call.1, call.2⟩)

/-- Before the first read and the first call. -/
def initial : State Pos Note := { position := nif.start }

end View

end Dmn
