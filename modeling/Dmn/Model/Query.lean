import Dmn.Library.Ascending
import Dmn.Model.Dql
import Dmn.Model.Lmbcs
import Dmn.Model.Native

/-! # `database::run_query`

What the database does for a query is recorded in the state, so that it is known also where
the query throws. -/

namespace Dmn.Query

/-- An ID table, as `IDScan` goes through it. -/
structure IdTable where
  ids : List UInt32
  sorted : ids.Pairwise (· < ·)

/-- `IDScan`: the first identifier, or the first one behind `noteId`. -/
def IdTable.scan (table : IdTable) (first : Bool) (noteId : UInt32) : Option UInt32 :=
  Ascending.next (· < ·) table.ids (if first then none else some noteId)

/-- `database::get_handle`, `NSFQueryDBExt2` and `database::get_note`. A note is opened knowing
how many were tried before. -/
structure Env (Note : Type) where
  codePage : CharCode Char UInt8
  getHandle : Except Error Unit
  query : List UInt8 → Except Status IdTable
  getNote : ℕ → UInt32 → Except Error (Option Note)

structure State where
  queries : List (List UInt8) := []
  scans : ℕ := 0
  tried : List UInt32 := []
  freed : ℕ := 0
  deriving DecidableEq

abbrev M (α : Type) := Exec Stop State α

/-- `MAX_DQL_ENTRIES`. -/
def maxDqlEntries : ℕ := 0xffff

variable {Note : Type} (env : Env Note)

def nsfQuery (converted : List UInt8) : M IdTable := do
  modify fun s => { s with queries := s.queries ++ [converted] }
  match env.query converted with
  | .error status => throw (.throws (.nativeError "Failed to run DQL query" status))
  | .ok table => pure table

def getNote (noteId : UInt32) : M (Option Note) := do
  let s ← get
  set { s with tried := s.tried ++ [noteId] }
  match env.getNote s.tried.length noteId with
  | .error error => throw (.throws error)
  | .ok note => pure note

/-- The identifiers that a scan has still to go through. -/
def IdTable.ahead (table : IdTable) (first : Bool) (noteId : UInt32) : List UInt32 :=
  Ascending.ahead (· < ·) table.ids (if first then none else some noteId)

theorem IdTable.ahead_scan (table : IdTable) {first : Bool} {noteId next : UInt32}
    (h : table.scan first noteId = some next) :
    table.ahead first noteId = next :: table.ahead false next :=
  Ascending.ahead_next (fun _ _ _ => UInt32.lt_trans) (fun _ _ => UInt32.lt_asymm) table.sorted h

private theorem ahead_decreases (table : IdTable) {first : Bool} {noteId next : UInt32}
    (h : table.scan first noteId = some next) :
    (table.ahead false next).length < (table.ahead first noteId).length := by
  rw [table.ahead_scan h]
  exact Nat.lt_succ_self _

/-- The `while` loop. -/
def scanLoop (table : IdTable) (maxEntries : ℕ) (first : Bool) (noteId : UInt32)
    (output : List Note) : M (List Note) := do
  modify fun s => { s with scans := s.scans + 1 }
  match _hscan : table.scan first noteId with
  | none => pure output
  | some noteId =>
      if output.length < maxEntries then do
        let note ← getNote env noteId
        scanLoop table maxEntries false noteId (output ++ note.toList)
      else pure output
  termination_by (table.ahead first noteId).length
  decreasing_by exact ahead_decreases table _hscan

/-- A block that the scope frees. -/
def managed {α : Type} (x : M α) : M α := do
  let result ← tryCatch x fun stop => do
    modify fun s => { s with freed := s.freed + 1 }
    throw stop
  modify fun s => { s with freed := s.freed + 1 }
  pure result

def runQuery (query : Dql.Expression) (limit : ℕ) : M (List Note) := do
  let input ← Exec.ofExcept ((Dql.render query).mapError Stop.throws)
  -- the characters of the text are its bytes
  let converted := Lmbcs.fromString env.codePage (Lmbcs.asciiBytes input)
  Exec.ofExcept (env.getHandle.mapError Stop.throws)
  let table ← nsfQuery env converted
  managed (scanLoop env table (min maxDqlEntries limit) true 0 [])

end Dmn.Query
