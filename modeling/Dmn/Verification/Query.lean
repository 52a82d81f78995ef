import Dmn.Model.Query

/-! # The notes that a query returns

The loop goes through the identifiers of the table in their order, and ends with the first note
that cannot be opened, with the last identifier, or when it has enough notes. -/

namespace Dmn.Query

open Exec

variable {Note : Type} {env : Env Note}

/-! ## Attempts -/

/-- What comes of trying a note. -/
abbrev Attempt (Note : Type) := Except Error (Option Note)

namespace Attempt

def passes : Attempt Note → Bool
  | .ok _ => true
  | .error _ => false

def note : Attempt Note → Option Note
  | .ok note => note
  | .error _ => none

end Attempt

/-- The attempts on the identifiers of a table behind `tried` others. -/
def attempts (env : Env Note) (tried : ℕ) (ids : List UInt32) : List (Attempt Note) :=
  ids.mapIdx fun i noteId => env.getNote (tried + i) noteId

theorem attempts_cons (env : Env Note) (tried : ℕ) (noteId : UInt32) (ids : List UInt32) :
    attempts env tried (noteId :: ids) =
      env.getNote tried noteId :: attempts env (tried + 1) ids := by
  simp [attempts, List.mapIdx_cons, Nat.add_assoc, Nat.add_comm 1]

/-- The notes of the attempts in front of the first one that fails. -/
def found (as : List (Attempt Note)) : List Note :=
  (as.takeWhile Attempt.passes).filterMap Attempt.note

/-- The result of the loop, from the notes that it has already. -/
def collect (limit : ℕ) (output : List Note) (as : List (Attempt Note)) :
    Except Error (List Note) :=
  match as.dropWhile Attempt.passes with
  | .error error :: _ =>
      if limit ≤ output.length + (found as).length then .ok ((output ++ found as).take limit)
      else .error error
  | _ => .ok ((output ++ found as).take limit)

/-- How many attempts the loop makes. -/
def needed (limit : ℕ) : ℕ → List (Attempt Note) → ℕ
  | _, [] => 0
  | count, .error _ :: _ => if count < limit then 1 else 0
  | count, .ok note :: as =>
      if count < limit then needed limit (count + note.toList.length) as + 1 else 0

theorem found_ok (note : Option Note) (as : List (Attempt Note)) :
    found (.ok note :: as) = note.toList ++ found as := by
  cases note <;> rfl

theorem dropWhile_ok (note : Option Note) (as : List (Attempt Note)) :
    (.ok note :: as : List (Attempt Note)).dropWhile Attempt.passes =
      as.dropWhile Attempt.passes := rfl

theorem collect_of_full {limit : ℕ} {output : List Note} (h : output.length = limit)
    (as : List (Attempt Note)) : collect limit output as = .ok output := by
  have htake : (output ++ found as).take limit = output := by simp [← h]
  unfold collect
  split
  · rw [if_pos (by omega), htake]
  · rw [htake]

theorem collect_ok (limit : ℕ) (output : List Note) (note : Option Note)
    (as : List (Attempt Note)) :
    collect limit output (.ok note :: as) = collect limit (output ++ note.toList) as := by
  simp only [collect, dropWhile_ok, found_ok, List.length_append, List.append_assoc, Nat.add_assoc]

theorem collect_error {limit : ℕ} {output : List Note} (h : output.length < limit) (error : Error)
    (as : List (Attempt Note)) : collect limit output (.error error :: as) = .error error := by
  have hnone : ¬ limit ≤ output.length + (found (.error error :: as : List (Attempt Note))).length :=
    Nat.not_le.mpr h
  exact if_neg hnone

/-- No attempt is made when there are enough notes. -/
theorem found_lt_of_lt_needed {limit count k : ℕ} {as : List (Attempt Note)}
    (h : k < needed limit count as) : count + (found (as.take k)).length < limit := by
  induction as generalizing count k with
  | nil => cases h
  | cons a as ih =>
      have hcount : count < limit := by
        by_contra hfull
        cases a <;> simp [needed, hfull] at h
      cases k with
      | zero => simpa [found] using hcount
      | succ k =>
          cases a with
          | error error => simp [needed, hcount] at h
          | ok note =>
              simp only [needed, if_pos hcount, Nat.add_lt_add_iff_right] at h
              have hrest := ih h
              rw [List.take_succ_cons, found_ok, List.length_append]
              omega

/-! ## The loop -/

theorem exec_getNote (env : Env Note) (noteId : UInt32) (s : State) : exec (getNote env noteId) s =
    ((env.getNote s.tried.length noteId).mapError Stop.throws,
      { s with tried := s.tried ++ [noteId] }) := by
  rw [getNote, exec_bind_of_ok (exec_get s)]
  cases env.getNote s.tried.length noteId <;> rfl

/-- Behind the loop, which has scanned once more if it was not stopped. -/
def State.behind (ids : List UInt32) (tries : ℕ) (ended : Bool) (s : State) : State :=
  { s with
    scans := s.scans + tries + (if ended then 1 else 0)
    tried := s.tried ++ ids.take tries }

theorem scan_of_nil {table : IdTable} {first : Bool} {noteId : UInt32}
    (h : table.ahead first noteId = []) : table.scan first noteId = none := by
  cases hnext : table.scan first noteId with
  | none => rfl
  | some next =>
      rw [table.ahead_scan hnext] at h
      cases h

theorem scan_of_cons {table : IdTable} {first : Bool} {noteId next : UInt32} {rest : List UInt32}
    (h : table.ahead first noteId = next :: rest) :
    table.scan first noteId = some next ∧ table.ahead false next = rest := by
  cases hnext : table.scan first noteId with
  | none =>
      have hnil := Ascending.ahead_eq_nil hnext
      rw [← IdTable.ahead, h] at hnil
      cases hnil
  | some found =>
      rw [table.ahead_scan hnext] at h
      obtain ⟨rfl, hrest⟩ := List.cons.inj h
      exact ⟨rfl, hrest⟩

theorem exec_scanLoop (env : Env Note) (table : IdTable) {limit : ℕ} {ids : List UInt32} {first : Bool}
    {noteId : UInt32} {output : List Note} (hahead : table.ahead first noteId = ids)
    (hlimit : output.length ≤ limit) (s : State) :
    exec (scanLoop env table limit first noteId output) s =
      ((collect limit output (attempts env s.tried.length ids)).mapError Stop.throws,
        s.behind ids (needed limit output.length (attempts env s.tried.length ids))
          (collect limit output (attempts env s.tried.length ids)).isOk) := by
  induction ids generalizing first noteId output s with
  | nil =>
      have hscan := scan_of_nil hahead
      have hfull : output.take limit = output := List.take_of_length_le hlimit
      have hcollect : collect limit output (attempts env s.tried.length []) = .ok output := by
        rw [attempts, List.mapIdx_nil]
        simp [collect, found, hfull]
      rw [hcollect, scanLoop, exec_bind_of_ok (exec_modify _ _)]
      split
      · simp [State.behind, attempts, needed, Except.isOk, Except.toBool, Except.mapError]
      · next heq =>
        rw [hscan] at heq
        cases heq
  | cons next rest ih =>
      obtain ⟨hscan, hrest⟩ := scan_of_cons hahead
      rw [scanLoop, exec_bind_of_ok (exec_modify _ _), attempts_cons]
      split
      · next heq =>
        rw [hscan] at heq
        cases heq
      · next found heq =>
        obtain rfl : next = found := Option.some.inj (hscan.symm.trans heq)
        by_cases hfull : output.length < limit
        · rw [if_pos hfull]
          have hnote := exec_getNote env next { s with scans := s.scans + 1 }
          cases hresult : env.getNote s.tried.length next with
          | error error =>
              rw [hresult] at hnote
              rw [exec_bind_of_error hnote, collect_error hfull]
              simp [State.behind, needed, hfull, Except.isOk, Except.toBool, Except.mapError]
          | ok note =>
              rw [hresult] at hnote
              have hlength : (output ++ note.toList).length ≤ limit := by
                cases note <;> simp <;> omega
              rw [exec_bind_of_ok hnote, ih hrest hlength, collect_ok]
              have htried : (s.tried ++ [next]).length = s.tried.length + 1 := by simp
              simp only [htried, needed, if_pos hfull, List.length_append]
              simp [State.behind, Nat.add_assoc, Nat.add_comm 1]
        · have heq : output.length = limit := Nat.le_antisymm hlimit (Nat.not_lt.mp hfull)
          have hneeded : needed limit output.length (env.getNote s.tried.length next ::
              attempts env (s.tried.length + 1) rest) = 0 := by
            cases env.getNote s.tried.length next <;> simp [needed, hfull]
          rw [if_neg hfull, collect_of_full heq, hneeded]
          simp [State.behind, Except.isOk, Except.toBool, Except.mapError]

theorem exec_managed {α : Type} (x : M α) (s : State) : exec (managed x) s =
    ((exec x s).1, { (exec x s).2 with freed := (exec x s).2.freed + 1 }) := by
  rcases hx : exec x s with ⟨stop | a, t⟩
  · have hcatch : exec (tryCatch x fun stop => do
        modify fun s => { s with freed := s.freed + 1 }
        throw stop) s = (.error stop, { t with freed := t.freed + 1 }) := by
      rw [exec_tryCatch, hx]
      rfl
    rw [managed, exec_bind_of_error hcatch]
  · have hcatch : exec (tryCatch x fun stop => do
        modify fun s => { s with freed := s.freed + 1 }
        throw stop) s = (.ok a, t) := by
      rw [exec_tryCatch, hx]
    rw [managed, exec_bind_of_ok hcatch]
    rfl

/-! ## Queries -/

/-- A query returns the first notes of the table, up to the limit, unless a note in front of them
cannot be opened. No note is tried after the last one that is returned, and the table is freed
once, also where the query throws. -/
theorem runQuery_result (env : Env Note) (query : Dql.Expression) {text : List Char}
    {table : IdTable} (limit : ℕ) (hrender : Dql.render query = .ok text)
    (hhandle : env.getHandle = .ok ())
    (hquery : env.query (Lmbcs.fromString env.codePage (Lmbcs.asciiBytes text)) = .ok table) :
    let as := attempts env 0 table.ids
    let limit' := min maxDqlEntries limit
    let n := needed limit' 0 as
    exec (runQuery env query limit) {} = ((collect limit' [] as).mapError Stop.throws,
      { queries := [Lmbcs.fromString env.codePage (Lmbcs.asciiBytes text)]
        scans := n + (if (collect limit' [] as).isOk then 1 else 0)
        tried := table.ids.take n
        freed := 1 }) ∧
      ∀ k < n, (found (as.take k)).length < limit' := by
  intro as limit' n
  let asked : State := { queries := [Lmbcs.fromString env.codePage (Lmbcs.asciiBytes text)] }
  have hloop : exec (scanLoop env table limit' true 0 []) asked = _ :=
    exec_scanLoop env table rfl (Nat.zero_le _) asked
  have hasked : exec (nsfQuery env (Lmbcs.fromString env.codePage (Lmbcs.asciiBytes text))) {} =
      (.ok table, asked) := by
    rw [nsfQuery, exec_bind_of_ok (exec_modify _ _), hquery]
    rfl
  constructor
  · rw [runQuery, hrender, hhandle]
    refine (exec_bind_of_ok (exec_ofExcept _ _)).trans ?_
    refine (exec_bind_of_ok (exec_ofExcept _ _)).trans ?_
    rw [exec_bind_of_ok hasked, exec_managed, hloop]
    simp [State.behind, asked, IdTable.ahead, Ascending.ahead, as, n]
  · intro k hk
    simpa using found_lt_of_lt_needed hk

theorem sorted_sample : [3, 5, 7].Pairwise ((· < ·) : UInt32 → UInt32 → Prop) := by decide

def sampleTable : IdTable := ⟨[3, 5, 7], sorted_sample⟩

/-- The first note is gone, and the third one cannot be opened. -/
def sampleEnv : Env UInt32 where
  codePage := utf8
  getHandle := .ok ()
  query _ := .ok sampleTable
  getNote _ noteId :=
    if noteId = 3 then .ok none
    else if noteId = 5 then .ok (some noteId)
    else .error (.nativeError "Failed to open note" .noteLocked)

def sampleQuery : Dql.Expression := { mode := .raw, raw := ['a'] }

theorem runQuery_result_sample :
    (exec (runQuery sampleEnv sampleQuery 1) {}).1 = .ok [5] ∧
      (exec (runQuery sampleEnv sampleQuery 1) {}).2.tried = [3, 5] ∧
      (exec (runQuery sampleEnv sampleQuery 2) {}).1 =
        .error (.throws (.nativeError "Failed to open note" .noteLocked)) ∧
      (exec (runQuery sampleEnv sampleQuery 2) {}).2.freed = 1 := by
  have hone := (runQuery_result sampleEnv sampleQuery 1 rfl rfl rfl).1
  have htwo := (runQuery_result sampleEnv sampleQuery 2 rfl rfl rfl).1
  rw [hone, htwo]
  decide

end Dmn.Query
