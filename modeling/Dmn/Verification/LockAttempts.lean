import Dmn.Verification.NoteLock

/-! # Attempts to lock and to unlock

The operations that do not throw tell by their result whether the lock was set or removed, except
where the handle of the database is missing: the empty handle is used all the same. -/

namespace Dmn.NoteLock

open Exec Native

variable {Db File : Type} {env : Env Db File} {s : Called (World Db File)}

inductive Attempt (Db : Type) where
  | tryAcquire (db : Db) (noteId : UInt32)
  | tryUnlock (id : ObjectId)
  | destroy (id : ObjectId)

/-- `get_handle` does not return, after so many calls. -/
def handleFails (env : Env Db File) (calls : ℕ) : Option Db → Bool
  | none => true
  | some db => (env.handleError calls db).isSome

/-- No lock was set or removed, and every object owns what it owned. -/
structure Unchanged (s t : Called (World Db File)) : Prop where
  wrappers : t.value.wrappers = s.value.wrappers
  locks : t.value.locks = s.value.locks

/-! ## Handles -/

theorem exec_handle_of_fails {α : Type} {db : Option Db} (h : handleFails env s.calls db = true)
    (rest : File → M Db File α) :
    exec (do let handle ← getDbHandle env db; let file ← value handle; rest file) s =
      (.error .undefined, s) := by
  cases db with
  | none =>
      have hget : exec (getDbHandle env none) s = (.error .undefined, s) := by
        rw [getDbHandle, exec_tryCatch]
        rfl
      rw [exec_bind_of_error hget]
  | some db =>
      obtain ⟨error, herror⟩ := Option.isSome_iff_exists.mp h
      have hthrows : exec (getHandle env (some db)) s = (.error (.throws error), s) := by
        rw [getHandle, exec_bind_of_ok (exec_get s)]
        simp only [herror]
        rfl
      have hget : exec (getDbHandle env (some db)) s = (.ok none, s) := by
        rw [getDbHandle, exec_tryCatch, exec_bind_of_error hthrows]
        rfl
      rw [exec_bind_of_ok hget]
      rfl

theorem exec_handle {α : Type} {db : Db} (h : env.handleError s.calls db = none)
    (rest : File → M Db File α) :
    exec (do let handle ← getDbHandle env (some db); let file ← value handle; rest file) s =
      exec (rest (env.file db)) s := by
  have hreturns : exec (getHandle env (some db)) s = (.ok (env.file db), s) := by
    rw [getHandle, exec_bind_of_ok (exec_get s)]
    simp only [h]
    rfl
  have hget : exec (getDbHandle env (some db)) s = (.ok (some (env.file db)), s) := by
    rw [getDbHandle, exec_tryCatch, exec_bind_of_ok hreturns]
    rfl
  rw [exec_bind_of_ok hget]
  rfl

variable [DecidableEq File]

/-! ## What an attempt is to report -/

/-- A native call of `lock_note` fails. -/
def lockFails (env : Env Db File) (file : File) (noteId : UInt32)
    (s : Called (World Db File)) : Bool :=
  (env.native.status s.calls).isError || (env.native.status (s.calls + 1)).isError ||
    (s.value.holder file noteId).isSome

/-- The lock is returned if it was set. Without a handle no native call is made. -/
def Acquired (env : Env Db File) (db : Db) (noteId : UInt32) (s : Called (World Db File))
    (result : Option ObjectId) (t : Called (World Db File)) : Prop :=
  if handleFails env s.calls (some db) then result = none ∧ t = s
  else if lockFails env (env.file db) noteId s then result = none ∧ Unchanged s t
  else ∃ lock, result = some lock ∧
    Table.lookup Wrapper.id lock t.value.wrappers = some ⟨lock, some db, true, noteId⟩ ∧
    ⟨env.file db, noteId, lock⟩ ∈ t.value.locks

/-- `self` gives up a lock that was removed, and owns it otherwise. -/
def Released (env : Env Db File) (self : Wrapper Db) (s : Called (World Db File)) (result : Bool)
    (t : Called (World Db File)) : Prop :=
  if !self.ownsLock then result = true ∧ t = s
  else if handleFails env s.calls self.db then result = false ∧ t = s
  else if (env.native.status s.calls).isError then result = false ∧ Unchanged s t
  else result = true ∧
    Table.lookup Wrapper.id self.id t.value.wrappers = some { self with ownsLock := false } ∧
    ∀ db, self.db = some db → t.value.holder (env.file db) self.noteId = none

/-- The attempt returns, and reports what it did. The destructor reports nothing, and the object is
gone afterwards. -/
def Reports (env : Env Db File) (s : Called (World Db File)) : Attempt Db → Prop
  | .tryAcquire db noteId => ∃ result t, exec (tryAcquire env db noteId) s = (.ok result, t) ∧
      Acquired env db noteId s result t
  | .tryUnlock id => ∀ self, Table.lookup Wrapper.id id s.value.wrappers = some self →
      ∃ result t, exec (tryUnlock env id) s = (.ok result, t) ∧ Released env self s result t
  | .destroy id => ∀ self, Table.lookup Wrapper.id id s.value.wrappers = some self →
      ∃ result t, exec (destroy env id) s = (.ok (), { t with value := t.value.erase id }) ∧
        Released env self s result t

/-- The handle is there, if it is needed. -/
def Available (env : Env Db File) (s : Called (World Db File)) : Attempt Db → Prop
  | .tryAcquire db _ => handleFails env s.calls (some db) = false
  | .tryUnlock id | .destroy id =>
      ∀ self, Table.lookup Wrapper.id id s.value.wrappers = some self → self.ownsLock = true →
        handleFails env s.calls self.db = false

/-! ## Unlocking -/

variable {id : ObjectId} {self : Wrapper Db}

theorem exec_tryUnlock_of_fails (hself : Table.lookup Wrapper.id id s.value.wrappers = some self)
    (howns : self.ownsLock = true) (h : handleFails env s.calls self.db = true) :
    exec (tryUnlock env id) s = (.error .undefined, s) := by
  rw [tryUnlock, exec_bind_of_ok (exec_this hself), howns]
  exact exec_handle_of_fails h _

omit [DecidableEq File] in
theorem lookup_disown {w : World Db File}
    (hself : Table.lookup Wrapper.id id w.wrappers = some self) :
    Table.lookup Wrapper.id id (w.disown id).wrappers = some { self with ownsLock := false } :=
  Table.lookup_modify Wrapper.id hself (Table.key_of_lookup Wrapper.id hself :) (.inl rfl)

theorem holder_erase (file : File) (noteId : UInt32) (w : World Db File) :
    World.holder file noteId { w with locks := Table.erase Lock.key (file, noteId) w.locks } =
      none := by
  rw [World.holder, Table.lookup_erase_self]
  rfl

/-- The native function removes the lock, or leaves everything as it was. -/
theorem exec_nsfDbNoteUnlock_cases (env : Env Db File) (issuer : ObjectId) (file : File) (noteId : UInt32) :
    ∃ t, exec (nsfDbNoteUnlock env issuer file noteId) s = (.ok (env.native.status s.calls), t) ∧
      t.value.wrappers = s.value.wrappers ∧
      if (env.native.status s.calls).isError then t.value.locks = s.value.locks
      else t.value.holder file noteId = none := by
  rw [nsfDbNoteUnlock, exec_bind_of_ok (exec_update _ s)]
  rw [exec_bind_of_ok (exec_call _)]
  cases hresult : (env.native.status s.calls).isError with
  | true => exact ⟨_, rfl, rfl, rfl⟩
  | false => exact ⟨_, rfl, rfl, holder_erase file noteId _⟩

theorem exec_tryUnlock_released (env : Env Db File)
    (hself : Table.lookup Wrapper.id id s.value.wrappers = some self)
    (h : self.ownsLock = true → handleFails env s.calls self.db = false) :
    ∃ result t, exec (tryUnlock env id) s = (.ok result, t) ∧ Released env self s result t := by
  obtain rfl : self.id = id := Table.key_of_lookup Wrapper.id hself
  rw [tryUnlock, exec_bind_of_ok (exec_this hself)]
  cases howns : self.ownsLock with
  | false => exact ⟨true, s, rfl, by simp [Released, howns]⟩
  | true =>
      have hhandle := h howns
      cases hdb : self.db with
      | none =>
          rw [hdb] at hhandle
          cases hhandle
      | some db =>
          rw [hdb] at hhandle
          have hnone : env.handleError s.calls db = none := by
            simpa [handleFails] using hhandle
          obtain ⟨t, hexec, hwrappers, hlocks⟩ :=
            exec_nsfDbNoteUnlock_cases (s := s) env self.id (env.file db) self.noteId
          simp only [Bool.not_true, Bool.false_eq_true, if_false]
          rw [exec_handle hnone, exec_bind_of_ok hexec]
          unfold Released
          rw [howns, hdb, hhandle]
          cases hresult : (env.native.status s.calls).isError with
          | true =>
              rw [hresult, if_pos rfl] at hlocks
              exact ⟨false, t, rfl, rfl, hwrappers, hlocks⟩
          | false =>
              rw [hresult, if_neg Bool.false_ne_true] at hlocks
              refine ⟨true, _, rfl, rfl, ?_, ?_⟩
              · rw [← hwrappers] at hself
                have hleft := lookup_disown hself
                rwa [hdb] at hleft
              · rintro _ ⟨rfl⟩
                exact hlocks

theorem exec_destroy_of_ok {result : Bool} {t : Called (World Db File)}
    (h : exec (tryUnlock env id) s = (.ok result, t)) :
    exec (destroy env id) s = (.ok (), { t with value := t.value.erase id }) := by
  rw [destroy, discard_eq_bind, bind_assoc, exec_bind_of_ok h]
  rfl

theorem exec_destroy_of_error {stop : Stop} {t : Called (World Db File)}
    (h : exec (tryUnlock env id) s = (.error stop, t)) :
    exec (destroy env id) s = (.error stop, t) := by
  rw [destroy, discard_eq_bind, bind_assoc, exec_bind_of_error h]

/-! ## Locking -/

/-- The note is locked for the object made next, or everything stays as it was. -/
theorem exec_lockNote (env : Env Db File) (file : File) (noteId : UInt32) :
    ∃ result t, exec (lockNote env file noteId) s = (.ok result, t) ∧
      result.isError = lockFails env file noteId s ∧
      if result.isError then Unchanged s t
      else t.value = { s.value with locks := ⟨file, noteId, s.value.nextId⟩ :: s.value.locks } := by
  rw [lockNote, exec_bind_of_ok (exec_call s)]
  unfold lockFails
  cases hname : (env.native.status s.calls).isError with
  | true => exact ⟨_, _, rfl, hname, by rw [if_pos hname]; exact ⟨rfl, rfl⟩⟩
  | false =>
      simp only [Bool.false_eq_true, if_false, nsfDbNoteLock]
      rw [exec_bind_of_ok (exec_call _), exec_bind_of_ok (exec_value _)]
      cases hresult : (env.native.status (s.calls + 1)).isError with
      | true =>
          exact ⟨_, _, rfl, hresult, by rw [if_pos hresult]; exact ⟨rfl, rfl⟩⟩
      | false =>
          cases hlocked : (s.value.holder file noteId).isSome with
          | true => exact ⟨_, _, rfl, rfl, rfl, rfl⟩
          | false =>
              exact ⟨_, _, rfl, hresult, by rw [hresult]; rfl⟩

/-- The object that `try_acquire` makes is moved into the result. It is left without the lock, which
is held for the new object. -/
theorem exec_optional (env : Env Db File) (db : Db) (noteId : UInt32) {file : File}
    (hlock : ⟨file, noteId, s.value.nextId⟩ ∈ s.value.locks) :
    ∃ lock t, exec (do
        let temporary ← construct db noteId
        let lock ← moveConstruct temporary
        destroy env temporary
        pure (some lock)) s = (.ok (some lock), t) ∧
      Table.lookup Wrapper.id lock t.value.wrappers = some ⟨lock, some db, true, noteId⟩ ∧
      ⟨file, noteId, lock⟩ ∈ t.value.locks := by
  let temporary : Wrapper Db := ⟨s.value.nextId, some db, true, noteId⟩
  let made := s.value.born (some db) true noteId
  let moved := (made.move temporary).born (some db) true noteId
  have hfresh : made.nextId ≠ s.value.nextId := Nat.succ_ne_self _
  have htemporary : Table.lookup Wrapper.id s.value.nextId made.wrappers = some temporary :=
    Table.lookup_cons_of_eq Wrapper.id _ rfl
  have hmove : exec (moveConstruct s.value.nextId : M Db File _) { s with value := made } =
      (.ok made.nextId, { s with value := moved }) := by
    rw [moveConstruct, exec_bind_of_ok (exec_this htemporary)]
    rfl
  have hleft : Table.lookup Wrapper.id s.value.nextId moved.wrappers =
      some { temporary with ownsLock := false, db := none, noteId := 0 } :=
    (Table.lookup_cons_of_ne Wrapper.id _ hfresh).trans
      (Table.lookup_modify Wrapper.id htemporary rfl (.inl rfl))
  obtain ⟨result, t, hunlock, hreleased⟩ :=
    exec_tryUnlock_released env (s := { s with value := moved }) hleft
      fun howns => absurd howns Bool.false_ne_true
  obtain ⟨-, rfl⟩ : result = true ∧ t = { s with value := moved } := hreleased
  rw [exec_bind_of_ok (exec_construct db noteId s), exec_bind_of_ok hmove,
    exec_bind_of_ok (exec_destroy_of_ok hunlock)]
  refine ⟨made.nextId, _, rfl, ?_, ?_⟩
  · exact (Table.lookup_erase_of_ne Wrapper.id _ hfresh).trans
      (Table.lookup_cons_of_eq Wrapper.id _ rfl)
  · show _ ∈ (made.move temporary).locks
    rw [World.move, if_pos rfl]
    exact List.mem_map.mpr ⟨_, hlock, if_pos rfl⟩

theorem exec_tryAcquire_acquired (db : Db) (noteId : UInt32)
    (h : handleFails env s.calls (some db) = false) :
    ∃ result t, exec (tryAcquire env db noteId) s = (.ok result, t) ∧
      Acquired env db noteId s result t := by
  have hnone : env.handleError s.calls db = none := by simpa [handleFails] using h
  obtain ⟨result, t, hexec, hfails, hlocked⟩ :=
    exec_lockNote (s := s) env (env.file db) noteId
  rw [tryAcquire, exec_handle hnone, exec_bind_of_ok hexec]
  unfold Acquired
  rw [h, ← hfails]
  cases herror : result.isError with
  | true =>
      rw [herror, if_pos rfl] at hlocked
      exact ⟨none, t, rfl, rfl, hlocked⟩
  | false =>
      rw [herror, if_neg Bool.false_ne_true] at hlocked
      simp only [Bool.false_eq_true, if_false]
      have hlock : ⟨env.file db, noteId, t.value.nextId⟩ ∈ t.value.locks := by
        rw [hlocked]
        exact List.mem_cons_self
      obtain ⟨lock, u, hreturns, howner, hheld⟩ := exec_optional env db noteId hlock
      exact ⟨some lock, u, hreturns, lock, rfl, howner, hheld⟩

/-! ## Attempts -/

theorem exec_tryAcquire_of_fails {db : Db} {noteId : UInt32}
    (h : handleFails env s.calls (some db) = true) :
    exec (tryAcquire env db noteId) s = (.error .undefined, s) := exec_handle_of_fails h _

/-- An attempt reports what it did if it has the handle or does not need it, and only then. -/
theorem reports_iff (env : Env Db File) (s : Called (World Db File)) (attempt : Attempt Db) :
    Reports env s attempt ↔ Available env s attempt := by
  constructor
  · intro h
    cases attempt with
    | tryAcquire db noteId =>
        obtain ⟨result, t, hexec, -⟩ := h
        refine Bool.eq_false_iff.mpr fun hfails => ?_
        rw [exec_tryAcquire_of_fails hfails] at hexec
        cases hexec
    | tryUnlock id =>
        intro self hself howns
        obtain ⟨result, t, hexec, -⟩ := h self hself
        refine Bool.eq_false_iff.mpr fun hfails => ?_
        rw [exec_tryUnlock_of_fails hself howns hfails] at hexec
        cases hexec
    | destroy id =>
        intro self hself howns
        obtain ⟨result, t, hexec, -⟩ := h self hself
        refine Bool.eq_false_iff.mpr fun hfails => ?_
        rw [exec_destroy_of_error (exec_tryUnlock_of_fails hself howns hfails)] at hexec
        cases hexec
  · intro h
    cases attempt with
    | tryAcquire db noteId => exact exec_tryAcquire_acquired db noteId h
    | tryUnlock id => exact fun self hself => exec_tryUnlock_released env hself (h self hself)
    | destroy id =>
        intro self hself
        obtain ⟨result, t, hexec, hreleased⟩ := exec_tryUnlock_released env hself (h self hself)
        exact ⟨result, t, exec_destroy_of_ok hexec, hreleased⟩

/-- The database disappears behind the two calls that set a lock. -/
def goneEnv : Env Nat Nat where
  native := ⟨fun _ => .noError, fun _ _ => 0⟩
  file := fun db => db
  handleError calls _ := if calls < 2 then none
    else some (.invalidHandle "The database has disappeared")

/-- An object that owns its lock is destroyed after its database has disappeared. -/
theorem not_reports_destroy : ¬ ∀ (env : Env Nat Nat) (ops : List (Op Nat)) (id : ObjectId),
    Reports env (Run.after (step env) ⟨0, World.start⟩ ops) (.destroy id) := by
  intro h
  obtain ⟨result, t, hexec, -⟩ := h goneEnv [.acquire 0 5] 0 _ rfl
  cases hexec

end Dmn.NoteLock
