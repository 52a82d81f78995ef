import Dmn.Library.Run
import Dmn.Model.NoteLock
import Dmn.Verification.Native

/-! # Who owns a lock

An object that owns its lock holds it in the library. A lock that could not be removed stays
behind, and is owned by no object. -/

namespace Dmn.NoteLock

open Exec Native

variable {Db File : Type} {env : Env Db File} {w : World Db File} {self : Wrapper Db}
  {id : ObjectId}

/-- The library has the lock of the object, set for it. -/
def Holds (env : Env Db File) (locks : List (Lock File)) (self : Wrapper Db) : Prop :=
  ∃ db, self.db = some db ∧ ⟨env.file db, self.noteId, self.id⟩ ∈ locks

structure Inv (env : Env Db File) (w : World Db File) : Prop where
  ids : (w.wrappers.map Wrapper.id).Nodup
  lt : ∀ self ∈ w.wrappers, self.id < w.nextId
  keys : (w.locks.map Lock.key).Nodup
  held : ∀ self ∈ w.wrappers, self.ownsLock = true → Holds env w.locks self
  unlocks : ∀ call ∈ w.unlocks, call.holder = some call.issuer

theorem inv_start : Inv env World.start := ⟨List.nodup_nil, nofun, List.nodup_nil, nofun, nofun⟩

/-! ## Changes of the state -/

theorem Inv.erase (h : Inv env w) (id : ObjectId) : Inv env (w.erase id) :=
  ⟨h.ids.sublist (List.filter_sublist.map _),
    fun self hself => h.lt self ((Table.mem_erase_iff _).mp hself).1, h.keys,
    fun self hself => h.held self ((Table.mem_erase_iff _).mp hself).1, h.unlocks⟩

/-- An object is made, which holds its lock if it owns one. -/
theorem Inv.born (h : Inv env w) {db : Option Db} {ownsLock : Bool} {noteId : UInt32}
    (hheld : ownsLock = true → Holds env w.locks ⟨w.nextId, db, ownsLock, noteId⟩) :
    Inv env (w.born db ownsLock noteId) := by
  refine ⟨List.nodup_cons.mpr ⟨fun hmem => ?_, h.ids⟩, ?_, h.keys, ?_, h.unlocks⟩
  · obtain ⟨other, hother, heq⟩ := List.mem_map.mp hmem
    exact Nat.lt_irrefl _ (heq ▸ h.lt other hother)
  · intro other hother
    rcases List.mem_cons.mp hother with rfl | hother
    · exact Nat.lt_succ_self _
    · exact Nat.lt_succ_of_lt (h.lt other hother)
  · intro other hother howns
    rcases List.mem_cons.mp hother with rfl | hother
    · exact hheld howns
    · exact h.held other hother howns

/-- Members are taken from an object, and its lock is held for the next one. -/
theorem Inv.move (h : Inv env w) (hself : self ∈ w.wrappers) :
    Inv env (w.move self) ∧
      (self.ownsLock = true → Holds env (w.move self).locks { self with id := w.nextId }) := by
  let rename : Lock File → Lock File :=
    fun lock => if lock.holder = self.id then { lock with holder := w.nextId } else lock
  have hkey : ∀ lock, (rename lock).key = lock.key := by
    intro lock
    show (if _ then _ else _ : Lock File).key = _
    split <;> rfl
  have hkept : ∀ {lock : Lock File}, lock ∈ w.locks → lock.holder ≠ self.id →
      lock ∈ (w.move self).locks := by
    intro lock hlock hne
    rw [World.move]
    split
    · exact List.mem_map.mpr ⟨lock, hlock, if_neg hne⟩
    · exact hlock
  refine ⟨⟨?_, ?_, ?_, ?_, h.unlocks⟩, fun howns => ?_⟩
  · rw [World.move, Table.map_modify]
    · exact h.ids
    · exact fun _ => rfl
  · exact Table.forall_key_modify Wrapper.id (p := (· < w.nextId)) (fun _ => rfl) h.lt
  · rw [World.move]
    split
    · rw [List.map_map, show Lock.key ∘ _ = Lock.key from funext hkey]
      exact h.keys
    · exact h.keys
  · intro other hother howns'
    have hlookup := Table.lookup_of_mem Wrapper.id hself h.ids
    rcases Table.mem_modify Wrapper.id hlookup h.ids hother with rfl | ⟨hmem, hne⟩
    · cases howns'
    · obtain ⟨db, hdb, hlock⟩ := h.held other hmem howns'
      exact ⟨db, hdb, hkept hlock hne⟩
  · obtain ⟨db, hdb, hlock⟩ := h.held self hself howns
    refine ⟨db, hdb, ?_⟩
    rw [World.move, if_pos howns]
    exact List.mem_map.mpr ⟨_, hlock, if_pos rfl⟩

section Handles

variable {s : Called (World Db File)}

theorem exec_this (hself : Table.lookup Wrapper.id id s.value.wrappers = some self) :
    exec (this id : M Db File _) s = (.ok self, s) := by
  rw [this, exec_bind_of_ok (Native.exec_value _), hself]
  rfl

theorem exec_getHandle (havailable : ∀ n db, env.handleError n db = none) (db : Db)
    (s : Called (World Db File)) :
    exec (getHandle env (some db)) s = (.ok (env.file db), s) := by
  rw [getHandle, exec_bind_of_ok (exec_get s)]
  simp only [havailable]
  rfl

theorem exec_getDbHandle (havailable : ∀ n db, env.handleError n db = none) (db : Db)
    (s : Called (World Db File)) :
    exec (getDbHandle env (some db)) s = (.ok (some (env.file db)), s) := by
  rw [getDbHandle, exec_tryCatch, exec_bind_of_ok (exec_getHandle havailable db s)]
  rfl

theorem exec_moveConstruct (h : Inv env s.value)
    (hself : Table.lookup Wrapper.id id s.value.wrappers = some self) :
    ∃ result t source, exec (moveConstruct id) s = (.ok result, t) ∧ Inv env t.value ∧
      Table.lookup Wrapper.id id t.value.wrappers = some source := by
  obtain rfl : self.id = id := Table.key_of_lookup Wrapper.id hself
  have hmem := Table.mem_of_lookup Wrapper.id hself
  obtain ⟨hmoved, hheld⟩ := h.move hmem
  let left : Wrapper Db := { self with ownsLock := false, db := none, noteId := 0 }
  rw [moveConstruct, exec_bind_of_ok (exec_this hself)]
  refine ⟨_, _, left, rfl, hmoved.born hheld, ?_⟩
  have hne : s.value.nextId ≠ self.id := Nat.ne_of_gt (h.lt self hmem)
  have hleft : Table.lookup Wrapper.id self.id (s.value.move self).wrappers = some left :=
    Table.lookup_modify Wrapper.id hself rfl (.inl rfl)
  exact (Table.lookup_cons_of_ne Wrapper.id _ hne).trans hleft

theorem exec_construct (db : Db) (noteId : UInt32) (s : Called (World Db File)) :
    exec (construct db noteId) s =
      (.ok s.value.nextId, { s with value := s.value.born (some db) true noteId }) := rfl

theorem inv_construct (h : Inv env s.value) {db : Db} {noteId : UInt32}
    (hlock : ⟨env.file db, noteId, s.value.nextId⟩ ∈ s.value.locks) :
    Inv env (s.value.born (some db) true noteId) ∧ ∃ self,
      Table.lookup Wrapper.id s.value.nextId (s.value.born (some db) true noteId).wrappers =
        some self :=
  ⟨h.born fun _ => ⟨db, rfl, hlock⟩, _, Table.lookup_cons_of_eq Wrapper.id _ rfl⟩

end Handles

theorem exists_lookup_of_any (h : (w.wrappers.any fun self => self.id = id) = true) :
    ∃ self, Table.lookup Wrapper.id id w.wrappers = some self := by
  obtain ⟨self, hself, hid⟩ := List.any_eq_true.mp h
  exact Option.isSome_iff_exists.mp (List.find?_isSome.mpr ⟨self, hself, hid⟩)

variable [DecidableEq File]

/-- Two owners of locks on the same note are one. -/
theorem Inv.single (h : Inv env w) {self other : Wrapper Db} (hself : self ∈ w.wrappers)
    (hother : other ∈ w.wrappers) {db db' : Db} (hdb : self.db = some db)
    (hdb' : other.db = some db') (howns : self.ownsLock = true) (howns' : other.ownsLock = true)
    (hfile : env.file db = env.file db') (hnote : self.noteId = other.noteId) : self = other := by
  obtain ⟨_, heq, hlock⟩ := h.held self hself howns
  obtain ⟨_, heq', hlock'⟩ := h.held other hother howns'
  cases hdb.symm.trans heq
  cases hdb'.symm.trans heq'
  have hkey : (⟨env.file db, self.noteId, self.id⟩ : Lock File).key =
      (⟨env.file db', other.noteId, other.id⟩ : Lock File).key := by
    rw [Lock.key, Lock.key, hfile, hnote]
  have hlocks := Table.eq_of_key_eq Lock.key hlock hlock' h.keys hkey
  exact Table.eq_of_key_eq Wrapper.id hself hother h.ids (Lock.mk.inj hlocks).2.2

theorem Inv.holder (h : Inv env w) (hself : self ∈ w.wrappers) (howns : self.ownsLock = true)
    {db : Db} (hdb : self.db = some db) :
    w.holder (env.file db) self.noteId = some self.id := by
  obtain ⟨_, heq, hlock⟩ := h.held self hself howns
  cases hdb.symm.trans heq
  have hlookup := Table.lookup_of_mem Lock.key hlock h.keys
  rw [World.holder, show (env.file db, self.noteId) =
    (⟨env.file db, self.noteId, self.id⟩ : Lock File).key from rfl, hlookup]
  rfl

/-- The lock of an owner is removed, and the owner knows. -/
theorem Inv.unlock (h : Inv env w) (hself : self ∈ w.wrappers) (howns : self.ownsLock = true)
    {db : Db} (hdb : self.db = some db) :
    Inv env ({ w with locks := Table.erase Lock.key (env.file db, self.noteId) w.locks }.disown
      self.id) := by
  refine ⟨?_, ?_, h.keys.sublist (List.filter_sublist.map _), ?_, h.unlocks⟩
  · rw [World.disown, Table.map_modify]
    · exact h.ids
    · exact fun _ => rfl
  · exact Table.forall_key_modify Wrapper.id (p := (· < w.nextId)) (fun _ => rfl) h.lt
  · intro other hother howns'
    have hlookup := Table.lookup_of_mem Wrapper.id hself h.ids
    rcases Table.mem_modify Wrapper.id hlookup h.ids hother with rfl | ⟨hmem, hne⟩
    · cases howns'
    · obtain ⟨db', hdb', hlock⟩ := h.held other hmem howns'
      refine ⟨db', hdb', (Table.mem_erase_iff _).mpr ⟨hlock, fun hkey => hne ?_⟩⟩
      have hkeys := Prod.mk.inj hkey
      rw [h.single hself hmem hdb hdb' howns howns' hkeys.1.symm hkeys.2.symm]

/-- The note is locked for the object that is made next. -/
theorem Inv.lock (h : Inv env w) {file : File} {noteId : UInt32}
    (hfree : (w.holder file noteId).isSome = false) :
    Inv env { w with locks := ⟨file, noteId, w.nextId⟩ :: w.locks } := by
  have hlookup : Table.lookup Lock.key (file, noteId) w.locks = none := by
    simpa [World.holder] using hfree
  refine ⟨h.ids, h.lt, List.nodup_cons.mpr ⟨fun hmem => ?_, h.keys⟩, ?_, h.unlocks⟩
  · obtain ⟨lock, hlock, heq⟩ := List.mem_map.mp hmem
    exact (Table.lookup_eq_none_iff Lock.key).mp hlookup lock hlock heq
  · intro self hself howns
    obtain ⟨db, hdb, hlock⟩ := h.held self hself howns
    exact ⟨db, hdb, List.mem_cons_of_mem _ hlock⟩

/-! ## Programs -/

variable {s : Called (World Db File)}

/-- The call is made by the object that the note is locked for. -/
theorem exec_nsfDbNoteUnlock (h : Inv env s.value) (hself : self ∈ s.value.wrappers)
    (howns : self.ownsLock = true) {db : Db} (hdb : self.db = some db) :
    ∃ result t, exec (nsfDbNoteUnlock env self.id (env.file db) self.noteId) s = (.ok result, t) ∧
      if result.isError then Inv env t.value else Inv env (t.value.disown self.id) := by
  have hlogged : ∀ w : World Db File, Inv env w → self ∈ w.wrappers →
      Inv env { w with unlocks := ⟨self.id, w.holder (env.file db) self.noteId⟩ :: w.unlocks } := by
    intro w h hself
    refine ⟨h.ids, h.lt, h.keys, h.held, fun call hcall => ?_⟩
    rcases List.mem_cons.mp hcall with rfl | hcall
    · exact h.holder hself howns hdb
    · exact h.unlocks call hcall
  rw [nsfDbNoteUnlock, exec_bind_of_ok (exec_update _ s)]
  rw [exec_bind_of_ok (exec_call _)]
  cases hresult : (env.native.status s.calls).isError with
  | true => exact ⟨_, _, rfl, by simpa [hresult] using hlogged _ h hself⟩
  | false =>
      refine ⟨_, _, rfl, ?_⟩
      rw [hresult]
      exact (hlogged _ h hself).unlock hself howns hdb

/-- `try_unlock` returns, and keeps every other lock. -/
theorem exec_tryUnlock (havailable : ∀ n db, env.handleError n db = none) (h : Inv env s.value)
    (hself : Table.lookup Wrapper.id id s.value.wrappers = some self) :
    ∃ result t, exec (tryUnlock env id) s = (.ok result, t) ∧ Inv env t.value := by
  obtain rfl : self.id = id := Table.key_of_lookup Wrapper.id hself
  have hmem := Table.mem_of_lookup Wrapper.id hself
  rw [tryUnlock, exec_bind_of_ok (exec_this hself)]
  cases howns : self.ownsLock with
  | false => exact ⟨true, s, rfl, h⟩
  | true =>
      obtain ⟨db, hdb, _⟩ := h.held self hmem howns
      obtain ⟨result, t, hexec, hresult⟩ := exec_nsfDbNoteUnlock h hmem howns hdb
      have hvalue : exec (value (some (env.file db)) : M Db File File) s =
        (.ok (env.file db), s) := rfl
      simp only [Bool.not_true, Bool.false_eq_true, if_false]
      rw [hdb, exec_bind_of_ok (exec_getDbHandle havailable db s), exec_bind_of_ok hvalue,
        exec_bind_of_ok hexec]
      cases herror : result.isError with
      | true => exact ⟨false, t, rfl, by simpa [herror] using hresult⟩
      | false => exact ⟨true, _, rfl, by simpa [herror] using hresult⟩

theorem inv_unlock (havailable : ∀ n db, env.handleError n db = none) (h : Inv env s.value)
    (hself : Table.lookup Wrapper.id id s.value.wrappers = some self) :
    Inv env (exec (unlock env id) s).2.value := by
  obtain rfl : self.id = id := Table.key_of_lookup Wrapper.id hself
  have hmem := Table.mem_of_lookup Wrapper.id hself
  rw [unlock, exec_bind_of_ok (exec_this hself)]
  cases howns : self.ownsLock with
  | false => exact h
  | true =>
      obtain ⟨db, hdb, _⟩ := h.held self hmem howns
      obtain ⟨result, t, hexec, hresult⟩ := exec_nsfDbNoteUnlock h hmem howns hdb
      simp only [Bool.not_true, Bool.false_eq_true, if_false]
      rw [hdb, exec_bind_of_ok (exec_getHandle havailable db s), exec_bind_of_ok hexec,
        Status.throwIfError]
      cases herror : result.isError with
      | true => simpa [herror] using hresult
      | false =>
          rw [herror, if_neg Bool.false_ne_true] at hresult
          exact hresult

theorem exec_destroy (havailable : ∀ n db, env.handleError n db = none) (h : Inv env s.value)
    (hself : Table.lookup Wrapper.id id s.value.wrappers = some self) :
    ∃ t, exec (destroy env id) s = (.ok (), t) ∧ Inv env t.value := by
  obtain ⟨result, t, hexec, hinv⟩ := exec_tryUnlock havailable h hself
  have hdiscard : exec (discard (tryUnlock env id)) s = (.ok (), t) := by
    rw [discard_eq_bind, exec_bind_of_ok hexec]
    rfl
  rw [destroy, exec_bind_of_ok hdiscard]
  exact ⟨_, rfl, hinv.erase id⟩

/-- A note that was locked is locked for the object made next. -/
theorem meets_lockNote {E : Stop → Called (World Db File) → Prop} (file : File) (noteId : UInt32) :
    Meets (fun s => Inv env s.value) (lockNote env file noteId)
      (fun result s => Inv env s.value ∧ (result.isError = false →
        ⟨file, noteId, s.value.nextId⟩ ∈ s.value.locks)) E := by
  unfold lockNote
  apply Meets.bind (meets_call fun _ h => h)
  intro name
  cases hname : name.isError with
  | true => exact Meets.pure fun _ h => ⟨h, fun hok => absurd (hok.symm.trans hname) (by simp)⟩
  | false =>
      apply Meets.bind (meets_call fun _ h => h)
      intro result
      apply meets_value_bind
      intro w
      cases hresult : result.isError with
      | true => exact Meets.pure fun _ h => ⟨h.1, fun hok => absurd (hok.symm.trans hresult) (by simp)⟩
      | false =>
          cases hlocked : (w.holder file noteId).isSome with
          | true => exact Meets.pure fun _ h => ⟨h.1, nofun⟩
          | false =>
              apply Meets.bind (Q := fun _ s => Inv env s.value ∧
                ⟨file, noteId, s.value.nextId⟩ ∈ s.value.locks)
              · apply meets_update
                rintro s ⟨h, rfl⟩
                exact ⟨h.lock hlocked, List.mem_cons_self⟩
              · exact fun _ => Meets.pure fun _ h => ⟨h.1, fun _ => h.2⟩

/-- What `acquire` does once it has the handle. -/
theorem meets_lock (db : Db) (noteId : UInt32) : Meets (fun s => Inv env s.value)
    (do
      let result ← lockNote env (env.file db) noteId
      if result.isLocked then
        throw (.throws (.nativeError "Note is already locked" result))
      result.throwIfError "Failed to acquire lock"
      construct db noteId)
    (fun _ s => Inv env s.value) fun _ s => Inv env s.value := by
  apply (meets_lockNote (env.file db) noteId).bind
  intro result
  split
  · apply Meets.bind (Q := fun _ _ => False) (Meets.throw fun _ h => h.1)
    exact fun _ _ h => h.elim
  · apply Meets.bind (meets_throwIfError_of_isError fun _ _ h => h.1)
    intro _ s hs
    rw [exec_construct]
    exact (inv_construct hs.1.1 (hs.1.2 hs.2)).1

theorem inv_acquire (havailable : ∀ n db, env.handleError n db = none) (db : Db) (noteId : UInt32)
    (h : Inv env s.value) : Inv env (exec (acquire env db noteId) s).2.value := by
  rw [acquire, exec_bind_of_ok (exec_getHandle havailable db s)]
  have hmeets := meets_lock db noteId s h
  split at hmeets
  · next hexec => rwa [hexec]
  · next hexec => rwa [hexec]

theorem inv_tryAcquire (havailable : ∀ n db, env.handleError n db = none) (db : Db)
    (noteId : UInt32) (h : Inv env s.value) :
    Inv env (exec (tryAcquire env db noteId) s).2.value := by
  have hvalue : exec (value (some (env.file db)) : M Db File File) s = (.ok (env.file db), s) := rfl
  have hlock : Meets (fun s => Inv env s.value) (lockNote env (env.file db) noteId) _
    (fun _ s => Inv env s.value) := meets_lockNote (env.file db) noteId
  rw [tryAcquire, exec_bind_of_ok (exec_getDbHandle havailable db s), exec_bind_of_ok hvalue]
  rcases hexec : exec (lockNote env (env.file db) noteId) s with ⟨stop | result, t⟩
  · rw [exec_bind_of_error hexec]
    exact hlock.of_error h hexec
  · rw [exec_bind_of_ok hexec]
    obtain ⟨hinv, hheld⟩ := hlock.of_ok h hexec
    cases herror : result.isError with
    | true => exact hinv
    | false =>
        let made : Called (World Db File) := { t with value := t.value.born (some db) true noteId }
        obtain ⟨hmade, self, hself⟩ : Inv env made.value ∧ ∃ self,
            Table.lookup Wrapper.id t.value.nextId made.value.wrappers = some self :=
          inv_construct hinv (hheld herror)
        obtain ⟨lock, v, left, hmove, hmoved, hleft⟩ := exec_moveConstruct hmade hself
        obtain ⟨x, hdestroy, hdestroyed⟩ := exec_destroy havailable hmoved hleft
        simp only [Bool.false_eq_true, if_false]
        rw [exec_bind_of_ok (exec_construct db noteId t), exec_bind_of_ok hmove,
          exec_bind_of_ok hdestroy]
        exact hdestroyed

/-! ## Runs -/

theorem inv_step (havailable : ∀ n db, env.handleError n db = none) (h : Inv env s.value)
    (op : Op Db) : Inv env (step env s op).value := by
  unfold step
  split
  · next hable =>
    cases op with
    | acquire db noteId =>
        rw [Op.perform, exec_discard]
        exact inv_acquire havailable db noteId h
    | tryAcquire db noteId =>
        rw [Op.perform, exec_discard]
        exact inv_tryAcquire havailable db noteId h
    | moveConstruct other =>
        obtain ⟨self, hself⟩ := exists_lookup_of_any hable
        obtain ⟨_, t, _, hexec, hinv, _⟩ := exec_moveConstruct h hself
        rw [Op.perform, exec_discard, hexec]
        exact hinv
    | unlock id =>
        obtain ⟨self, hself⟩ := exists_lookup_of_any hable
        exact inv_unlock havailable h hself
    | tryUnlock id =>
        obtain ⟨self, hself⟩ := exists_lookup_of_any hable
        obtain ⟨_, t, hexec, hinv⟩ := exec_tryUnlock havailable h hself
        rw [Op.perform, exec_discard, hexec]
        exact hinv
    | destroy id =>
        obtain ⟨self, hself⟩ := exists_lookup_of_any hable
        obtain ⟨t, hexec, hinv⟩ := exec_destroy havailable h hself
        rw [Op.perform, hexec]
        exact hinv
  · exact h

/-- What is promised of the objects of a program and the locks in the library. -/
structure Exclusive (env : Env Db File) (w : World Db File) : Prop where
  /-- For each database and note, at most one object owns the lock. -/
  single : ∀ self ∈ w.wrappers, ∀ other ∈ w.wrappers, self.ownsLock = true →
    other.ownsLock = true → self.db.map env.file = other.db.map env.file →
    self.noteId = other.noteId → self = other
  /-- An owner has the lock in the library. -/
  held : ∀ self ∈ w.wrappers, self.ownsLock = true → Holds env w.locks self
  /-- A lock is only removed by the object that it is held for. -/
  unlocks : ∀ call ∈ w.unlocks, call.holder = some call.issuer

theorem Inv.exclusive (h : Inv env w) : Exclusive env w := by
  refine ⟨?_, h.held, h.unlocks⟩
  intro self hself other hother howns howns' hfile hnote
  obtain ⟨db, hdb, _⟩ := h.held self hself howns
  obtain ⟨db', hdb', _⟩ := h.held other hother howns'
  rw [hdb, hdb'] at hfile
  exact h.single hself hother hdb hdb' howns howns' (Option.some.inj hfile) hnote

/-- Locks are exclusive in every run of operations. -/
theorem exclusive_run (env : Env Db File) (havailable : ∀ n db, env.handleError n db = none)
    (ops : List (Op Db)) : Exclusive env (Run.after (step env) ⟨0, World.start⟩ ops).value := by
  apply Inv.exclusive
  apply Run.after_of_invariant (I := fun s : Called (World Db File) => Inv env s.value)
  · exact fun _ op h => inv_step havailable h op
  · exact inv_start

/-- No call fails but the lock of a note that is locked. -/
def sampleEnv : Env Nat Nat where
  native := ⟨fun _ => .noError, fun _ _ => 0⟩
  file := fun db => db
  handleError := fun _ _ => none

theorem exclusive_run_sample : Exclusive sampleEnv (Run.after (step sampleEnv) ⟨0, World.start⟩
    [.acquire 0 5, .tryAcquire 0 5, .moveConstruct 0, .destroy 0, .unlock 1]).value :=
  exclusive_run sampleEnv (fun _ _ => rfl) _

end Dmn.NoteLock
