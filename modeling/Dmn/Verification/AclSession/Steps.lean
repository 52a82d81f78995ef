import Dmn.Verification.AclSession.Invariant
import Dmn.Verification.Native

/-! # What an operation can do

Whether the native calls of an operation fail or not, it leaves one of few worlds. -/

namespace Dmn.AclSession

open Exec Native

variable {env : Env} {w : World}

/-- What a call leaves of the list. -/
def changed (env : Env) (self : Object) (method : Method) (image : Image) : Image :=
  (exec (method.run env self.content) ⟨0, image⟩).2.value

/-- The objects that a method returns. -/
def World.bornAll (self : Object) (made : List Content) (w : World) : World :=
  made.foldl (fun w content => w.born { self with content }) w

/-- How an operation ends. -/
def ending (env : Env) (w : World) (call : Call) : Except Stop Unit :=
  if call.op.able w then
    (exec (call.op.perform (env.withNative call.native)) ⟨0, w⟩).1
  else .error .undefined

/-- What an operation may make of the world, and how it ends. -/
inductive Outcome (env : Env) (w : World) : Op → Except Stop Unit → World → Prop where
  | failed (op : Op) (stop : Stop) (h : op.able w = true → ∀ id method, op ≠ .invoke id method) :
      Outcome env w op (.error stop) w
  | read (db : DatabaseId) : Outcome env w (.read db) (.ok ())
      ((w.allocate (w.databases db)).born ⟨0, db, some w.nextHandle, false, .manager⟩)
  | created (db : DatabaseId) : Outcome env w (.create db) (.ok ())
      ((w.allocate env.created).born ⟨0, db, some w.nextHandle, true, .manager⟩)
  | refused (db : DatabaseId) (names : List UInt8) (size : Nat) (result : Except Stop Unit) :
      Outcome env w (.getAccess db names size) result w
  | lookedUp (db : DatabaseId) (names : List UInt8) (size : Nat) (result : Except Stop Unit) :
      Outcome env w (.getAccess db names size) result ((w.allocate (w.databases db)).free w.nextHandle)
  | stopped {id : ObjectId} {self : Object} {handle : Handle} {image : Image} (method : Method)
      (hself : w.object id = some self) (hlist : self.list = some handle)
      (himage : w.image (some handle) = some image) (stop : Stop) :
      Outcome env w (.invoke id method) (.error stop) (w.write handle (changed env self method image))
  | invoked {id : ObjectId} {self : Object} {handle : Handle} {image : Image} (method : Method)
      (hself : w.object id = some self) (hlist : self.list = some handle)
      (himage : w.image (some handle) = some image) (content : Content) (made : List Content) :
      Outcome env w (.invoke id method) (.ok ())
        (((w.write handle (changed env self method image)).modify id
          fun self => { self with content }).bornAll self made)
  | saved {id : ObjectId} {self : Object} {handle : Handle} {image : Image}
      (hself : w.object id = some self) (hlist : self.list = some handle)
      (himage : w.image (some handle) = some image) :
      Outcome env w (.save id) (.ok ())
        (({ w with databases := Function.update w.databases self.db image }.log
          (.stored handle self.db self.newlyCreated)).modify id
            fun self => { self with newlyCreated := false })
  | copied {id : ObjectId} {self : Object} (hself : w.object id = some self) :
      Outcome env w (.copy id) (.ok ()) (w.born self)
  | moved {id : ObjectId} {self : Object} (hself : w.object id = some self) :
      Outcome env w (.move id) (.ok ()) ((w.modify id fun self => { self with list := none }).born self)
  | assigned {id other : ObjectId} {self value : Object} (hself : w.object id = some self)
      (hvalue : w.object other = some value) :
      Outcome env w (.assign id other) (.ok ())
        ((w.modify id fun self => { value with id := self.id }).release self.list)
  | dropped {id : ObjectId} {self : Object} (hself : w.object id = some self) :
      Outcome env w (.drop id) (.ok ()) ((w.erase id).release self.list)

/-! ## Parts of the operations -/

theorem exec_this {s : Called World} {id : ObjectId} {self : Object}
    (hself : s.value.object id = some self) : exec (this id) s = (.ok self, s) := by
  rw [this, exec_bind_of_ok (exec_value s), hself]
  rfl

theorem exec_onList {α : Type} {s : Called World} {self : Object} {handle : Handle}
    {image : Image} (hlist : self.list = some handle)
    (himage : s.value.image (some handle) = some image) (x : Native.M Image α) :
    exec (onList self x) s = ((exec x ⟨s.calls, image⟩).1,
      ⟨(exec x ⟨s.calls, image⟩).2.calls,
        s.value.write handle (exec x ⟨s.calls, image⟩).2.value⟩) := by
  rw [onList, exec_bind_of_ok (exec_value s), hlist, himage]
  rfl

theorem write_self {handle : Handle} {image : Image}
    (himage : w.image (some handle) = some image) : w.write handle image = w := by
  have hmodify : Table.modify Block.handle handle (fun block => { block with image }) w.memory =
      w.memory := by
    refine Table.modify_eq_self Block.handle fun block hblock => ?_
    rw [image_some, hblock] at himage
    cases himage
    rfl
  rw [World.write, hmodify]

theorem value_databaseHandle (env : Env) (s : Called World) :
    ∃ n, (exec (databaseHandle env) s).2 = ⟨n, s.value⟩ := by
  refine ⟨s.calls + 1, ?_⟩
  rw [databaseHandle, exec_bind_of_ok (exec_call s)]
  split
  · rfl
  · rw [Status.exec_throwIfError]
    split <;> rfl

/-- The list that is read, unless a call has failed. -/
theorem readList_cases (env : Env) (db : DatabaseId) (s : Called World) :
    (∃ stop n, exec (readList env db) s = (.error stop, ⟨n, s.value⟩)) ∨
      ∃ n, exec (readList env db) s =
        (.ok s.value.nextHandle, ⟨n, s.value.allocate (s.value.databases db)⟩) := by
  obtain ⟨n, hn⟩ := value_databaseHandle env s
  rcases hhandle : exec (databaseHandle env) s with ⟨stop | _, t⟩ <;> rw [hhandle] at hn <;> cases hn
  · exact .inl ⟨stop, n, exec_bind_of_error hhandle⟩
  · rw [readList, exec_bind_of_ok hhandle, exec_bind_of_ok (exec_call _)]
    by_cases hstatus : env.native.status n = .noError
    · rw [hstatus, exec_bind_of_ok (Status.exec_throwIfError_noError _ _)]
      exact .inr ⟨n + 1, rfl⟩
    · rw [exec_bind_of_error (Status.exec_throwIfError_of_ne hstatus _ _)]
      exact .inl ⟨_, n + 1, rfl⟩

theorem read_outcome (env : Env) (db : DatabaseId) (n : Nat) :
    Outcome env w (.read db) (exec (read env db) ⟨n, w⟩).1 (exec (read env db) ⟨n, w⟩).2.value := by
  rcases readList_cases env db ⟨n, w⟩ with ⟨stop, k, hfailed⟩ | ⟨k, hread⟩
  · rw [read, exec_bind_of_error hfailed]
    exact .failed _ _ nofun
  · rw [read, exec_bind_of_ok hread]
    exact .read db

theorem create_outcome (env : Env) (db : DatabaseId) (n : Nat) :
    Outcome env w (.create db) (exec (create env db) ⟨n, w⟩).1
      (exec (create env db) ⟨n, w⟩).2.value := by
  rw [create, exec_bind_of_ok (exec_call _)]
  by_cases hstatus : env.native.status n = .noError
  · simp only [hstatus]
    rw [exec_bind_of_ok (Status.exec_throwIfError_noError _ _)]
    exact .created db
  · rw [exec_bind_of_error (Status.exec_throwIfError_of_ne hstatus _ _)]
    exact .failed _ _ nofun

theorem keeps_lookupAccess (env : Env) (names : List UInt8) (image : Image) :
    Keeps (fun s => s.value = image) (lookupAccess env names) := by
  unfold lookupAccess
  refine Keeps.bind (fun _ hs => hs) fun result => Keeps.bind ?_ fun _ =>
    Keeps.bind (fun _ hs => hs) fun _ => Keeps.bind (Keeps.ofExcept _) fun _ => Keeps.pure _
  intro s hs
  rw [Status.exec_throwIfError]
  split <;> exact hs

theorem getAccess_outcome (env : Env) (db : DatabaseId) (names : List UInt8) (size n : Nat) :
    Outcome env w (.getAccess db names size)
      (exec (Functor.discard (getAccess env db names size)) ⟨n, w⟩).1
      (exec (getAccess env db names size) ⟨n, w⟩).2.value := by
  generalize (exec (Functor.discard (getAccess env db names size)) ⟨n, w⟩).1 = result
  unfold getAccess
  by_cases hsize : size = 0
  · rw [if_pos hsize]
    exact .refused db names size result
  · rw [if_neg hsize]
    rcases readList_cases env db ⟨n, w⟩ with ⟨stop, k, hfailed⟩ | ⟨k, hread⟩
    · rw [exec_bind_of_error hfailed]
      exact .refused db names size result
    · rw [exec_bind_of_ok hread]
      -- the manager frees its list in both cases
      let self : Object := ⟨0, db, some w.nextHandle, false, .manager⟩
      have hlist : self.list = some w.nextHandle := rfl
      have hlook := exec_onList (s := ⟨k, w.allocate (w.databases db)⟩) hlist
        (image_allocate (w.databases db)) (lookupAccess env names)
      have hkept : (exec (lookupAccess env names) ⟨k, w.databases db⟩).2.value = w.databases db :=
        keeps_lookupAccess env names _ _ rfl
      rw [hkept, write_self (image_allocate _)] at hlook
      rcases hresult : (exec (lookupAccess env names) ⟨k, w.databases db⟩).1 with stop | access <;>
        rw [hresult] at hlook
      · rw [exec_bind_of_error (by rw [exec_tryCatch, hlook]; rfl)]
        exact .lookedUp db names size result
      · rw [exec_bind_of_ok (by rw [exec_tryCatch, hlook])]
        exact .lookedUp db names size result

theorem invoke_outcome {id : ObjectId} {self : Object} {handle : Handle} {image : Image}
    (method : Method) (hself : w.object id = some self) (hlist : self.list = some handle)
    (himage : w.image (some handle) = some image) :
    Outcome env w (.invoke id method) (exec (invoke env id method) ⟨0, w⟩).1
      (exec (invoke env id method) ⟨0, w⟩).2.value := by
  have hrun := exec_onList (s := ⟨0, w⟩) hlist himage (method.run env self.content)
  rw [invoke, exec_bind_of_ok (exec_this hself)]
  rcases hresult : (exec (method.run env self.content) ⟨0, image⟩).1 with stop | ⟨content, made⟩ <;>
    rw [hresult] at hrun
  · rw [exec_bind_of_error hrun]
    exact .stopped method hself hlist himage stop
  · rw [exec_bind_of_ok hrun]
    exact .invoked method hself hlist himage content made

theorem save_outcome {id : ObjectId} {self : Object} {handle : Handle} {image : Image}
    (hself : w.object id = some self) (hlist : self.list = some handle)
    (himage : w.image (some handle) = some image) (n : Nat) :
    Outcome env w (.save id) (exec (save env id) ⟨n, w⟩).1
      (exec (save env id) ⟨n, w⟩).2.value := by
  rw [save, exec_bind_of_ok (exec_this hself)]
  obtain ⟨k, hk⟩ := value_databaseHandle env ⟨n, w⟩
  rcases hhandle : exec (databaseHandle env) ⟨n, w⟩ with ⟨stop | _, t⟩ <;> rw [hhandle] at hk <;>
    cases hk
  · rw [exec_bind_of_error hhandle]
    exact .failed _ _ nofun
  · have hvalue := exec_onList (s := ⟨k, w⟩) hlist himage Native.value
    rw [exec_value, write_self himage] at hvalue
    rw [exec_bind_of_ok hhandle, exec_bind_of_ok hvalue, exec_bind_of_ok (exec_call _)]
    by_cases hstatus : env.native.status k = .noError
    · simp only [hstatus]
      rw [exec_bind_of_ok (Status.exec_throwIfError_noError _ _), hlist]
      exact .saved hself hlist himage
    · rw [exec_bind_of_error (Status.exec_throwIfError_of_ne hstatus _ _)]
      exact .failed _ _ nofun

/-! ## Steps -/

theorem exists_object {id : ObjectId} {p : Object → Bool} (h : (w.object id).any p = true) :
    ∃ self, w.object id = some self ∧ p self = true := by
  cases hobject : w.object id with
  | none => simp [hobject] at h
  | some self => exact ⟨self, rfl, by simpa [hobject] using h⟩

/-- An object that was not moved from has its list. -/
theorem Inv.exists_list (h : Inv none w) {id : ObjectId} {self : Object}
    (hself : w.object id = some self) (hlist : self.list.isSome) :
    ∃ handle image, self.list = some handle ∧ w.image (some handle) = some image := by
  obtain ⟨handle, hhandle⟩ := Option.isSome_iff_exists.mp hlist
  obtain ⟨image, himage⟩ := exists_image (h.living self (Table.mem_of_lookup _ hself) handle hhandle)
  exact ⟨handle, image, hhandle, himage⟩

theorem step_outcome (env : Env) (h : Inv none w) (call : Call) :
    Outcome (env.withNative call.native) w call.op (ending env w call) (step env w call) := by
  obtain ⟨native, op⟩ := call
  unfold step ending
  by_cases hable : op.able w = true
  · rw [if_pos hable, if_pos hable]
    cases op with
    | read db => exact read_outcome _ db 0
    | create db => exact create_outcome _ db 0
    | getAccess db names size =>
        simp only [Op.perform]
        rw [exec_discard]
        exact getAccess_outcome _ db names size 0
    | invoke id method =>
        obtain ⟨self, hself, hable⟩ := exists_object hable
        obtain ⟨handle, image, hlist, himage⟩ :=
          h.exists_list hself (Bool.and_eq_true_iff.mp hable).1
        exact invoke_outcome method hself hlist himage
    | save id =>
        obtain ⟨self, hself, hable⟩ := exists_object hable
        obtain ⟨handle, image, hlist, himage⟩ :=
          h.exists_list hself (Bool.and_eq_true_iff.mp hable).1
        exact save_outcome hself hlist himage 0
    | copy id =>
        obtain ⟨self, hself, -⟩ := exists_object hable
        rw [Op.perform, copy, exec_bind_of_ok (exec_this hself)]
        exact .copied hself
    | move id =>
        obtain ⟨self, hself, -⟩ := exists_object hable
        rw [Op.perform, move, exec_bind_of_ok (exec_this hself)]
        exact .moved hself
    | assign id other =>
        obtain ⟨self, hself, hable⟩ := exists_object hable
        obtain ⟨value, hvalue, -⟩ := exists_object hable
        rw [Op.perform, assign, exec_bind_of_ok (exec_this hself), exec_bind_of_ok (exec_this hvalue)]
        exact .assigned hself hvalue
    | drop id =>
        obtain ⟨self, hself⟩ := Option.isSome_iff_exists.mp hable
        rw [Op.perform, drop, exec_bind_of_ok (exec_this hself)]
        exact .dropped hself
  · rw [if_neg hable, if_neg hable]
    exact .failed _ _ fun h => absurd h hable

end Dmn.AclSession
