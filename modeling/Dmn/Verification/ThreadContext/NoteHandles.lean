import Mathlib.Data.List.Pairwise
import Dmn.Verification.ThreadContext.Runs

/-! # Handles of notes at the end of a thread

The handle that finds a note by UNID is the only one that is not put into a `scoped_handle`.
All others have been closed once the notes are gone and the context has ended. -/

namespace Dmn.ThreadContext

open Exec Native

/-! ## What is opened while a program runs -/

/-- Not openings of the same handle. -/
def Event.Apart (event other : Event) : Prop :=
  ∀ handle opening opening', event = .opened handle opening → other ≠ .opened handle opening'

/-- Later in the same run: what was opened since satisfies `p` and has a new handle. -/
structure Later (p : Opening → Prop) (w w' : World) : Prop where
  le : w.nextHandle ≤ w'.nextHandle
  trace : ∃ new, w'.trace = new ++ w.trace ∧ new.Pairwise Event.Apart ∧
    ∀ handle opening, .opened handle opening ∈ new →
      p opening ∧ w.nextHandle ≤ handle ∧ handle < w'.nextHandle

variable {env : Env} {p : Opening → Prop} {w w' w'' : World}

namespace Later

/-- Nothing is opened. -/
theorem of_trace_eq (new : List Event) (hhandle : w'.nextHandle = w.nextHandle)
    (htrace : w'.trace = new ++ w.trace) (hnew : ∀ handle opening, .opened handle opening ∉ new) :
    Later p w w' := by
  refine ⟨hhandle.ge, new, htrace, ?_, fun handle opening hmem => absurd hmem (hnew _ _)⟩
  refine List.pairwise_of_forall_mem_list fun event hevent other _ handle opening opening' heq => ?_
  exact absurd (heq ▸ hevent) (hnew handle opening)

theorem refl (w : World) : Later p w w := of_trace_eq [] rfl rfl (by simp)

theorem trans (h : Later p w w') (h' : Later p w' w'') : Later p w w'' := by
  obtain ⟨hle, new, htrace, hapart, hnew⟩ := h
  obtain ⟨hle', new', htrace', hapart', hnew'⟩ := h'
  refine ⟨Nat.le_trans hle hle', new' ++ new, by rw [htrace', htrace, List.append_assoc], ?_, ?_⟩
  · refine List.pairwise_append.mpr ⟨hapart', hapart, ?_⟩
    rintro _ hevent _ hother handle opening opening' rfl rfl
    have hge := (hnew' handle opening hevent).2.1
    have hlt := (hnew handle opening' hother).2.2
    exact absurd hlt (Nat.not_lt_of_le hge)
  · intro handle opening hmem
    rcases List.mem_append.mp hmem with hmem | hmem
    · obtain ⟨hp, hge, hlt⟩ := hnew' handle opening hmem
      exact ⟨hp, Nat.le_trans hle hge, hlt⟩
    · obtain ⟨hp, hge, hlt⟩ := hnew handle opening hmem
      exact ⟨hp, hge, Nat.lt_of_lt_of_le hlt hle'⟩

theorem weaken {q : Opening → Prop} (h : Later p w w') (hpq : ∀ opening, p opening → q opening) :
    Later q w w' := by
  obtain ⟨hle, new, htrace, hapart, hnew⟩ := h
  exact ⟨hle, new, htrace, hapart, fun handle opening hmem =>
    ⟨hpq _ (hnew handle opening hmem).1, (hnew handle opening hmem).2⟩⟩

theorem mem_trace (h : Later p w w') {event : Event} (hmem : event ∈ w.trace) :
    event ∈ w'.trace := by
  obtain ⟨_, new, htrace, _⟩ := h
  rw [htrace]
  exact List.mem_append_right _ hmem

/-! ### Changes of the state -/

theorem log (w : World) {event : Event} (h : ∀ handle opening, event ≠ .opened handle opening) :
    Later p w (w.log event) := by
  refine of_trace_eq [event] rfl rfl fun handle opening hmem => ?_
  exact h handle opening (List.mem_singleton.mp hmem).symm

theorem eraseIf (w : World) (kind : Kind) (q : Entry → Bool) : Later p w (w.eraseIf kind q) := by
  refine of_trace_eq _ rfl rfl fun handle opening hmem => ?_
  obtain ⟨entry, _, heq⟩ := List.mem_map.mp hmem
  cases heq

theorem sweep (w : World) (kind : Kind) : Later p w (w.sweep kind) :=
  (eraseIf w kind _).trans (log _ nofun)

theorem opens (w : World) {opening : Opening} (noteId : Option UInt32) (h : p opening) :
    Later p w (w.opens opening noteId) := by
  refine ⟨Nat.le_succ _, [.opened w.nextHandle opening], rfl, List.pairwise_singleton _ _, ?_⟩
  intro handle other hmem
  cases List.mem_singleton.mp hmem
  exact ⟨h, Nat.le_refl _, Nat.lt_succ_self _⟩

theorem place (w : World) (kind : Kind) (entry : Entry) : Later p w (w.place kind entry) :=
  of_trace_eq [.placed kind entry.handle entry.state] rfl rfl (by simp)

theorem close (w : World) (handle : Handle) : Later p w (w.close handle) := log w nofun

theorem endContext (w : World) : Later p w w.endContext := by
  have hcleared : Later p w ((w.eraseIf .database fun _ => true).eraseIf .note fun _ => true) :=
    (eraseIf w _ _).trans (eraseIf _ _ _)
  exact hcleared.trans (of_trace_eq [.ended] rfl rfl (by simp))

theorem born (w : World) (cell : Cell) : Later p w (w.born cell) :=
  of_trace_eq [] rfl rfl (by simp)

theorem release (w : World) (id : StateId) : Later p w (w.release id) := by
  unfold World.release
  split
  · exact refl w
  · split
    · exact refl w
    · next cell _ =>
      have hdead : Later p w
          { w.log (.died id) with heap := Table.erase Cell.id id w.heap } :=
        of_trace_eq [.died id] rfl rfl (by simp)
      cases cell.state.hdl with
      | none => exact hdead
      | some handle => exact hdead.trans (close _ handle)

theorem forget (w : World) (id : StateId) : Later p w (w.forget id) :=
  of_trace_eq [] rfl rfl (by simp)

theorem drop (w : World) (id : StateId) : Later p w (w.drop id) := by
  have hreleased : Later p w ((w.forget id).release id) := (forget w id).trans (release _ id)
  unfold World.drop
  split
  · exact hreleased
  · exact hreleased.trans (release _ _)

theorem copy (w : World) (id : StateId) : Later p w (w.copy id) := of_trace_eq [] rfl rfl (by simp)

theorem assign (w : World) (id : StateId) (f : State → State) : Later p w (w.assign id f) :=
  of_trace_eq [] rfl rfl (by simp)

end Later

/-! ### Programs -/

/-- The program opens handles of the kind `p` only. -/
def Opens {α : Type} (p : Opening → Prop) (x : M α) : Prop := ∀ w, Preserves (Later p w) x

namespace Opens

variable {α β : Type}

theorem update {f : World → World} (h : ∀ w, Later p w (f w)) : Opens p (Native.update f) :=
  fun _ => Preserves.update fun v hv => hv.trans (h v)

theorem reads {x : M α} (h : Reads x) : Opens p x := fun _ => h.preserves

theorem bind {x : M α} {f : α → M β} (hx : Opens p x) (hf : ∀ a, Opens p (f a)) :
    Opens p (x >>= f) := fun w => (hx w).bind fun a => hf a w

theorem weaken {q : Opening → Prop} {x : M α} (h : Opens p x)
    (hpq : ∀ opening, p opening → q opening) : Opens q x := by
  intro w s hs
  have hlater : Later p s.value (exec x s).2.value := h s.value s (.refl _)
  exact hs.trans (hlater.weaken hpq)

theorem later {x : M α} (h : Opens p x) (s : Called World) : Later p s.value (exec x s).2.value :=
  h s.value s (.refl _)

theorem discard {x : M α} (h : Opens p x) : Opens p (Functor.discard x) :=
  fun w => Keeps.discard (h w)

theorem current : Opens p current := by
  refine .reads (.bind .value fun w => ?_)
  split
  · exact .pure _
  · exact .throw _

theorem make (state : State) : Opens p (make env state) :=
  .bind (.reads .value) fun _ => .bind (.update fun w => .born w _) fun _ => .reads (.pure _)

theorem owning {x : M α} (id : StateId) (hx : Opens p x) : Opens p (owning id x) := by
  intro w
  refine Keeps.tryCatch (hx w) fun _ => ?_
  exact Keeps.bind (update (fun w => .drop w id) w) fun _ => .throw _

theorem opened {opening : Opening} (noteId : Option UInt32) (h : p opening) :
    Opens p (opened opening noteId) :=
  .bind (.reads .value) fun _ => .bind (.update fun w => .opens w noteId h) fun _ => .reads (.pure _)

theorem find (kind : Kind) (cell : Cell) : Opens p (find kind cell) := by
  refine .bind (.reads .value) fun w => ?_
  split
  · exact .reads (.pure _)
  · split
    · exact .reads (.pure _)
    · exact .bind (.update fun w => .eraseIf w kind _) fun _ => .reads (.pure _)

theorem insert (kind : Kind) (cell : Cell) (handle : Handle) :
    Opens p (insert kind cell handle) := by
  refine .bind (.reads .value) fun w => ?_
  split
  · exact .bind (.update fun w => .close w handle) fun _ => .reads (.pure _)
  · exact .bind (.update fun w => .place w kind _) fun _ => .reads (.pure _)

/-- The part of the methods after a native call that opens a handle. -/
theorem opened_insert {opening : Opening} (noteId : Option UInt32) (kind : Kind) (cell : Cell)
    (h : p opening) {f : Entry → M β} (hf : ∀ entry, Opens p (f entry)) :
    Opens p (do
      let handle ← ThreadContext.opened opening noteId
      let entry ← ThreadContext.insert kind cell handle
      f entry) :=
  .bind (.opened noteId h) fun _ => .bind (.insert kind cell _) hf

theorem deref_database (id : StateId) : Opens p (Database.deref id) := by
  refine .reads (.bind .value fun w => ?_)
  split
  · exact .throw _
  · split
    · exact .pure _
    · exact .throw _

theorem deref_note (id : StateId) : Opens p (Note.deref id) := by
  refine .reads (.bind .value fun w => ?_)
  split
  · exact .throw _
  · split
    · exact .pure _
    · exact .throw _

end Opens

/-- Put into a `scoped_handle`. -/
def Opening.Managed (opening : Opening) : Prop := opening.managed = true

theorem managed_database (id : StateId) (path : List UInt8) (names : UInt32) :
    Opening.Managed (.database id path names) := rfl

theorem managed_note (id : StateId) (db : Handle) (noteId : UInt32) :
    Opening.Managed (.note id db noteId) := rfl

theorem Database.opens_openImpl (id : StateId) : Opens Opening.Managed (Database.openImpl env id) := by
  refine .bind .current fun _ => .bind (.update fun w => .sweep w _) fun _ =>
    .bind (.deref_database id) fun ⟨cell, state⟩ => .bind (fun _ => Keeps.ofExcept _) fun names =>
    .bind (.reads .call) fun result => ?_
  split
  · exact .reads (.pure _)
  · exact .bind (.reads (.throwIfError _ _)) fun _ =>
      .opened_insert none .database cell (managed_database _ _ _) fun _ => .reads (.pure _)

theorem Database.opens_openFile (file : List UInt8) (names : Option UInt32) :
    Opens Opening.Managed (Database.openFile env file names) := by
  refine .bind (.make _) fun db => .bind (.owning _ (Database.opens_openImpl _)) fun handle => ?_
  split
  · exact .bind (.update fun w => .drop w _) fun _ => .reads (.pure _)
  · exact .reads (.pure _)

theorem Database.opens_create (file : List UInt8) :
    Opens Opening.Managed (Database.create env file) :=
  .bind (.reads .call) fun _ => .bind (.reads (.throwIfError _ _)) fun _ =>
    Database.opens_openFile file none

theorem Database.opens_getHandle (id : StateId) :
    Opens Opening.Managed (Database.getHandle env id) := by
  refine .bind .current fun _ => .bind (.update fun w => .sweep w _) fun _ =>
    .bind (.deref_database id) fun ⟨cell, _⟩ => .bind (.find _ cell) fun entry => ?_
  split
  · exact .reads (.pure _)
  · refine .bind (Database.opens_openImpl id) fun handle => ?_
    split
    · exact .reads (.throw _)
    · exact .reads (.pure _)

theorem Note.opens_openImpl (id : StateId) : Opens Opening.Managed (Note.openImpl env id) := by
  refine .bind .current fun _ => .bind (.update fun w => .sweep w _) fun _ =>
    .bind (.deref_note id) fun ⟨cell, state⟩ => .bind (Database.opens_getHandle _) fun db =>
    .bind (.reads .call) fun result => ?_
  split
  · exact .reads (.pure _)
  · exact .bind (.reads (.throwIfError _ _)) fun _ =>
      .opened_insert (some state.noteId) .note cell (managed_note _ _ _) fun _ => .reads (.pure _)

theorem Note.opens_openId (db : StateId) (noteId : UInt32) :
    Opens Opening.Managed (Note.openId env db noteId) := by
  refine .bind (.make _) fun nt => .bind (.owning _ (Note.opens_openImpl _)) fun handle => ?_
  split
  · exact .bind (.update fun w => .drop w _) fun _ => .reads (.pure _)
  · exact .reads (.pure _)

theorem Note.opens_create (db : StateId) : Opens Opening.Managed (Note.create env db) :=
  .bind (Database.opens_getHandle db) fun _ => .bind (.reads .call) fun _ =>
    .bind (.reads (.throwIfError _ _)) fun _ => .bind (.opened none rfl) fun _ =>
    .bind (.make _) fun _ => .reads (.pure _)

theorem Note.opens_getHandle (id : StateId) : Opens Opening.Managed (Note.getHandle env id) := by
  refine .bind (.deref_note id) fun result => ?_
  obtain ⟨cell, state⟩ := result
  dsimp only
  split
  · exact .reads (.pure _)
  · refine .bind .current fun _ => .bind (.update fun w => .sweep w _) fun _ =>
      .bind (.find _ cell) fun entry => ?_
    split
    · exact .reads (.pure _)
    · exact .bind (Database.opens_getHandle _) fun _ => .bind (.reads .call) fun _ =>
        .bind (.reads (.throwIfError _ _)) fun _ =>
        .opened_insert (some state.noteId) .note cell (managed_note _ _ _) fun _ => .reads (.pure _)

theorem Later.updated (w : World) (handle : Handle) (noteId : UInt32) :
    Later p w (Note.updated handle noteId w) := by
  unfold Note.updated
  split
  · exact .refl w
  · exact .of_trace_eq [] rfl rfl (by simp)

theorem Note.opens_save (id : StateId) : Opens Opening.Managed (Note.save env id) := by
  refine .bind (Note.opens_getHandle id) fun handle => .bind (.reads fun _ => rfl) fun s =>
    .bind (.reads .call) fun _ => .bind (.reads (.throwIfError _ _)) fun _ =>
    .bind (.update fun w => .updated w _ _) fun _ => .bind (Note.opens_getHandle id) fun handle =>
    .bind (.reads .value) fun w => .bind (.deref_note id) fun ⟨_, state⟩ =>
    .bind (.update fun w => .assign w id _) fun _ => ?_
  split
  · exact .reads (.pure _)
  · exact .update fun w => .close w _

theorem opens_getHandle (id : StateId) : Opens Opening.Managed (getHandle env id) := by
  refine .bind (.reads .value) fun w => ?_
  split
  · exact .reads (.throw _)
  · split
    · exact Database.opens_getHandle id
    · exact Note.opens_getHandle id

/-! ## Opening by UNID -/

/-- `NSFNoteOpenByUNID` finds a note. -/
def Note.Finds (env : Env) (db : StateId) (s : Called World) : Prop :=
  ∃ handle t, exec (Database.getHandle env db) s = (.ok handle, t) ∧
    env.native.status t.calls = .noError

/-- What follows on the call that opens a note by UNID. -/
theorem Note.opens_rest_openUnid (db : StateId) (dbHandle : Handle) (unid : Unid)
    (noteId : Option UInt32) : Opens (fun _ => True) (do
      let handle ← opened (.unid dbHandle unid) noteId
      let w ← Native.value
      openId env db ((w.noteIds handle).getD 0)) :=
  .bind (.opened noteId trivial) fun _ => .bind (.reads .value) fun _ =>
    (Note.opens_openId db _).weaken fun _ _ => trivial

theorem exec_openUnid_of_ok {db : StateId} {unid : Unid} {s t : Called World} {dbHandle : Handle}
    (h : exec (Database.getHandle env db) s = (.ok dbHandle, t)) :
    exec (Note.openUnid env db unid) s =
      exec (if (env.native.status t.calls).isNotFound then pure none
        else do
          (env.native.status t.calls).throwIfError "Failed to open note"
          let handle ← opened (.unid dbHandle unid) (some (env.noteId t.calls))
          let w ← Native.value
          Note.openId env db ((w.noteIds handle).getD 0)) { t with calls := t.calls + 1 } := by
  unfold Note.openUnid
  rw [exec_bind_of_ok h, exec_bind_of_ok (exec_get t), exec_bind_of_ok (exec_call t)]

theorem Note.later_openUnid_of_not_finds {db : StateId} {unid : Unid} {s : Called World}
    (h : ¬ Note.Finds env db s) :
    Later Opening.Managed s.value (exec (Note.openUnid env db unid) s).2.value := by
  have hopens : Opens Opening.Managed (Database.getHandle env db) := Database.opens_getHandle db
  have hfirst := hopens.later s
  rcases hresult : exec (Database.getHandle env db) s with ⟨stop | dbHandle, t⟩
  · rw [Note.openUnid, exec_bind_of_error hresult]
    rwa [hresult] at hfirst
  · rw [hresult] at hfirst
    have hstatus : env.native.status t.calls ≠ .noError := fun heq => h ⟨dbHandle, t, hresult, heq⟩
    rw [exec_openUnid_of_ok hresult]
    split
    · exact hfirst
    · rw [exec_bind_of_error (Status.exec_throwIfError_of_ne hstatus _ _)]
      exact hfirst

/-- The handle by which the note was found stays in the trace. -/
theorem Note.Finds.mem_trace {db : StateId} {s : Called World} (h : Note.Finds env db s)
    (unid : Unid) : ∃ handle dbHandle,
      .opened handle (.unid dbHandle unid) ∈ (exec (Note.openUnid env db unid) s).2.value.trace := by
  obtain ⟨dbHandle, t, hresult, hstatus⟩ := h
  rw [exec_openUnid_of_ok hresult, hstatus]
  let opening : Opening := .unid dbHandle unid
  have hrest : Opens (fun _ => True) (do
      let w ← Native.value
      Note.openId env db ((w.noteIds t.value.nextHandle).getD 0)) :=
    .bind (.reads .value) fun _ => (Note.opens_openId db _).weaken fun _ _ => trivial
  have hlater := hrest.later ⟨t.calls + 1, t.value.opens opening (some (env.noteId t.calls))⟩
  exact ⟨t.value.nextHandle, dbHandle, hlater.mem_trace List.mem_cons_self⟩

theorem Note.opens_openUnid (db : StateId) (unid : Unid) :
    Opens (fun _ => True) (Note.openUnid env db unid) := by
  refine .bind ((Database.opens_getHandle db).weaken fun _ _ => trivial) fun dbHandle =>
    .bind (.reads fun _ => rfl) fun s => .bind (.reads .call) fun result => ?_
  split
  · exact .reads (.pure _)
  · exact .bind (.reads (.throwIfError _ _)) fun _ => Note.opens_rest_openUnid db dbHandle unid _

/-! ## Runs -/

/-- The operation is called and opens a note by its UNID. -/
def Op.FindsUnid (env : Env) (s : Called World) (op : Op) : Prop :=
  op.able s.value = true ∧ ∃ db unid, op = .openUnid db unid ∧ Note.Finds env db s

theorem Op.later_perform (op : Op) (s : Called World) (hable : op.able s.value = true)
    (h : ¬ op.FindsUnid env s) : Later Opening.Managed s.value (exec (op.perform env) s).2.value := by
  cases op with
  | openDatabase file names => exact (Database.opens_openFile file names).discard.later s
  | createDatabase file => exact (Database.opens_create file).discard.later s
  | createNote db => exact (Note.opens_create db).discard.later s
  | openNote db noteId => exact (Note.opens_openId db noteId).discard.later s
  | openUnid db unid =>
      have hfinds : ¬ Note.Finds env db s := fun hf => h ⟨hable, db, unid, rfl, hf⟩
      rw [Op.perform, exec_discard]
      exact Note.later_openUnid_of_not_finds hfinds
  | save note => exact (Note.opens_save note).later s
  | copy id => exact .copy _ id
  | drop id => exact .drop _ id
  | getHandle id => exact (opens_getHandle id).discard.later s
  | endContext => exact .endContext _

theorem later_step_of_not_findsUnid {s : Called World} {op : Op} (h : ¬ op.FindsUnid env s) :
    Later Opening.Managed s.value (step env s op).value := by
  unfold step
  split
  · next hable => exact op.later_perform s hable h
  · exact .refl _

theorem Op.FindsUnid.step_eq {s : Called World} {op : Op} (h : op.FindsUnid env s) :
    ∃ db unid, Note.Finds env db s ∧ step env s op = (exec (Note.openUnid env db unid) s).2 := by
  obtain ⟨hable, db, unid, rfl, hfinds⟩ := h
  refine ⟨db, unid, hfinds, ?_⟩
  rw [step, if_pos hable, Op.perform, exec_discard]

theorem later_step (s : Called World) (op : Op) :
    Later (fun _ => True) s.value (step env s op).value := by
  by_cases h : op.FindsUnid env s
  · obtain ⟨db, unid, _, hstep⟩ := h.step_eq
    rw [hstep]
    exact (Note.opens_openUnid db unid).later s
  · exact (later_step_of_not_findsUnid h).weaken fun _ _ => trivial

theorem later_run (s : Called World) (ops : List Op) :
    Later (fun _ => True) s.value (Run.after (step env) s ops).value := by
  induction ops generalizing s with
  | nil => exact .refl _
  | cons op ops ih => exact (later_step s op).trans (ih _)

theorem later_run_of_along {s : Called World} {ops : List Op}
    (h : Run.Along (step env) (fun s op => ¬ op.FindsUnid env s) s ops) :
    Later Opening.Managed s.value (Run.after (step env) s ops).value := by
  induction ops generalizing s with
  | nil => exact .refl _
  | cons op ops ih => exact (later_step_of_not_findsUnid h.1).trans (ih h.2)

/-- Where a note was found by UNID, the trace shows it. -/
theorem exists_unid_of_not_along {s : Called World} {ops : List Op}
    (h : ¬ Run.Along (step env) (fun s op => ¬ op.FindsUnid env s) s ops) :
    ∃ handle db unid,
      .opened handle (.unid db unid) ∈ (Run.after (step env) s ops).value.trace := by
  induction ops generalizing s with
  | nil => exact absurd trivial h
  | cons op ops ih =>
      by_cases hfinds : op.FindsUnid env s
      · obtain ⟨db, unid, hdb, hstep⟩ := hfinds.step_eq
        obtain ⟨handle, dbHandle, hmem⟩ := hdb.mem_trace unid
        rw [← hstep] at hmem
        exact ⟨handle, dbHandle, unid, (later_run _ ops).mem_trace hmem⟩
      · exact ih fun hrest => h ⟨hfinds, hrest⟩

/-! ## After the last note -/

/-- Obtained from `NSFNoteOpen`, `NSFNoteOpenByUNID` or `NSFNoteCreate`. -/
def Opening.ofNote : Opening → Bool
  | database _ _ _ => false
  | note _ _ _ | unid _ _ | created _ => true

/-- No object is a note any more, and the context has ended. -/
structure Finished (w : World) : Prop where
  notes : ∀ id ∈ w.owners, ∀ cell ∈ w.heap, cell.id = id → cell.state.kind = .database
  ended : .ended ∈ w.trace

/-- Every handle of a note was closed exactly once. -/
def NoteHandlesClosed (w : World) : Prop :=
  ∀ handle opening, .opened handle opening ∈ w.trace → opening.ofNote = true →
    closings w.trace handle = 1

theorem Finished.holders_eq_zero {s : Called World} (h : Finished s.value) (hs : Sound s)
    (handle : Handle) : s.value.holders handle = 0 := by
  have hstores := hs.inv.stores.ended (hs.inv.history.ended h.ended)
  have hheap : s.value.heap.countP (fun cell => cell.state.hdl = some handle) = 0 := by
    refine List.countP_eq_zero.mpr fun cell hcell hhdl => ?_
    have hkind : cell.state.kind = .database := by
      rcases owned_iff.mp (hs.tended cell hcell (by simp)) with howner | ⟨other, hother, hdb⟩
      · exact h.notes cell.id howner cell hcell rfl
      · obtain ⟨db, hmem, hid, hdatabase⟩ := hs.inv.heap.db other hother _ hdb
        rwa [← Table.eq_of_key_eq Cell.id hmem hcell hs.inv.heap.ids hid]
    cases hstate : cell.state with
    | database _ => simp [hstate, State.hdl] at hhdl
    | note _ =>
        rw [hstate] at hkind
        cases hkind
  unfold World.holders
  rw [hstores, hstores, hheap]
  rfl

/-- What was put into a `scoped_handle` is closed exactly once, and nothing else is. -/
theorem Finished.closings_eq_openings {s : Called World} (h : Finished s.value) (hs : Sound s)
    (handle : Handle) : closings s.value.trace handle = openings s.value.trace handle := by
  have hbalance := hs.inv.accounts.balance handle
  have hholders := h.holders_eq_zero hs handle
  simp only [List.count_nil] at hbalance
  omega

instance : Std.Symm Event.Apart :=
  ⟨fun _ _ h handle opening opening' heq hne => h handle opening' opening hne heq⟩

/-- No handle is opened twice. -/
theorem Later.opening_unique {w : World} (h : Later p World.start w) {handle : Handle}
    {opening opening' : Opening} (hmem : .opened handle opening ∈ w.trace)
    (hmem' : .opened handle opening' ∈ w.trace) : opening = opening' := by
  obtain ⟨_, new, htrace, hapart, _⟩ := h
  rw [World.start, List.append_nil] at htrace
  rw [htrace] at hmem hmem'
  by_contra hne
  have hevents := hapart.forall hmem hmem' fun heq => hne (Event.opened.inj heq).2
  exact hevents handle opening opening' rfl rfl

theorem openings_eq_zero_of_unid {w : World} (h : Later p World.start w) {handle db : Handle}
    {unid : Unid} (hmem : .opened handle (.unid db unid) ∈ w.trace) :
    openings w.trace handle = 0 := by
  refine List.countP_eq_zero.mpr fun event hevent hopens => ?_
  cases event with
  | opened other opening =>
      obtain ⟨rfl, hmanaged⟩ : other = handle ∧ opening.managed = true := by
        simpa [Event.opens] using hopens
      rw [h.opening_unique hevent hmem] at hmanaged
      cases hmanaged
  | placed _ _ _ => cases hopens
  | closed _ => cases hopens
  | died _ => cases hopens
  | swept _ => cases hopens
  | ended => cases hopens

/-- The handles of the notes have all been closed exactly once, at the end of a thread, just if
no note was found by UNID. -/
theorem noteHandlesClosed_iff (env : Env) (ops : List Op)
    (hfinished : Finished (Run.after (step env) ⟨0, World.start⟩ ops).value) :
    NoteHandlesClosed (Run.after (step env) ⟨0, World.start⟩ ops).value ↔
      Run.Along (step env) (fun s op => ¬ op.FindsUnid env s) ⟨0, World.start⟩ ops := by
  have hs : Sound (Run.after (step env) ⟨0, World.start⟩ ops) := sound_run ops
  constructor
  · intro hclosed
    by_contra halong
    obtain ⟨handle, db, unid, hmem⟩ := exists_unid_of_not_along halong
    have hclosings := hclosed handle _ hmem rfl
    rw [hfinished.closings_eq_openings hs handle,
      openings_eq_zero_of_unid (later_run ⟨0, World.start⟩ ops) hmem] at hclosings
    cases hclosings
  · intro halong handle opening hmem _
    obtain ⟨_, new, htrace, _, hnew⟩ := later_run_of_along halong
    rw [World.start, List.append_nil] at htrace
    have hmanaged : opening.managed = true := (hnew handle opening (htrace ▸ hmem)).1
    have hpos : 0 < openings (Run.after (step env) ⟨0, World.start⟩ ops).value.trace handle :=
      List.countP_pos_iff.mpr ⟨_, hmem, by simp [Event.opens, hmanaged]⟩
    have honce := hs.inv.accounts.once handle
    rw [hfinished.closings_eq_openings hs handle]
    omega

def savedOnce : List Op :=
  [.openDatabase [0x61] none, .createNote 0, .save 1, .drop 1, .drop 0, .endContext]

/-- A note that is created, saved and dropped leaves no handle open. -/
theorem noteHandlesClosed_iff_savedOnce :
    Finished (Run.after (step sampleEnv) ⟨0, World.start⟩ savedOnce).value ∧
      (NoteHandlesClosed (Run.after (step sampleEnv) ⟨0, World.start⟩ savedOnce).value ↔
        Run.Along (step sampleEnv) (fun s op => ¬ op.FindsUnid sampleEnv s) ⟨0, World.start⟩
          savedOnce) :=
  have hfinished : Finished (Run.after (step sampleEnv) ⟨0, World.start⟩ savedOnce).value :=
    ⟨by decide +kernel, by decide +kernel⟩
  ⟨hfinished, noteHandlesClosed_iff sampleEnv savedOnce hfinished⟩

/-- The handle of the note that is looked for by its UNID is never closed. -/
theorem not_noteHandlesClosed_of_unid : ¬ ∀ (env : Env) (ops : List Op),
    Finished (Run.after (step env) ⟨0, World.start⟩ ops).value →
      NoteHandlesClosed (Run.after (step env) ⟨0, World.start⟩ ops).value := by
  intro h
  have hclosed := h sampleEnv [.openDatabase [0x61] none, .openUnid 0 5, .drop 1, .drop 0,
    .endContext] ⟨by decide +kernel, by decide +kernel⟩ 2 (.unid 1 5) (by decide +kernel) rfl
  revert hclosed
  decide +kernel

end Dmn.ThreadContext
