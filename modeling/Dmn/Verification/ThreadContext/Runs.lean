import Mathlib.Algebra.Order.BigOperators.Group.List
import Mathlib.Algebra.Order.Ring.Nat
import Dmn.Library.Run
import Dmn.Verification.ThreadContext.Methods

/-! # Runs of a program on one thread

Every operation keeps the invariant, whether it returns or throws. What is promised of
handles follows from it. -/

namespace Dmn.ThreadContext

open Exec Native

variable {env : Env} {hand : List Handle}

/-! ## Operations -/

structure Sound (s : Called World) : Prop where
  inv : Inv [] s.value
  tended : s.value.Tended none

def SoundStop (stop : Stop) (s : Called World) : Prop := Sound s ∧ stop ≠ .undefined

theorem Sound.called {s : Called World} (h : Sound s) (calls : Nat) :
    Sound { s with calls := calls } := ⟨h.inv, h.tended⟩

/-- The database lives. -/
def HasDatabase (w : World) (id : StateId) : Prop :=
  ∃ cell ∈ w.heap, cell.id = id ∧ cell.state.kind = .database

theorem Within.tended {w₀ : World} {N : List Entry → Prop} {s : Called World}
    (h : Within w₀ N hand s) (htended : w₀.Tended none) : s.value.Tended none := by
  unfold World.Tended World.owned
  rw [h.heap, h.owners]
  exact htended

theorem Within.sound {w₀ : World} {N : List Entry → Prop} {s : Called World}
    (h : Within w₀ N [] s) (htended : w₀.Tended none) : Sound s :=
  ⟨h.inv, h.tended htended⟩

/-- A call begins. -/
theorem Inv.within {w : World} (h : Inv hand w) (calls : Nat) :
    Within w (fun _ => True) hand ⟨calls, w⟩ :=
  ⟨h, rfl, rfl, rfl, trivial⟩

/-- The state was just made. -/
structure Made (state : State) (cell : Cell) (s : Called World) : Prop where
  sound : Sound s
  alive : cell ∈ s.value.heap
  state : cell.state = state
  unstored : ∀ kind, Unstored s.value kind cell.id

theorem meets_make {state : State} {E : Stop → Called World → Prop} :
    Meets (fun s => Inv state.hdl.toList s.value ∧ s.value.Tended none ∧
        (∀ id, state.db = some id → HasDatabase s.value id) ∧
        ∀ id address handle, state.hdl = some handle →
          CreatedFor s.value.trace ⟨id, address, state⟩ handle)
      (make env state) (Made state) E := by
  apply meets_value_bind
  intro w
  let cell : Cell :=
    ⟨w.nextState, env.allocator.choose w.nextState (w.heap.map Cell.address), state⟩
  refine Meets.bind (Q := fun _ => Made state cell) (meets_update fun s hs => ?_)
    fun _ => Meets.pure fun _ hs => hs
  obtain ⟨⟨hinv, htended, hdb, hcreated⟩, rfl⟩ := hs
  have hborn : Inv [] (s.value.born cell) :=
    Inv.born (by rwa [List.append_nil]) rfl (env.allocator.choose_not_mem _ _) hdb (hcreated _ _)
  refine ⟨⟨hborn, htended.born cell⟩, List.mem_cons_self, rfl, ?_⟩
  · intro kind entry hentry
    exact (hinv.stores.known kind entry hentry).ne

theorem meets_owning {α : Type} {P : Called World → Prop} {x : M α} {Q : α → Called World → Prop}
    (id : StateId) (h : Meets P x Q SoundStop) : Meets P (owning id x) Q SoundStop := by
  apply h.tryCatch
  intro stop
  apply Meets.bind (Q := fun _ => SoundStop stop)
    (meets_update fun s hs => ⟨⟨hs.1.inv.drop id, hs.1.tended.drop hs.1.inv id⟩, hs.2⟩)
  intro _
  exact Meets.throw fun _ hs => hs

theorem meets_drop {E : Stop → Called World → Prop} (id : StateId) :
    Meets Sound (Native.update (World.drop id)) (fun _ => Sound) E :=
  meets_update fun _ hs => ⟨hs.inv.drop id, hs.tended.drop hs.inv id⟩

/-! ### `database` -/

theorem Database.meets_openFile (file : List UInt8) (names : Option UInt32) :
    Meets Sound (Database.openFile env file names) (fun _ => Sound) SoundStop := by
  unfold Database.openFile
  apply Meets.bind
  · apply meets_make.weaken
    · exact fun s hs => ⟨hs.inv, hs.tended, nofun, nofun⟩
    · exact fun _ _ hs => hs
    · exact fun _ _ hs => hs
  intro db
  have hopen : Meets (Made (.database ⟨Lmbcs.fromString env.codePage file, names⟩) db)
      (Database.openImpl env db.id) (fun _ => Sound) SoundStop := by
    apply Meets.of_start
    intro s₀ hmade
    apply (Database.meets_openImpl hmade.alive hmade.state).weaken
    · rintro s rfl
      exact ⟨hmade.sound.inv.within _, hmade.unstored .database⟩
    · exact fun _ _ hs => hs.1.sound hmade.sound.tended
    · exact fun _ _ hs => ⟨hs.1.sound hmade.sound.tended, hs.2⟩
  apply (meets_owning db.id hopen).bind
  intro handle
  cases handle with
  | none => exact (meets_drop db.id).bind fun _ => Meets.pure fun _ hs => hs
  | some handle => exact Meets.pure fun _ hs => hs

theorem Database.meets_create (file : List UInt8) :
    Meets Sound (Database.create env file) (fun _ => Sound) SoundStop := by
  unfold Database.create
  apply Meets.bind (meets_call fun _ hs => hs.called _)
  intro result
  apply Meets.bind (meets_throwIfError fun s hs => ⟨hs, by simp⟩)
  intro _
  exact Database.meets_openFile file none

/-- The handle of a living database. -/
theorem meets_getHandle_of_hasDatabase (id : StateId) :
    Meets (fun s => Sound s ∧ HasDatabase s.value id) (Database.getHandle env id)
      (fun handle s => (Sound s ∧ HasDatabase s.value id) ∧
        OpenedForDatabase s.value.trace id handle) SoundStop := by
  apply Meets.of_start
  intro s₀ hs₀
  obtain ⟨hsound, cell, hcell, rfl, hkind⟩ := hs₀
  cases hstate : cell.state with
  | note _ =>
      rw [hstate] at hkind
      cases hkind
  | database state =>
      apply (Database.meets_getHandle hcell hstate).weaken
      · rintro s rfl
        exact hsound.inv.within _
      · intro handle s hs
        have hheap : cell ∈ s.value.heap := hs.1.heap ▸ hcell
        exact ⟨⟨hs.1.sound hsound.tended, cell, hheap, rfl, hkind⟩,
          hs.1.inv.openedForDatabase hheap hstate hs.2⟩
      · exact fun _ _ hs => ⟨hs.1.sound hsound.tended, hs.2⟩

/-! ### `note` -/

theorem Note.meets_openId (db : StateId) (noteId : UInt32) :
    Meets (fun s => Sound s ∧ HasDatabase s.value db) (Note.openId env db noteId) (fun _ => Sound)
      SoundStop := by
  unfold Note.openId
  apply Meets.bind
  · apply meets_make.weaken
    · refine fun s hs => ⟨hs.1.inv, hs.1.tended, fun id h => ?_, nofun⟩
      cases h
      exact hs.2
    · exact fun _ _ hs => hs
    · exact fun _ _ hs => hs
  intro nt
  have hopen : Meets (Made (.note ⟨db, noteId, none⟩) nt) (Note.openImpl env nt.id)
      (fun _ => Sound) SoundStop := by
    apply Meets.of_start
    intro s₀ hmade
    apply (Note.meets_openImpl hmade.alive hmade.state rfl).weaken
    · rintro s rfl
      exact ⟨hmade.sound.inv.within _, hmade.unstored .note⟩
    · exact fun _ _ hs => hs.1.sound hmade.sound.tended
    · exact fun _ _ hs => ⟨hs.1.sound hmade.sound.tended, hs.2⟩
  apply (meets_owning nt.id hopen).bind
  intro handle
  cases handle with
  | none => exact (meets_drop nt.id).bind fun _ => Meets.pure fun _ hs => hs
  | some handle => exact Meets.pure fun _ hs => hs

/-- The handle that finds a note by UNID is held by nothing. -/
theorem Note.meets_openUnid (db : StateId) (unid : Unid) :
    Meets (fun s => Sound s ∧ HasDatabase s.value db) (Note.openUnid env db unid) (fun _ => Sound)
      SoundStop := by
  unfold Note.openUnid
  apply Meets.bind
  · apply (meets_getHandle_of_hasDatabase db).weaken
    · exact fun _ hs => hs
    · exact fun _ _ hs => hs.1
    · exact fun _ _ hs => hs
  intro dbHandle
  apply Meets.get.bind
  intro s₀
  apply Meets.bind (meets_call fun _ hs => ⟨hs.1.called _, hs.2⟩)
  intro result
  cases result.isNotFound with
  | true => exact Meets.pure fun _ hs => hs.1
  | false =>
      apply Meets.bind (meets_throwIfError fun s hs => ⟨hs.1, by simp⟩)
      intro _
      have hopened : Meets (fun s => Sound s ∧ HasDatabase s.value db)
          (opened (.unid dbHandle unid) (some (env.noteId s₀.calls)))
          (fun _ s => Sound s ∧ HasDatabase s.value db) SoundStop := by
        apply meets_value_bind
        intro w
        apply Meets.bind (Q := fun _ s => Sound s ∧ HasDatabase s.value db)
        · apply meets_update
          intro s hs
          have hinv := hs.1.1.inv.opens (.unid dbHandle unid) (some (env.noteId s₀.calls))
          rw [if_neg (by simp [Opening.managed])] at hinv
          exact ⟨⟨hinv, hs.1.1.tended⟩, hs.1.2⟩
        · exact fun _ => Meets.pure fun _ hs => hs
      apply hopened.bind
      intro handle
      apply meets_value_bind
      intro w s hs
      exact Note.meets_openId db _ s hs.1

/-- The handle of a new note is moved into its state. -/
theorem Note.meets_create (db : StateId) :
    Meets (fun s => Sound s ∧ HasDatabase s.value db) (Note.create env db) (fun _ => Sound)
      SoundStop := by
  unfold Note.create
  apply (meets_getHandle_of_hasDatabase db).bind
  intro dbHandle
  apply Meets.bind (meets_call fun _ hs => ⟨⟨hs.1.1.called _, hs.1.2⟩, hs.2⟩)
  intro result
  apply Meets.bind (meets_throwIfError fun s hs => ⟨hs.1.1, by simp⟩)
  intro _
  have hopened : Meets (fun s => (Sound s ∧ HasDatabase s.value db) ∧
      OpenedForDatabase s.value.trace db dbHandle) (opened (.created dbHandle) none)
      (fun handle s => (Inv [handle] s.value ∧ s.value.Tended none) ∧ HasDatabase s.value db ∧
        OpenedForDatabase s.value.trace db dbHandle ∧
        .opened handle (.created dbHandle) ∈ s.value.trace) SoundStop := by
    apply meets_value_bind
    intro w
    apply Meets.bind (Q := fun _ s => (Inv [w.nextHandle] s.value ∧ s.value.Tended none) ∧
      HasDatabase s.value db ∧ OpenedForDatabase s.value.trace db dbHandle ∧
      .opened w.nextHandle (.created dbHandle) ∈ s.value.trace)
    · apply meets_update
      intro s hs
      obtain ⟨⟨⟨hsound, hdb⟩, hopened⟩, rfl⟩ := hs
      exact ⟨⟨hsound.inv.opens (.created dbHandle) none, hsound.tended⟩, hdb,
        hopened.mono (subset_log _), List.mem_cons_self⟩
    · exact fun _ => Meets.pure fun _ hs => hs
  apply hopened.bind
  intro handle
  apply Meets.bind (Q := fun _ => Sound)
  · apply meets_make.weaken
    · intro s hs
      obtain ⟨⟨hinv, htended⟩, hdb, hopened, hmem⟩ := hs
      refine ⟨hinv, htended, fun id h => ?_, fun id address other h => ?_⟩
      · cases h
        exact hdb
      · cases h
        exact ⟨rfl, db, dbHandle, rfl, hopened, hmem⟩
    · exact fun _ _ hs => hs.sound
    · exact fun _ _ hs => hs
  · exact fun _ => Meets.pure fun _ hs => hs

/-- All entries of a note were opened by the identifier that the library reports. -/
theorem Inv.noteId_of_entry {w : World} (h : Inv hand w) {cell : Cell} {state : NoteState}
    (hcell : cell ∈ w.heap) (hstate : cell.state = .note state) {handle : Handle}
    (hhandle : state.hdl = some handle ∨ state.hdl = none ∧ Stored w .note cell.id handle) :
    ∀ entry ∈ w.stores .note, entry.state = cell.id →
      (w.noteIds handle).getD 0 = state.noteId := by
  intro entry hentry hid
  have hbelongs := h.stores.belongs .note entry hentry cell hcell hid.symm
  rcases hhandle with hmember | ⟨_, other, hother, hotherId, rfl⟩
  · have hnone := hbelongs.hdl
    rw [hstate] at hnone
    exact absurd (hmember.symm.trans hnone) (by simp)
  · have hotherBelongs := h.stores.belongs .note other hother cell hcell hotherId.symm
    have haddress : other.address = entry.address :=
      hotherBelongs.address.symm.trans hbelongs.address
    rw [Table.eq_of_key_eq Entry.address hother hentry (h.stores.addresses .note) haddress,
      hbelongs.noteId state hstate]
    rfl

theorem Within.updated {w₀ : World} {N : List Entry → Prop} {s : Called World}
    (h : Within w₀ N hand s) (handle : Handle) (noteId : UInt32) :
    Within w₀ N hand { s with value := Note.updated handle noteId s.value } := by
  unfold Note.updated
  cases hknown : s.value.noteIds handle with
  | some known => exact h
  | none =>
      refine ⟨h.inv.noteIds fun other known hother => ?_, h.heap, h.owners, h.context, h.notes⟩
      rw [Function.update_of_ne, hother]
      rintro rfl
      rw [hknown] at hother
      cases hother

theorem Note.meets_save {w₀ : World} {cell : Cell} {state : NoteState} (hcell : cell ∈ w₀.heap)
    (hstate : cell.state = .note state) (htended : w₀.Tended none) : Meets (Within w₀ (fun _ => True) [])
      (Note.save env cell.id) (fun _ => Sound) SoundStop := by
  have hcall : Meets (Within w₀ (fun _ => True) []) (Note.getHandle env cell.id)
      (fun handle s => Within w₀ (fun _ => True) [] s ∧
        (state.hdl = some handle ∨ state.hdl = none ∧ Stored s.value .note cell.id handle))
      SoundStop :=
    (Note.meets_getHandle hcell hstate).weaken (fun _ hs => hs) (fun _ _ hs => hs)
      fun _ _ hs => ⟨hs.1.sound htended, hs.2⟩
  unfold Note.save
  apply Meets.bind (hcall.weaken (fun _ hs => hs) (fun _ _ hs => hs.1) fun _ _ hs => hs)
  intro handle
  apply Meets.get.bind
  intro s₀
  apply Meets.bind (meets_call fun s hs => hs.called _)
  intro result
  apply Meets.bind (meets_throwIfError fun s hs => ⟨hs.sound htended, by simp⟩)
  intro _
  apply Meets.bind (Q := fun _ => Within w₀ (fun _ => True) [])
    (meets_update fun s hs => hs.updated handle _)
  intro _
  apply hcall.bind
  intro handle
  apply meets_value_bind
  intro w
  apply Meets.bind_of_eq (meets_deref_note hstate fun s hs => hs.1.1.lock hcell)
  apply Meets.bind (Q := fun _ s => Inv state.hdl.toList s.value ∧ s.value.Tended none)
  · apply meets_update
    intro s hs
    obtain ⟨⟨hwithin, hhandle⟩, rfl⟩ := hs
    have hinv := hwithin.inv.assign (f := Note.saved ((s.value.noteIds handle).getD 0))
      (hwithin.lock hcell) hstate rfl
      (hwithin.inv.noteId_of_entry (hwithin.heap ▸ hcell) hstate hhandle)
    rw [List.append_nil] at hinv
    refine ⟨hinv, (hwithin.tended htended).assign cell.id fun old => ?_⟩
    cases old <;> rfl
  · intro _
    cases hhdl : state.hdl with
    | none =>
        simp only
        exact Meets.pure fun _ hs => ⟨hs.1, hs.2⟩
    | some handle =>
        simp only
        exact meets_update fun s hs => ⟨hs.1.close, hs.2⟩

/-! ## Runs -/

theorem exists_of_lock_any {w : World} {id : StateId} {kind : Kind}
    (h : (w.lock id).any (fun cell => cell.state.kind = kind) = true) :
    ∃ cell ∈ w.heap, cell.id = id ∧ cell.state.kind = kind := by
  cases hlock : w.lock id with
  | none =>
      rw [hlock] at h
      cases h
  | some cell =>
      obtain ⟨hcell, hid⟩ := lock_eq_some hlock
      rw [hlock] at h
      exact ⟨cell, hcell, hid, by simpa using h⟩

/-- What `get_handle` returns was opened for the state of the object, and is open. -/
theorem meets_getHandle {w₀ : World} {cell : Cell} (hcell : cell ∈ w₀.heap)
    (htended : w₀.Tended none) :
    Meets (Within w₀ (fun _ => True) []) (getHandle env cell.id)
      (fun handle s => Sound s ∧ OpenedFor s.value.trace cell handle ∧
        closings s.value.trace handle = 0) SoundStop := by
  apply meets_lock_bind fun s hs => hs.lock hcell
  intro w hfound
  cases hstate : cell.state with
  | database state =>
      simp only [hfound, hstate]
      apply (Database.meets_getHandle hcell hstate).weaken
      · exact fun _ hs => hs
      · intro handle s hs
        obtain ⟨entry, hentry, hid, rfl⟩ := hs.2
        have hbelongs := hs.1.inv.stores.belongs .database entry hentry cell
          (hs.1.heap ▸ hcell) hid.symm
        exact ⟨hs.1.sound htended, .inl hbelongs.opened,
          hs.1.inv.accounts.closings_eq_zero (holders_pos_of_mem hentry)⟩
      · exact fun _ _ hs => ⟨hs.1.sound htended, hs.2⟩
  | note state =>
      simp only [hfound, hstate]
      apply (Note.meets_getHandle hcell hstate).weaken
      · exact fun _ hs => hs
      · intro handle s hs
        have hheap : cell ∈ s.value.heap := hs.1.heap ▸ hcell
        rcases hs.2 with hmember | ⟨_, entry, hentry, hid, rfl⟩
        · have hhdl : cell.state.hdl = some handle := by rw [hstate]; exact hmember
          exact ⟨hs.1.sound htended, .inr (hs.1.inv.history.created cell hheap handle hhdl),
            hs.1.inv.accounts.closings_eq_zero (holders_pos_of_hdl hheap hhdl)⟩
        · have hbelongs := hs.1.inv.stores.belongs .note entry hentry cell hheap hid.symm
          exact ⟨hs.1.sound htended, .inl hbelongs.opened,
            hs.1.inv.accounts.closings_eq_zero (holders_pos_of_mem hentry)⟩
      · exact fun _ _ hs => ⟨hs.1.sound htended, hs.2⟩

/-- An operation keeps the invariant, and nothing undefined happens in it. -/
theorem Op.meets_perform (op : Op) : Meets (fun s => Sound s ∧ op.able s.value = true)
    (op.perform env) (fun _ => Sound) SoundStop := by
  cases op with
  | openDatabase file names =>
      exact (Database.meets_openFile file names).discard.weaken (fun _ hs => hs.1)
        (fun _ _ hs => hs) fun _ _ hs => hs
  | createDatabase file =>
      exact (Database.meets_create file).discard.weaken (fun _ hs => hs.1)
        (fun _ _ hs => hs) fun _ _ hs => hs
  | createNote db =>
      exact (Note.meets_create db).discard.weaken (fun _ hs => ⟨hs.1, exists_of_lock_any hs.2⟩)
        (fun _ _ hs => hs) fun _ _ hs => hs
  | openNote db noteId =>
      exact (Note.meets_openId db noteId).discard.weaken
        (fun _ hs => ⟨hs.1, exists_of_lock_any hs.2⟩) (fun _ _ hs => hs) fun _ _ hs => hs
  | openUnid db unid =>
      exact (Note.meets_openUnid db unid).discard.weaken
        (fun _ hs => ⟨hs.1, exists_of_lock_any hs.2⟩) (fun _ _ hs => hs) fun _ _ hs => hs
  | save note =>
      apply Meets.of_start
      intro s₀ hs₀
      obtain ⟨cell, hcell, rfl, hkind⟩ := exists_of_lock_any hs₀.2
      cases hstate : cell.state with
      | database _ =>
          rw [hstate] at hkind
          cases hkind
      | note state =>
          apply (Note.meets_save hcell hstate hs₀.1.tended).weaken
          · rintro s rfl
            exact hs₀.1.inv.within _
          · exact fun _ _ hs => hs
          · exact fun _ _ hs => hs
  | copy id =>
      apply meets_update
      intro s hs
      obtain ⟨cell, hlock⟩ := Option.isSome_iff_exists.mp hs.2
      exact ⟨hs.1.inv.copy ⟨cell, lock_eq_some hlock⟩, hs.1.tended.copy id⟩
  | drop id => exact (meets_drop id).weaken (fun _ hs => hs.1) (fun _ _ hs => hs) fun _ _ hs => hs
  | getHandle id =>
      apply Meets.of_start
      intro s₀ hs₀
      obtain ⟨cell, hlock⟩ := Option.isSome_iff_exists.mp hs₀.2
      obtain ⟨hcell, rfl⟩ := lock_eq_some hlock
      have hcall : Meets (· = s₀) (ThreadContext.getHandle env cell.id) (fun _ => Sound) SoundStop := by
        apply (meets_getHandle hcell hs₀.1.tended).weaken
        · rintro s rfl
          exact hs₀.1.inv.within _
        · exact fun _ _ hs => hs.1
        · exact fun _ _ hs => hs
      exact hcall.discard
  | endContext => exact meets_update fun s hs => ⟨hs.1.inv.endContext, hs.1.tended⟩

theorem inv_start : Inv [] World.start :=
  ⟨⟨List.nodup_nil, nofun, List.nodup_nil, nofun, nofun⟩,
    ⟨fun _ => List.nodup_nil, nofun, nofun, nofun⟩,
    ⟨fun _ => rfl, fun _ => Nat.zero_le 1, fun _ _ => rfl, nofun⟩,
    ⟨nofun, nofun, by simp [World.start], nofun⟩⟩

theorem sound_step {s : Called World} (h : Sound s) (op : Op) : Sound (step env s op) := by
  unfold step
  cases hable : op.able s.value with
  | false => exact h
  | true =>
      have hmeets : Meets _ (op.perform env) (fun _ => Sound) SoundStop := Op.meets_perform op
      simp only [if_true]
      rcases hresult : exec (op.perform env) s with ⟨_ | _, t⟩
      · exact (hmeets.of_error ⟨h, hable⟩ hresult).1
      · exact hmeets.of_ok ⟨h, hable⟩ hresult

theorem sound_start : Sound ⟨0, World.start⟩ := ⟨inv_start, nofun⟩

theorem sound_run (ops : List Op) : Sound (Run.after (step env) ⟨0, World.start⟩ ops) := by
  apply Run.after_of_invariant
  · exact fun _ op hs => sound_step hs op
  · exact sound_start

/-- What is promised of handles, in a state that a program reaches. -/
structure HandlesKept (env : Env) (s : Called World) : Prop where
  /-- A returned handle was opened for the state of the object, and is open. -/
  returned : ∀ cell ∈ s.value.heap, ∀ handle t,
    exec (getHandle env cell.id) s = (.ok handle, t) →
      OpenedFor t.value.trace cell handle ∧ closings t.value.trace handle = 0
  /-- No pointer to a dead state is followed. -/
  defined : ∀ cell ∈ s.value.heap, ∀ t, exec (getHandle env cell.id) s ≠ (.error .undefined, t)
  /-- No state outlives its last owner. -/
  owned : ∀ cell ∈ s.value.heap, s.value.owned cell.id = true
  single : ∀ kind, ∀ cell ∈ s.value.heap,
    (s.value.stores kind).countP (fun entry => entry.state = cell.id) ≤ 1
  once : ∀ kind handle id, .placed kind handle id ∈ s.value.trace →
    closings s.value.trace handle ≤ 1
  /-- After `remove_stale`, the handles of states that are dead by then are closed. -/
  swept : ∀ kind past, .swept kind :: past <:+ s.value.trace → ∀ handle id,
    .placed kind handle id ∈ past → .died id ∈ past → closings past handle = 1
  ended : .ended ∈ s.value.trace → ∀ kind handle id, .placed kind handle id ∈ s.value.trace →
    closings s.value.trace handle = 1

theorem Inv.countP_state_le_one {w : World} (h : Inv hand w) {cell : Cell} (hcell : cell ∈ w.heap)
    (kind : Kind) : (w.stores kind).countP (fun entry => entry.state = cell.id) ≤ 1 := by
  have haddresses : ((w.stores kind).map Entry.address).count cell.address ≤ 1 :=
    List.nodup_iff_count.mp (h.stores.addresses kind) cell.address
  rw [List.count_eq_countP, List.countP_map] at haddresses
  refine (List.countP_mono_left fun entry hentry hid => ?_).trans haddresses
  have hcellId := Eq.symm (of_decide_eq_true hid)
  have hbelongs := h.stores.belongs kind entry hentry cell hcell (by simpa using hcellId)
  simp [hbelongs.address]

theorem Inv.closings_of_ended {w : World} (h : Inv hand w) (hended : .ended ∈ w.trace) {kind : Kind}
    {handle : Handle} {id : StateId} (hplaced : .placed kind handle id ∈ w.trace) :
    closings w.trace handle = 1 := by
  have honce := h.accounts.closings_le_one handle
  rcases h.accounts.placed kind handle id hplaced with ⟨entry, hentry, _⟩ | hclosed
  · rw [h.stores.ended (h.history.ended hended) kind] at hentry
    cases hentry
  · omega

/-- The promises hold after every run of operations on one thread. -/
theorem handles_kept (env : Env) (ops : List Op) :
    HandlesKept env (Run.after (step env) ⟨0, World.start⟩ ops) := by
  have h : Sound (Run.after (step env) ⟨0, World.start⟩ ops) := sound_run ops
  have hcall : ∀ cell ∈ (Run.after (step env) ⟨0, World.start⟩ ops).value.heap,
      Meets (· = Run.after (step env) ⟨0, World.start⟩ ops) (getHandle env cell.id)
        (fun handle s => OpenedFor s.value.trace cell handle ∧ closings s.value.trace handle = 0)
        SoundStop := by
    intro cell hcell
    apply (meets_getHandle hcell h.tended).weaken
    · rintro s rfl
      exact h.inv.within _
    · exact fun _ _ hs => hs.2
    · exact fun _ _ hs => hs
  exact {
    returned := fun cell hcell handle t hresult => (hcall cell hcell).of_ok rfl hresult
    defined := fun cell hcell t hresult => ((hcall cell hcell).of_error rfl hresult).2 rfl
    owned := fun cell hcell => h.tended cell hcell (by simp)
    single := fun kind cell hcell => h.inv.countP_state_le_one hcell kind
    once := fun kind handle id _ => h.inv.accounts.closings_le_one handle
    swept := h.inv.history.swept
    ended := fun hended kind handle id => h.inv.closings_of_ended hended }

/-- Addresses are used again as soon as they are free. -/
def sampleEnv : Env where
  native := ⟨fun _ => .noError, fun _ _ => 0⟩
  codePage := utf8
  allocator := ⟨fun _ used => used.sum + 1, fun _ used hmem =>
    absurd (List.le_sum_of_mem hmem) (Nat.not_succ_le_self used.sum)⟩
  noteId := fun _ => 0

/-- The second note gets the address of the first, and a handle of its own. -/
example : (Run.after (step sampleEnv) ⟨0, World.start⟩ [.openDatabase [0x61] none, .openNote 0 5,
    .drop 1, .openNote 0 6]).value.stores .note = [⟨2, 2, 3⟩] := by decide +kernel

end Dmn.ThreadContext
