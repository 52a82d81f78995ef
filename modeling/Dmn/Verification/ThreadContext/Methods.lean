import Dmn.Model.Lifetime
import Dmn.Verification.Native
import Dmn.Verification.ThreadContext.Preservation

/-! # Methods that need a handle

While a handle is found or opened no object comes or goes. A database has its own effects on
the store of databases only, so that what is known of the store of notes stays true. -/

namespace Dmn.ThreadContext

open Exec Native

/-! ## States of a call -/

/-- In a call that has begun in `w₀`, with `N` true of the store of notes. -/
structure Within (w₀ : World) (N : List Entry → Prop) (hand : List Handle) (s : Called World) :
    Prop where
  inv : Inv hand s.value
  heap : s.value.heap = w₀.heap
  owners : s.value.owners = w₀.owners
  context : s.value.context = w₀.context
  notes : N (s.value.stores .note)

def Thrown (w₀ : World) (N : List Entry → Prop) (stop : Stop) (s : Called World) : Prop :=
  Within w₀ N [] s ∧ stop ≠ .undefined

/-- The store keeps the handle for the state. -/
def Stored (w : World) (kind : Kind) (id : StateId) (handle : Handle) : Prop :=
  ∃ entry ∈ w.stores kind, entry.state = id ∧ entry.handle = handle

def Unstored (w : World) (kind : Kind) (id : StateId) : Prop :=
  ∀ entry ∈ w.stores kind, entry.state ≠ id

variable {env : Env} {w₀ : World} {N : List Entry → Prop} {hand : List Handle} {kind : Kind}
  {cell : Cell}

theorem Within.called {s : Called World} (h : Within w₀ N hand s) (calls : Nat) :
    Within w₀ N hand { s with calls := calls } := ⟨h.inv, h.heap, h.owners, h.context, h.notes⟩

theorem Within.weaken {N' : List Entry → Prop} {s : Called World} (h : Within w₀ N hand s)
    (hN : ∀ entries, N entries → N' entries) : Within w₀ N' hand s :=
  ⟨h.inv, h.heap, h.owners, h.context, hN _ h.notes⟩

theorem Inv.unstored_of_vacant {w : World} (h : Inv hand w) (hcell : cell ∈ w.heap)
    (hvacant : Vacant w kind cell.address) : Unstored w kind cell.id := by
  intro entry hentry heq
  exact hvacant entry hentry (h.stores.belongs kind entry hentry cell hcell heq.symm).address.symm

/-- After a sweep, an address is taken only by the state that lives there. -/
theorem Inv.vacant_of_unstored {w : World} (h : Inv hand w) (hcell : cell ∈ w.heap)
    (hfresh : Fresh w kind) (hunstored : Unstored w kind cell.id) :
    Vacant w kind cell.address := by
  intro entry hentry haddress
  obtain ⟨other, hother, hstate⟩ := hfresh entry hentry
  have hplace := (h.stores.belongs kind entry hentry other hother hstate).address
  have hsame := Table.eq_of_key_eq Cell.address hother hcell h.heap.addresses
    (hplace.trans haddress)
  exact hunstored entry hentry (hstate.symm.trans (congrArg Cell.id hsame))

theorem Inv.lock_of_mem {w : World} (h : Inv hand w) (hcell : cell ∈ w.heap) :
    w.lock cell.id = some cell :=
  Table.lookup_of_mem Cell.id hcell h.heap.ids

/-! ## Parts of the methods -/

theorem meets_current {P : Called World → Prop} (hP : ∀ s, P s → Within w₀ N [] s) :
    Meets P current (fun _ s => P s ∧ w₀.context = true) (Thrown w₀ N) := by
  apply meets_value_bind
  intro w
  cases hcontext : w.context with
  | true =>
      refine Meets.pure fun s hs => ⟨hs.1, ?_⟩
      rw [← (hP s hs.1).context, hs.2, hcontext]
  | false => exact Meets.throw fun s hs => ⟨hP s hs.1, by simp⟩

theorem Within.eraseIf {s : Called World} (h : Within w₀ N hand s)
    (hN : kind = .note → ∀ entries, N entries) (p : Entry → Bool) :
    Within w₀ N hand { s with value := s.value.eraseIf kind p } := by
  refine ⟨h.inv.eraseIf kind p, h.heap, h.owners, h.context, ?_⟩
  cases kind with
  | database => simpa [World.eraseIf] using h.notes
  | note => exact hN rfl _

theorem Within.sweep {s : Called World} (h : Within w₀ N [] s)
    (hN : kind = .note → ∀ entries, N entries) :
    Within w₀ N [] { s with value := s.value.sweep kind } :=
  ⟨h.inv.sweep kind, h.heap, h.owners, h.context,
    (h.eraseIf hN s.value.expired).notes⟩

theorem fresh_sweep (w : World) (kind : Kind) : Fresh (w.sweep kind) kind :=
  fresh_eraseIf_expired w kind

theorem Unstored.sweep {w : World} {id : StateId} (h : Unstored w kind id) :
    Unstored (w.sweep kind) kind id :=
  fun entry hentry => h entry (mem_of_mem_eraseIf hentry)

/-- A pointer to a living state is followed. -/
theorem meets_lock_bind {α : Type} {P : Called World → Prop} {f : World → M α}
    {Q : α → Called World → Prop} {E : Stop → Called World → Prop}
    (hlock : ∀ s, P s → s.value.lock cell.id = some cell)
    (h : ∀ w, w.lock cell.id = some cell → Meets P (f w) Q E) :
    Meets P (Native.value >>= f) Q E :=
  fun s hs => h s.value (hlock s hs) s hs

theorem meets_deref_database {P : Called World → Prop} {E : Stop → Called World → Prop}
    {state : DatabaseState} (hstate : cell.state = .database state)
    (hlock : ∀ s, P s → s.value.lock cell.id = some cell) :
    Meets P (Database.deref cell.id) (fun result s => P s ∧ result = (cell, state)) E := by
  apply meets_lock_bind hlock
  intro w hfound
  simp only [hfound, hstate]
  exact Meets.pure fun s hs => ⟨hs, rfl⟩

theorem meets_deref_note {P : Called World → Prop} {E : Stop → Called World → Prop}
    {state : NoteState} (hstate : cell.state = .note state)
    (hlock : ∀ s, P s → s.value.lock cell.id = some cell) :
    Meets P (Note.deref cell.id) (fun result s => P s ∧ result = (cell, state)) E := by
  apply meets_lock_bind hlock
  intro w hfound
  simp only [hfound, hstate]
  exact Meets.pure fun s hs => ⟨hs, rfl⟩

theorem Within.lock {s : Called World} (h : Within w₀ N hand s) (hcell : cell ∈ w₀.heap) :
    s.value.lock cell.id = some cell :=
  h.inv.lock_of_mem (h.heap ▸ hcell)

/-- `find` yields the entry of the state, or leaves its address without one. -/
theorem meets_find (hcell : cell ∈ w₀.heap) (hN : kind = .note → ∀ entries, N entries) :
    Meets (Within w₀ N []) (find kind cell) (fun found s => Within w₀ N [] s ∧
      match found with
      | some entry => Stored s.value kind cell.id entry.handle
      | none => Vacant s.value kind cell.address) (Thrown w₀ N) := by
  apply meets_value_bind
  intro w
  cases hlookup : Table.lookup Entry.address cell.address (w.stores kind) with
  | none =>
      refine Meets.pure fun s hs => ⟨hs.1, ?_⟩
      rw [hs.2]
      exact (Table.lookup_eq_none_iff _).mp hlookup
  | some entry =>
      by_cases hsame : (w.lock entry.state).map Cell.address = some cell.address
      · simp only [if_pos hsame]
        refine Meets.pure fun s hs => ⟨hs.1, entry, ?_, ?_, rfl⟩
        · rw [hs.2]
          exact Table.mem_of_lookup _ hlookup
        · obtain ⟨other, hother, haddress⟩ := Option.map_eq_some_iff.mp hsame
          obtain ⟨hmem, hid⟩ := lock_eq_some hother
          rw [← hs.2] at hmem
          have hheap : cell ∈ s.value.heap := hs.1.heap ▸ hcell
          rw [← hid, Table.eq_of_key_eq Cell.address hmem hheap hs.1.inv.heap.addresses haddress]
      · simp only [if_neg hsame]
        refine Meets.bind (Q := fun _ s => Within w₀ N [] s ∧ Vacant s.value kind cell.address)
          (meets_update fun s hs => ⟨hs.1.eraseIf hN _, ?_⟩) fun _ => Meets.pure fun s hs => hs
        intro entry hentry
        simp only [World.eraseIf, Function.update_self, List.mem_filter] at hentry
        simpa using hentry.2

/-! ## Handles that are opened -/

/-- A place in the store is free for the state. -/
structure Free (w₀ : World) (N : List Entry → Prop) (kind : Kind) (cell : Cell)
    (s : Called World) : Prop where
  within : Within w₀ N [] s
  context : w₀.context = true
  vacant : Vacant s.value kind cell.address

/-- A state without an entry has its place in the store after a sweep. -/
theorem meets_sweep {E : Stop → Called World → Prop} (hcell : cell ∈ w₀.heap)
    (hN : kind = .note → ∀ entries, N entries) :
    Meets (fun s => (Within w₀ N [] s ∧ Unstored s.value kind cell.id) ∧ w₀.context = true)
      (Native.update (World.sweep kind)) (fun _ => Free w₀ N kind cell) E := by
  apply meets_update
  intro s hs
  obtain ⟨⟨hwithin, hunstored⟩, hcontext⟩ := hs
  have hswept := hwithin.sweep hN
  exact ⟨hswept, hcontext, hswept.inv.vacant_of_unstored (hswept.heap ▸ hcell)
    (fresh_sweep _ _) hunstored.sweep⟩

/-- The handle in hand was opened for the state, whose place in the store is free. -/
structure Ready (w₀ : World) (N : List Entry → Prop) (kind : Kind) (cell : Cell)
    (handle : Handle) (s : Called World) : Prop where
  within : Within w₀ N [handle] s
  context : w₀.context = true
  vacant : Vacant s.value kind cell.address
  belongs : BelongsTo s.value.trace s.value.noteIds kind ⟨cell.address, cell.id, handle⟩ cell

theorem Within.opens {s : Called World} (h : Within w₀ N [] s) {opening : Opening}
    (hmanaged : opening.managed = true) (noteId : Option UInt32) :
    Within w₀ N [s.value.nextHandle] { s with value := s.value.opens opening noteId } := by
  have hinv := h.inv.opens opening noteId
  rw [if_pos hmanaged] at hinv
  exact ⟨hinv, h.heap, h.owners, h.context, h.notes⟩

theorem meets_opened_database {state : DatabaseState} (hstate : cell.state = .database state)
    {E : Stop → Called World → Prop} : Meets (Free w₀ N .database cell)
      (opened (.database cell.id state.path (state.names.getD 0)) none)
      (Ready w₀ N .database cell) E := by
  apply meets_value_bind
  intro w
  refine Meets.bind (Q := fun _ => Ready w₀ N .database cell w.nextHandle)
    (meets_update fun s hs => ?_) fun _ => Meets.pure fun _ hs => hs
  obtain ⟨hfree, rfl⟩ := hs
  refine ⟨hfree.within.opens rfl none, hfree.context, hfree.vacant, rfl, ?_, ?_, ?_, ?_⟩
  · rw [hstate]
    rfl
  · rw [hstate]
    rfl
  · unfold OpenedByCall
    rw [hstate]
    exact List.mem_cons_self
  · intro note hnote
    rw [hstate] at hnote
    cases hnote

theorem meets_opened_note {state : NoteState} (hstate : cell.state = .note state)
    (hhdl : state.hdl = none) {db : Handle} {E : Stop → Called World → Prop} :
    Meets (fun s => Free w₀ N .note cell s ∧ OpenedForDatabase s.value.trace state.db db)
      (opened (.note cell.id db state.noteId) (some state.noteId)) (Ready w₀ N .note cell) E := by
  apply meets_value_bind
  intro w
  refine Meets.bind (Q := fun _ => Ready w₀ N .note cell w.nextHandle)
    (meets_update fun s hs => ?_) fun _ => Meets.pure fun _ hs => hs
  obtain ⟨⟨hfree, hdb⟩, rfl⟩ := hs
  refine ⟨hfree.within.opens rfl _, hfree.context, hfree.vacant, rfl, ?_, ?_, ?_, ?_⟩
  · rw [hstate]
    rfl
  · rw [hstate]
    exact hhdl
  · unfold OpenedByCall
    rw [hstate]
    exact ⟨db, hdb.mono (subset_log _), List.mem_cons_self⟩
  · intro note hnote
    rw [hstate] at hnote
    cases hnote
    simp [World.opens]

theorem meets_insert (hcell : cell ∈ w₀.heap) (hN : kind = .note → ∀ entries, N entries)
    {handle : Handle} {E : Stop → Called World → Prop} :
    Meets (Ready w₀ N kind cell handle) (insert kind cell handle)
      (fun entry s => Within w₀ N [] s ∧ Stored s.value kind cell.id entry.handle) E := by
  apply meets_value_bind
  intro w
  cases hlookup : Table.lookup Entry.address cell.address (w.stores kind) with
  | some entry =>
      intro s hs
      obtain ⟨hready, rfl⟩ := hs
      exact absurd (Table.key_of_lookup _ hlookup) (hready.vacant entry (Table.mem_of_lookup _ hlookup))
  | none =>
      let entry : Entry := ⟨cell.address, cell.id, handle⟩
      refine Meets.bind (Q := fun _ s => Within w₀ N [] s ∧ Stored s.value kind cell.id handle)
        (meets_update fun s hs => ?_) fun _ => Meets.pure fun _ hs => hs
      obtain ⟨hready, rfl⟩ := hs
      have hheap : cell ∈ s.value.heap := hready.within.heap ▸ hcell
      have hids := hready.within.inv.heap.ids
      have hinv : Inv [] (s.value.place kind entry) := by
        apply Inv.place hready.within.inv hready.vacant
        · rw [hready.within.context, hready.context]
        · exact hready.within.inv.heap.lt cell hheap
        · intro other hother heq
          rw [Table.eq_of_key_eq Cell.id hother hheap hids heq]
          exact hready.belongs
      refine ⟨⟨hinv, hready.within.heap, hready.within.owners, hready.within.context, ?_⟩,
        entry, ?_, rfl, rfl⟩
      · cases kind with
        | database => simpa [World.place, World.log] using hready.within.notes
        | note => exact hN rfl _
      · simp [World.place, entry]

/-! ## `database` -/

theorem meets_namesHandle {P : Called World → Prop} (hP : ∀ s, P s → Within w₀ N [] s)
    (names : Option UInt32) : Meets P (Exec.ofExcept (Database.namesHandle names))
      (fun handle s => P s ∧ handle = names.getD 0) (Thrown w₀ N) := by
  cases names with
  | none => exact Meets.pure fun s hs => ⟨hs, rfl⟩
  | some handle =>
      by_cases hzero : handle = 0
      · simp only [Database.namesHandle, if_pos hzero]
        exact Meets.throw fun s hs => ⟨hP s hs, by simp⟩
      · simp only [Database.namesHandle, if_neg hzero]
        exact Meets.pure fun s hs => ⟨hs, rfl⟩

theorem Free.within_called {s : Called World} (h : Free w₀ N kind cell s) (calls : Nat) :
    Free w₀ N kind cell { s with calls := calls } :=
  ⟨h.within.called calls, h.context, h.vacant⟩

/-- `open_impl` opens the first handle for a database, or reports that it was not found. -/
theorem Database.meets_openImpl {state : DatabaseState} (hcell : cell ∈ w₀.heap)
    (hstate : cell.state = .database state) :
    Meets (fun s => Within w₀ N [] s ∧ Unstored s.value .database cell.id)
      (Database.openImpl env cell.id) (fun handle s => Within w₀ N [] s ∧
        ∀ h, handle = some h → Stored s.value .database cell.id h) (Thrown w₀ N) := by
  unfold Database.openImpl
  apply Meets.bind (meets_current fun s hs => hs.1)
  intro _
  apply (meets_sweep hcell (by simp)).bind
  intro _
  apply Meets.bind_of_eq (meets_deref_database hstate fun s hs => hs.within.lock hcell)
  apply Meets.bind_of_eq (meets_namesHandle (fun s hs => hs.within) state.names)
  apply Meets.bind (meets_call fun s hs => hs.within_called _)
  intro result
  cases result.isNotFound with
  | true => exact Meets.pure fun s hs => ⟨hs.within, fun _ h => by cases h⟩
  | false =>
      apply Meets.bind (meets_throwIfError fun s hs => ⟨hs.within, by simp⟩)
      intro _
      apply Meets.bind (meets_opened_database hstate)
      intro handle
      apply Meets.bind (meets_insert hcell (by simp))
      intro entry
      refine Meets.pure fun s hs => ⟨hs.1, fun h heq => ?_⟩
      cases heq
      exact hs.2

/-- `get_handle` returns the handle that the store keeps for the database. -/
theorem Database.meets_getHandle {state : DatabaseState} (hcell : cell ∈ w₀.heap)
    (hstate : cell.state = .database state) :
    Meets (Within w₀ N []) (Database.getHandle env cell.id)
      (fun handle s => Within w₀ N [] s ∧ Stored s.value .database cell.id handle)
      (Thrown w₀ N) := by
  unfold Database.getHandle
  apply Meets.bind (meets_current fun s hs => hs)
  intro _
  apply Meets.bind (Q := fun _ => Within w₀ N [])
    (meets_update fun s hs => hs.1.sweep (by simp))
  intro _
  apply Meets.bind_of_eq (meets_deref_database hstate fun s hs => hs.lock hcell)
  apply Meets.bind (meets_find hcell (by simp))
  intro found
  cases found with
  | some entry => exact Meets.pure fun s hs => hs
  | none =>
      apply Meets.bind
      · apply (Database.meets_openImpl hcell hstate).weaken
        · exact fun s hs => ⟨hs.1, hs.1.inv.unstored_of_vacant (hs.1.heap ▸ hcell) hs.2⟩
        · exact fun _ _ hs => hs
        · exact fun _ _ hs => hs
      intro handle
      cases handle with
      | none => exact Meets.throw fun s hs => ⟨hs.1, by simp⟩
      | some handle => exact Meets.pure fun s hs => ⟨hs.1, hs.2 handle rfl⟩

/-! ## `note` -/

theorem Inv.openedForDatabase {w : World} (h : Inv hand w) (hcell : cell ∈ w.heap)
    {state : DatabaseState} (hstate : cell.state = .database state) {handle : Handle}
    (hstored : Stored w .database cell.id handle) :
    OpenedForDatabase w.trace cell.id handle := by
  obtain ⟨entry, hentry, hid, rfl⟩ := hstored
  have hopened := (h.stores.belongs .database entry hentry cell hcell hid.symm).opened
  unfold OpenedByCall at hopened
  rw [hstate] at hopened
  exact ⟨_, _, hopened⟩

/-- A note gets the handle of its database, and its own place in the store stays free. -/
theorem meets_database_of_note {state : NoteState} (hcell : cell ∈ w₀.heap)
    (hstate : cell.state = .note state) : Meets (Free w₀ (fun _ => True) .note cell)
      (Database.getHandle env state.db) (fun db s => Free w₀ (fun _ => True) .note cell s ∧
        OpenedForDatabase s.value.trace state.db db) (Thrown w₀ fun _ => True) := by
  apply Meets.of_start
  intro s₀ hfree
  have hdb : cell.state.db = some state.db := by
    rw [hstate]
    rfl
  have hheap : cell ∈ s₀.value.heap := hfree.within.heap ▸ hcell
  obtain ⟨other, hother, hid, hkind⟩ := hfree.within.inv.heap.db cell hheap state.db hdb
  rw [hfree.within.heap] at hother
  cases hdatabase : other.state with
  | note _ =>
      rw [hdatabase] at hkind
      cases hkind
  | database database =>
      let N : List Entry → Prop := fun entries => ∀ entry ∈ entries, entry.address ≠ cell.address
      have hcall : Meets (Within w₀ N []) (Database.getHandle env other.id)
          (fun handle s => Within w₀ N [] s ∧ Stored s.value .database other.id handle)
          (Thrown w₀ N) := Database.meets_getHandle hother hdatabase
      rw [← hid]
      apply hcall.weaken
      · rintro s rfl
        have hwithin := hfree.within
        exact ⟨hwithin.inv, hwithin.heap, hwithin.owners, hwithin.context, hfree.vacant⟩
      · intro db s hs
        refine ⟨⟨hs.1.weaken fun _ _ => trivial, hfree.context, hs.1.notes⟩, ?_⟩
        exact hs.1.inv.openedForDatabase (hs.1.heap ▸ hother) hdatabase hs.2
      · exact fun stop s hs => ⟨hs.1.weaken fun _ _ => trivial, hs.2⟩

/-- `open_impl` opens the first handle for a note, or reports that it was not found. -/
theorem Note.meets_openImpl {state : NoteState} (hcell : cell ∈ w₀.heap)
    (hstate : cell.state = .note state) (hhdl : state.hdl = none) :
    Meets (fun s => Within w₀ (fun _ => True) [] s ∧ Unstored s.value .note cell.id)
      (Note.openImpl env cell.id) (fun handle s => Within w₀ (fun _ => True) [] s ∧
        ∀ h, handle = some h → Stored s.value .note cell.id h) (Thrown w₀ fun _ => True) := by
  unfold Note.openImpl
  apply Meets.bind (meets_current fun s hs => hs.1)
  intro _
  apply (meets_sweep hcell (fun _ _ => trivial)).bind
  intro _
  apply Meets.bind_of_eq (meets_deref_note hstate fun s hs => hs.within.lock hcell)
  apply Meets.bind (meets_database_of_note hcell hstate)
  intro db
  apply Meets.bind (meets_call fun s hs => ⟨hs.1.within_called _, hs.2⟩)
  intro result
  cases result.isNotFound with
  | true => exact Meets.pure fun s hs => ⟨hs.1.within, fun _ h => by cases h⟩
  | false =>
      apply Meets.bind (meets_throwIfError fun s hs => ⟨hs.1.within, by simp⟩)
      intro _
      apply Meets.bind (meets_opened_note hstate hhdl)
      intro handle
      apply Meets.bind (meets_insert hcell fun _ _ => trivial)
      intro entry
      refine Meets.pure fun s hs => ⟨hs.1, fun h heq => ?_⟩
      cases heq
      exact hs.2

/-- `get_handle` returns the member, or the handle that the store keeps for the note. -/
theorem Note.meets_getHandle {state : NoteState} (hcell : cell ∈ w₀.heap)
    (hstate : cell.state = .note state) :
    Meets (Within w₀ (fun _ => True) []) (Note.getHandle env cell.id)
      (fun handle s => Within w₀ (fun _ => True) [] s ∧
        (state.hdl = some handle ∨ state.hdl = none ∧ Stored s.value .note cell.id handle))
      (Thrown w₀ fun _ => True) := by
  unfold Note.getHandle
  apply Meets.bind_of_eq (meets_deref_note hstate fun s hs => hs.lock hcell)
  cases hhdl : state.hdl with
  | some handle =>
      simp only [hhdl]
      exact Meets.pure fun s hs => ⟨hs, .inl rfl⟩
  | none =>
      simp only [hhdl]
      apply Meets.bind (meets_current fun s hs => hs)
      intro _
      apply Meets.of_and
      intro hcontext
      apply Meets.bind (Q := fun _ => Within w₀ (fun _ => True) [])
        (meets_update fun s hs => hs.sweep fun _ _ => trivial)
      intro _
      apply Meets.bind (meets_find hcell fun _ _ => trivial)
      intro found
      cases found with
      | some entry => exact Meets.pure fun s hs => ⟨hs.1, .inr ⟨trivial, hs.2⟩⟩
      | none =>
          apply Meets.bind
          · apply (meets_database_of_note hcell hstate).weaken
            · exact fun s hs => ⟨hs.1, hcontext, hs.2⟩
            · exact fun _ _ hs => hs
            · exact fun _ _ hs => hs
          intro db
          apply Meets.bind (meets_call fun s hs => ⟨hs.1.within_called _, hs.2⟩)
          intro result
          apply Meets.bind (meets_throwIfError fun s hs => ⟨hs.1.within, by simp⟩)
          intro _
          apply Meets.bind (meets_opened_note hstate hhdl)
          intro handle
          apply Meets.bind (meets_insert hcell fun _ _ => trivial)
          intro entry
          exact Meets.pure fun s hs => ⟨hs.1, .inr ⟨trivial, hs.2⟩⟩

end Dmn.ThreadContext
