import Dmn.Model.ThreadContext

/-! # Where handles are held

Each handle that was opened is held in one place until it is closed: in a store, as a member
of a state, or in hand. -/

namespace Dmn.ThreadContext

/-! ## Counting -/

/-- The handle is put into a `scoped_handle`. -/
def Opening.managed : Opening → Bool
  | unid _ _ => false
  | database _ _ _ | note _ _ _ | created _ => true

def Event.opens (handle : Handle) : Event → Bool
  | opened other opening => other = handle && opening.managed
  | _ => false

def openings (trace : List Event) (handle : Handle) : Nat := trace.countP (Event.opens handle)

def closings (trace : List Event) (handle : Handle) : Nat := trace.count (.closed handle)

/-- The entries and states that hold the handle. -/
def World.holders (w : World) (handle : Handle) : Nat :=
  (w.stores .database).countP (fun entry => entry.handle = handle) +
    (w.stores .note).countP (fun entry => entry.handle = handle) +
    w.heap.countP (fun cell => cell.state.hdl = some handle)

/-! ## For whom a handle was opened -/

/-- Opened for the database `id`. -/
def OpenedForDatabase (trace : List Event) (id : StateId) (handle : Handle) : Prop :=
  ∃ path names, .opened handle (.database id path names) ∈ trace

/-- Opened for the state, with its own path or note identifier. -/
def OpenedByCall (trace : List Event) (cell : Cell) (handle : Handle) : Prop :=
  match cell.state with
  | .database state => .opened handle (.database cell.id state.path (state.names.getD 0)) ∈ trace
  | .note state => ∃ db, OpenedForDatabase trace state.db db ∧
      .opened handle (.note cell.id db state.noteId) ∈ trace

/-- The member of the state, created in its database. -/
def CreatedFor (trace : List Event) (cell : Cell) (handle : Handle) : Prop :=
  cell.state.hdl = some handle ∧ ∃ id db, cell.state.db = some id ∧
    OpenedForDatabase trace id db ∧ .opened handle (.created db) ∈ trace

def OpenedFor (trace : List Event) (cell : Cell) (handle : Handle) : Prop :=
  OpenedByCall trace cell handle ∨ CreatedFor trace cell handle

/-! ## The invariant -/

/-- Living states differ in number and address, and members and objects own living ones. -/
structure HeapSound (heap : List Cell) (owners : List StateId) (next : StateId) : Prop where
  ids : (heap.map Cell.id).Nodup
  lt : ∀ cell ∈ heap, cell.id < next
  addresses : (heap.map Cell.address).Nodup
  db : ∀ cell ∈ heap, ∀ id, cell.state.db = some id →
    ∃ other ∈ heap, other.id = id ∧ other.state.kind = .database
  owner : ∀ id ∈ owners, ∃ cell ∈ heap, cell.id = id

/-- The entry of a living state. -/
structure BelongsTo (trace : List Event) (noteIds : Handle → Option UInt32) (kind : Kind)
    (entry : Entry) (cell : Cell) : Prop where
  address : cell.address = entry.address
  kind : cell.state.kind = kind
  hdl : cell.state.hdl = none
  opened : OpenedByCall trace cell entry.handle
  noteId : ∀ state, cell.state = .note state → noteIds entry.handle = some state.noteId

structure StoresSound (w : World) : Prop where
  addresses : ∀ kind, ((w.stores kind).map Entry.address).Nodup
  known : ∀ kind, ∀ entry ∈ w.stores kind, entry.state < w.nextState
  belongs : ∀ kind, ∀ entry ∈ w.stores kind, ∀ cell ∈ w.heap, cell.id = entry.state →
    BelongsTo w.trace w.noteIds kind entry cell
  ended : w.context = false → ∀ kind, w.stores kind = []

/-- What was opened is held or closed; `hand` is held by local variables. -/
structure Accounted (hand : List Handle) (w : World) : Prop where
  balance : ∀ handle, w.holders handle + hand.count handle + closings w.trace handle =
    openings w.trace handle
  once : ∀ handle, openings w.trace handle ≤ 1
  fresh : ∀ handle, w.nextHandle ≤ handle → openings w.trace handle = 0
  placed : ∀ kind handle id, .placed kind handle id ∈ w.trace →
    (∃ entry ∈ w.stores kind, entry.state = id ∧ entry.handle = handle) ∨
      0 < closings w.trace handle

structure History (w : World) : Prop where
  dead : ∀ id, .died id ∈ w.trace → id < w.nextState ∧ ∀ cell ∈ w.heap, cell.id ≠ id
  created : ∀ cell ∈ w.heap, ∀ handle, cell.state.hdl = some handle →
    CreatedFor w.trace cell handle
  swept : ∀ kind past, .swept kind :: past <:+ w.trace → ∀ handle id,
    .placed kind handle id ∈ past → .died id ∈ past → closings past handle = 1
  ended : .ended ∈ w.trace → w.context = false

structure Inv (hand : List Handle) (w : World) : Prop where
  heap : HeapSound w.heap w.owners w.nextState
  stores : StoresSound w
  accounts : Accounted hand w
  history : History w

/-! ## Traces that grow -/

theorem OpenedForDatabase.mono {trace trace' : List Event} {id : StateId} {handle : Handle}
    (h : OpenedForDatabase trace id handle) (hsub : trace ⊆ trace') :
    OpenedForDatabase trace' id handle := by
  obtain ⟨path, names, hmem⟩ := h
  exact ⟨path, names, hsub hmem⟩

theorem OpenedByCall.mono {trace trace' : List Event} {cell : Cell} {handle : Handle}
    (h : OpenedByCall trace cell handle) (hsub : trace ⊆ trace') :
    OpenedByCall trace' cell handle := by
  unfold OpenedByCall at h ⊢
  cases hstate : cell.state with
  | database state =>
      rw [hstate] at h
      exact hsub h
  | note state =>
      rw [hstate] at h
      obtain ⟨db, hdb, hmem⟩ := h
      exact ⟨db, hdb.mono hsub, hsub hmem⟩

theorem CreatedFor.mono {trace trace' : List Event} {cell : Cell} {handle : Handle}
    (h : CreatedFor trace cell handle) (hsub : trace ⊆ trace') : CreatedFor trace' cell handle := by
  obtain ⟨hhdl, id, db, hid, hdb, hmem⟩ := h
  exact ⟨hhdl, id, db, hid, hdb.mono hsub, hsub hmem⟩

theorem BelongsTo.mono {trace trace' : List Event} {noteIds : Handle → Option UInt32}
    {kind : Kind} {entry : Entry} {cell : Cell} (h : BelongsTo trace noteIds kind entry cell)
    (hsub : trace ⊆ trace') : BelongsTo trace' noteIds kind entry cell :=
  ⟨h.address, h.kind, h.hdl, h.opened.mono hsub, h.noteId⟩

/-- A handle that is held is open. -/
theorem Accounted.closings_eq_zero {hand : List Handle} {w : World} (h : Accounted hand w)
    {handle : Handle} (hheld : 0 < w.holders handle) : closings w.trace handle = 0 := by
  have hbalance := h.balance handle
  have honce := h.once handle
  omega

theorem Accounted.closings_le_one {hand : List Handle} {w : World} (h : Accounted hand w)
    (handle : Handle) : closings w.trace handle ≤ 1 := by
  have hbalance := h.balance handle
  have honce := h.once handle
  omega

theorem holders_pos_of_mem {w : World} {kind : Kind} {entry : Entry}
    (h : entry ∈ w.stores kind) : 0 < w.holders entry.handle := by
  have hcount : 0 < (w.stores kind).countP (fun other => other.handle = entry.handle) :=
    List.countP_pos_iff.mpr ⟨entry, h, by simp⟩
  unfold World.holders
  cases kind with
  | database => omega
  | note => omega

theorem holders_pos_of_hdl {w : World} {cell : Cell} {handle : Handle} (h : cell ∈ w.heap)
    (hhdl : cell.state.hdl = some handle) : 0 < w.holders handle := by
  have hcount : 0 < w.heap.countP (fun cell => cell.state.hdl = some handle) :=
    List.countP_pos_iff.mpr ⟨cell, h, by simpa using hhdl⟩
  unfold World.holders
  omega

end Dmn.ThreadContext
