import Dmn.Verification.ThreadContext.Invariant

/-! # What keeps the invariant -/

namespace Dmn.ThreadContext

variable {hand : List Handle} {w : World}

/-! ## Entries that leave a store -/

theorem mem_of_mem_eraseIf {kind kind' : Kind} {p : Entry → Bool} {entry : Entry}
    (h : entry ∈ (w.eraseIf kind p).stores kind') : entry ∈ w.stores kind' := by
  by_cases hkind : kind' = kind
  · subst hkind
    simp only [World.eraseIf, Function.update_self, List.mem_filter] at h
    exact h.1
  · simpa only [World.eraseIf, Function.update_of_ne hkind] using h

theorem closings_eraseIf (kind : Kind) (p : Entry → Bool) (handle : Handle) :
    closings (w.eraseIf kind p).trace handle =
      ((w.stores kind).filter p).countP (fun entry => entry.handle = handle) +
        closings w.trace handle := by
  have hclosed : (((w.stores kind).filter p).map fun entry => Event.closed entry.handle).count
      (.closed handle) = ((w.stores kind).filter p).countP fun entry => entry.handle = handle := by
    rw [List.count_eq_countP, List.countP_map]
    congr 1
    funext entry
    simp [beq_eq_decide]
  simp only [closings, World.eraseIf]
  rw [List.count_append, hclosed]

theorem openings_eraseIf (kind : Kind) (p : Entry → Bool) (handle : Handle) :
    openings (w.eraseIf kind p).trace handle = openings w.trace handle := by
  simp [openings, World.eraseIf, List.countP_append, List.countP_map, Event.opens, Function.comp_def]

theorem holders_eraseIf (kind : Kind) (p : Entry → Bool) (handle : Handle) :
    (w.eraseIf kind p).holders handle +
      ((w.stores kind).filter p).countP (fun entry => entry.handle = handle) =
        w.holders handle := by
  have hsplit := List.countP_eq_countP_filter_add (w.stores kind)
    (fun entry => entry.handle = handle) p
  cases kind with
  | database =>
      simp only [World.holders, World.eraseIf, Function.update_self, ne_eq, reduceCtorEq,
        not_false_eq_true, Function.update_of_ne]
      omega
  | note =>
      simp only [World.holders, World.eraseIf, Function.update_self, ne_eq, reduceCtorEq,
        not_false_eq_true, Function.update_of_ne]
      omega

theorem subset_eraseIf (kind : Kind) (p : Entry → Bool) : w.trace ⊆ (w.eraseIf kind p).trace :=
  List.subset_append_right _ _

/-- An event other than a closing was there before. -/
theorem mem_trace_of_mem_eraseIf {kind : Kind} {p : Entry → Bool} {event : Event}
    (h : event ∈ (w.eraseIf kind p).trace) (hevent : ∀ handle, event ≠ .closed handle) :
    event ∈ w.trace := by
  rcases List.mem_append.mp h with hclosed | hmem
  · obtain ⟨entry, _, rfl⟩ := List.mem_map.mp hclosed
    exact absurd rfl (hevent entry.handle)
  · exact hmem

theorem StoresSound.eraseIf (h : StoresSound w) (kind : Kind) (p : Entry → Bool) :
    StoresSound (w.eraseIf kind p) := by
  refine ⟨fun kind' => ?_, fun kind' entry hentry => ?_, fun kind' entry hentry cell hcell heq => ?_,
    fun hended kind' => ?_⟩
  · by_cases hkind : kind' = kind
    · subst hkind
      simp only [World.eraseIf, Function.update_self]
      exact (h.addresses kind').sublist (List.filter_sublist.map _)
    · simpa only [World.eraseIf, Function.update_of_ne hkind] using h.addresses kind'
  · exact h.known kind' entry (mem_of_mem_eraseIf hentry)
  · exact (h.belongs kind' entry (mem_of_mem_eraseIf hentry) cell hcell heq).mono
      (subset_eraseIf kind p)
  · rw [List.eq_nil_iff_forall_not_mem]
    intro entry hentry
    have hold := mem_of_mem_eraseIf hentry
    rw [h.ended hended kind'] at hold
    cases hold

theorem Accounted.eraseIf (h : Accounted hand w) (kind : Kind) (p : Entry → Bool) :
    Accounted hand (w.eraseIf kind p) := by
  refine ⟨fun handle => ?_, fun handle => ?_, fun handle hfresh => ?_,
    fun kind' handle id hplaced => ?_⟩
  · rw [closings_eraseIf, openings_eraseIf]
    have hholders := holders_eraseIf (w := w) kind p handle
    have hbalance := h.balance handle
    omega
  · rw [openings_eraseIf]
    exact h.once handle
  · rw [openings_eraseIf]
    exact h.fresh handle hfresh
  · rw [closings_eraseIf]
    have hold := mem_trace_of_mem_eraseIf hplaced (by simp)
    rcases h.placed kind' handle id hold with ⟨entry, hentry, rfl, rfl⟩ | hclosed
    · by_cases hkind : kind' = kind
      · subst hkind
        by_cases hp : p entry
        · refine .inr (Nat.add_pos_left ?_ _)
          rw [List.countP_pos_iff]
          exact ⟨entry, List.mem_filter.mpr ⟨hentry, hp⟩, by simp⟩
        · refine .inl ⟨entry, ?_, rfl, rfl⟩
          simp only [World.eraseIf, Function.update_self, List.mem_filter]
          exact ⟨hentry, by simpa using hp⟩
      · refine .inl ⟨entry, ?_, rfl, rfl⟩
        simpa only [World.eraseIf, Function.update_of_ne hkind] using hentry
    · exact .inr (Nat.add_pos_right _ hclosed)

/-- A promise that is due at some events is kept while other events happen. -/
theorem suffix_append_of_forall_ne {event : Event} {past before trace : List Event}
    (h : event :: past <:+ before ++ trace) (hbefore : event ∉ before) :
    event :: past <:+ trace := by
  induction before with
  | nil => exact h
  | cons first before ih =>
      simp only [List.mem_cons, not_or] at hbefore
      rcases List.suffix_cons_iff.mp h with heq | hrest
      · cases heq
        exact absurd rfl hbefore.1
      · exact ih hrest hbefore.2

theorem History.eraseIf (h : History w) (kind : Kind) (p : Entry → Bool) :
    History (w.eraseIf kind p) := by
  refine ⟨fun id hdied => ?_, fun cell hcell handle hhdl => ?_, fun kind' past hpast => ?_,
    fun hended => ?_⟩
  · exact h.dead id (mem_trace_of_mem_eraseIf hdied (by simp))
  · exact (h.created cell hcell handle hhdl).mono (subset_eraseIf kind p)
  · exact h.swept kind' past (suffix_append_of_forall_ne hpast (by simp))
  · exact h.ended (mem_trace_of_mem_eraseIf hended (by simp))

theorem Inv.eraseIf (h : Inv hand w) (kind : Kind) (p : Entry → Bool) :
    Inv hand (w.eraseIf kind p) :=
  ⟨h.heap, h.stores.eraseIf kind p, h.accounts.eraseIf kind p, h.history.eraseIf kind p⟩

/-! ## Events -/

theorem closings_log_of_ne {event : Event} {handle : Handle} (h : event ≠ .closed handle) :
    closings (w.log event).trace handle = closings w.trace handle :=
  List.count_cons_of_ne h

theorem closings_close (handle other : Handle) : closings (w.close handle).trace other =
    closings w.trace other + if other = handle then 1 else 0 := by
  by_cases h : other = handle
  · subst h
    rw [if_pos rfl]
    exact List.count_cons_self
  · rw [if_neg h]
    exact List.count_cons_of_ne fun heq => h (Event.closed.inj heq).symm

theorem openings_log (event : Event) (handle : Handle) : openings (w.log event).trace handle =
    openings w.trace handle + if event.opens handle then 1 else 0 :=
  List.countP_cons

theorem mem_trace_log {event other : Event} (h : other ∈ (w.log event).trace) :
    other = event ∨ other ∈ w.trace :=
  List.mem_cons.mp h

theorem subset_log (event : Event) : w.trace ⊆ (w.log event).trace := List.subset_cons_self _ _

theorem StoresSound.log (h : StoresSound w) (event : Event) : StoresSound (w.log event) :=
  ⟨h.addresses, h.known, fun kind entry hentry cell hcell heq =>
    (h.belongs kind entry hentry cell hcell heq).mono (subset_log event), h.ended⟩

/-- An event that concerns no handle. -/
theorem Accounted.log (h : Accounted hand w) {event : Event}
    (hopens : ∀ handle, event.opens handle = false) (hclosed : ∀ handle, event ≠ .closed handle)
    (hplaced : ∀ kind handle id, event ≠ .placed kind handle id) :
    Accounted hand (w.log event) := by
  have hopenings : ∀ handle, openings (w.log event).trace handle = openings w.trace handle := by
    intro handle
    rw [openings_log, hopens]
    rfl
  refine ⟨fun handle => ?_, fun handle => ?_, fun handle hfresh => ?_,
    fun kind handle id hmem => ?_⟩
  · rw [hopenings, closings_log_of_ne (hclosed handle)]
    exact h.balance handle
  · rw [hopenings]
    exact h.once handle
  · rw [hopenings]
    exact h.fresh handle hfresh
  · rw [closings_log_of_ne (hclosed handle)]
    rcases mem_trace_log hmem with heq | hold
    · exact absurd heq.symm (hplaced kind handle id)
    · exact h.placed kind handle id hold

/-- A sweep in a trace that has grown by another event is an old one. -/
theorem History.swept_log (h : History w) {event : Event} {kind : Kind} {past : List Event}
    (hevent : event ≠ .swept kind) (hpast : .swept kind :: past <:+ (w.log event).trace) :
    ∀ handle id, .placed kind handle id ∈ past → .died id ∈ past → closings past handle = 1 := by
  rcases List.suffix_cons_iff.mp hpast with heq | hrest
  · exact absurd (List.cons.inj heq).1.symm hevent
  · exact h.swept kind past hrest

theorem History.log (h : History w) {event : Event} (hdied : ∀ id, event ≠ .died id)
    (hended : event ≠ .ended) (hswept : ∀ kind, event = .swept kind → ∀ handle id,
      .placed kind handle id ∈ w.trace → .died id ∈ w.trace → closings w.trace handle = 1) :
    History (w.log event) := by
  refine ⟨fun id hmem => ?_, fun cell hcell handle hhdl => ?_, fun kind past hpast => ?_,
    fun hmem => ?_⟩
  · rcases mem_trace_log hmem with heq | hold
    · exact absurd heq.symm (hdied id)
    · exact h.dead id hold
  · exact (h.created cell hcell handle hhdl).mono (subset_log event)
  · rcases List.suffix_cons_iff.mp hpast with heq | hrest
    · obtain ⟨hevent, rfl⟩ := List.cons.inj heq
      exact hswept kind hevent.symm
    · exact h.swept kind past hrest
  · rcases mem_trace_log hmem with heq | hold
    · exact absurd heq.symm hended
    · exact h.ended hold

/-! ## Sweeping -/

theorem expired_iff {entry : Entry} :
    w.expired entry = true ↔ ∀ cell ∈ w.heap, cell.id ≠ entry.state := by
  rw [World.expired, World.lock, Option.isNone_iff_eq_none, Table.lookup_eq_none_iff]

/-- Every entry of the store has a living state. -/
def Fresh (w : World) (kind : Kind) : Prop :=
  ∀ entry ∈ w.stores kind, ∃ cell ∈ w.heap, cell.id = entry.state

theorem fresh_eraseIf_expired (w : World) (kind : Kind) : Fresh (w.eraseIf kind w.expired) kind := by
  intro entry hentry
  simp only [World.eraseIf, Function.update_self, List.mem_filter, Bool.not_eq_true'] at hentry
  by_contra hnone
  have hexpired : w.expired entry = true := by
    rw [expired_iff]
    intro cell hcell heq
    exact hnone ⟨cell, hcell, heq⟩
  rw [hentry.2] at hexpired
  cases hexpired

/-- Handles of dead states are closed once all entries have living ones. -/
theorem Inv.closings_of_died (h : Inv hand w) {kind : Kind} (hfresh : Fresh w kind)
    {handle : Handle} {id : StateId} (hplaced : .placed kind handle id ∈ w.trace)
    (hdied : .died id ∈ w.trace) : closings w.trace handle = 1 := by
  have honce := h.accounts.closings_le_one handle
  rcases h.accounts.placed kind handle id hplaced with ⟨entry, hentry, rfl, rfl⟩ | hclosed
  · obtain ⟨cell, hcell, heq⟩ := hfresh entry hentry
    exact absurd heq ((h.history.dead _ hdied).2 cell hcell)
  · omega

theorem Inv.log_swept (h : Inv hand w) {kind : Kind} (hfresh : Fresh w kind) :
    Inv hand (w.log (.swept kind)) := by
  refine ⟨h.heap, h.stores.log _, h.accounts.log (by simp [Event.opens]) (by simp) (by simp),
    h.history.log (by simp) (by simp) fun other heq handle id hplaced hdied => ?_⟩
  cases heq
  exact h.closings_of_died hfresh hplaced hdied

theorem Inv.sweep (h : Inv hand w) (kind : Kind) : Inv hand (w.sweep kind) :=
  (h.eraseIf kind w.expired).log_swept (fresh_eraseIf_expired w kind)

/-! ## Handles of local variables -/

theorem openings_opens (opening : Opening) (noteId : Option UInt32) (handle : Handle) :
    openings (w.opens opening noteId).trace handle =
      openings w.trace handle + if w.nextHandle = handle ∧ opening.managed then 1 else 0 := by
  rw [show (w.opens opening noteId).trace = (w.log (.opened w.nextHandle opening)).trace from rfl,
    openings_log]
  simp [Event.opens]

theorem closings_opens (opening : Opening) (noteId : Option UInt32) (handle : Handle) :
    closings (w.opens opening noteId).trace handle = closings w.trace handle :=
  closings_log_of_ne (by simp)

/-- A handle that is held is not the next one. -/
theorem Accounted.ne_nextHandle (h : Accounted hand w) {handle : Handle}
    (hheld : 0 < w.holders handle) : handle ≠ w.nextHandle := by
  intro hnext
  have hbalance := h.balance handle
  rw [h.fresh handle (Nat.le_of_eq hnext.symm)] at hbalance
  omega

theorem StoresSound.opens (h : StoresSound w) (haccounts : Accounted hand w) (opening : Opening)
    (noteId : Option UInt32) : StoresSound (w.opens opening noteId) := by
  refine ⟨h.addresses, h.known, fun kind entry hentry cell hcell heq => ?_, h.ended⟩
  obtain ⟨haddress, hkind, hhdl, hopened, hnoteId⟩ := h.belongs kind entry hentry cell hcell heq
  refine ⟨haddress, hkind, hhdl, hopened.mono (subset_log _), fun state hstate => ?_⟩
  have hne : entry.handle ≠ w.nextHandle :=
    haccounts.ne_nextHandle (holders_pos_of_mem hentry)
  simp only [World.opens, Function.update_of_ne hne]
  exact hnoteId state hstate

theorem Accounted.opens (h : Accounted hand w) (opening : Opening) (noteId : Option UInt32) :
    Accounted ((if opening.managed then [w.nextHandle] else []) ++ hand)
      (w.opens opening noteId) := by
  refine ⟨fun handle => ?_, fun handle => ?_, fun handle hfresh => ?_,
    fun kind handle id hplaced => ?_⟩
  · have hbalance := h.balance handle
    rw [openings_opens, closings_opens,
      show (w.opens opening noteId).holders handle = w.holders handle from rfl]
    by_cases hmanaged : opening.managed
    · simp only [hmanaged, if_true, List.cons_append, List.nil_append, List.count_cons, beq_iff_eq,
        and_true]
      omega
    · simp only [hmanaged, Bool.false_eq_true, if_false, List.nil_append, and_false]
      omega
  · rw [openings_opens]
    by_cases hnext : w.nextHandle = handle
    · rw [h.fresh handle (Nat.le_of_eq hnext)]
      split <;> omega
    · have honce := h.once handle
      simpa [hnext] using honce
  · have hlt : w.nextHandle < handle := hfresh
    rw [openings_opens, h.fresh handle (Nat.le_of_lt hlt), if_neg fun hnext => hlt.ne hnext.1]
  · rw [closings_opens]
    rcases mem_trace_log hplaced with heq | hold
    · cases heq
    · exact h.placed kind handle id hold

theorem Inv.opens (h : Inv hand w) (opening : Opening) (noteId : Option UInt32) :
    Inv ((if opening.managed then [w.nextHandle] else []) ++ hand) (w.opens opening noteId) := by
  have hlog : History (w.log (.opened w.nextHandle opening)) :=
    h.history.log (by simp) (by simp) (by simp)
  exact ⟨h.heap, h.stores.opens h.accounts opening noteId, h.accounts.opens opening noteId,
    ⟨hlog.dead, hlog.created, hlog.swept, hlog.ended⟩⟩

theorem Inv.close {handle : Handle} (h : Inv (handle :: hand) w) : Inv hand (w.close handle) := by
  refine ⟨h.heap, h.stores.log _, ⟨fun other => ?_, fun other => ?_, fun other hfresh => ?_,
    fun kind other id hmem => ?_⟩, h.history.log (by simp) (by simp) (by simp)⟩
  · have hbalance := h.accounts.balance other
    rw [closings_close, World.close, openings_log,
      show (w.log (.closed handle)).holders other = w.holders other from rfl]
    simp only [List.count_cons, beq_iff_eq] at hbalance
    simp only [Event.opens, Bool.false_eq_true, if_false, eq_comm (a := other)]
    omega
  · rw [World.close, openings_log]
    exact h.accounts.once other
  · rw [World.close, openings_log]
    exact h.accounts.fresh other hfresh
  · rw [closings_close]
    rcases mem_trace_log hmem with heq | hold
    · cases heq
    · rcases h.accounts.placed kind other id hold with hentry | hclosed
      · exact .inl hentry
      · exact .inr (Nat.add_pos_left hclosed _)

theorem mem_place {kind kind' : Kind} {entry other : Entry}
    (h : other ∈ (w.place kind entry).stores kind') :
    kind' = kind ∧ other = entry ∨ other ∈ w.stores kind' := by
  by_cases hkind : kind' = kind
  · subst hkind
    simp only [World.place, Function.update_self, List.mem_cons] at h
    exact h.imp_left fun heq => ⟨rfl, heq⟩
  · right
    simpa only [World.place, Function.update_of_ne hkind] using h

theorem mem_place_of_mem {kind kind' : Kind} {entry other : Entry} (h : other ∈ w.stores kind') :
    other ∈ (w.place kind entry).stores kind' := by
  by_cases hkind : kind' = kind
  · subst hkind
    simp only [World.place, Function.update_self]
    exact List.mem_cons_of_mem _ h
  · simpa only [World.place, Function.update_of_ne hkind] using h

theorem holders_place (kind : Kind) (entry : Entry) (handle : Handle) :
    (w.place kind entry).holders handle =
      w.holders handle + if entry.handle = handle then 1 else 0 := by
  cases kind with
  | database =>
      simp only [World.holders, World.place, World.log, Function.update_self, ne_eq, reduceCtorEq,
        not_false_eq_true, Function.update_of_ne, List.countP_cons, decide_eq_true_eq]
      omega
  | note =>
      simp only [World.holders, World.place, World.log, Function.update_self, ne_eq, reduceCtorEq,
        not_false_eq_true, Function.update_of_ne, List.countP_cons, decide_eq_true_eq]
      omega

/-- No entry has the address. -/
def Vacant (w : World) (kind : Kind) (address : Address) : Prop :=
  ∀ entry ∈ w.stores kind, entry.address ≠ address

theorem StoresSound.place (h : StoresSound w) {kind : Kind} {entry : Entry}
    (hvacant : Vacant w kind entry.address) (hcontext : w.context = true)
    (hknown : entry.state < w.nextState) (hbelongs : ∀ cell ∈ w.heap, cell.id = entry.state →
      BelongsTo w.trace w.noteIds kind entry cell) : StoresSound (w.place kind entry) := by
  refine ⟨fun kind' => ?_, fun kind' other hother => ?_,
    fun kind' other hother cell hcell heq => ?_, fun hended => ?_⟩
  · by_cases hkind : kind' = kind
    · subst hkind
      simp only [World.place, Function.update_self, List.map_cons, List.nodup_cons]
      refine ⟨fun hmem => ?_, h.addresses kind'⟩
      obtain ⟨other, hother, heq⟩ := List.mem_map.mp hmem
      exact hvacant other hother heq
    · simpa only [World.place, Function.update_of_ne hkind] using h.addresses kind'
  · rcases mem_place hother with ⟨rfl, rfl⟩ | hold
    · exact hknown
    · exact h.known kind' other hold
  · rcases mem_place hother with ⟨rfl, rfl⟩ | hold
    · exact (hbelongs cell hcell heq).mono (subset_log _)
    · exact (h.belongs kind' other hold cell hcell heq).mono (subset_log _)
  · exact absurd (hcontext.symm.trans hended) (by simp)

theorem Accounted.place {entry : Entry} (h : Accounted (entry.handle :: hand) w) (kind : Kind) :
    Accounted hand (w.place kind entry) := by
  have hopenings : ∀ handle, openings (w.place kind entry).trace handle =
      openings w.trace handle := fun handle => openings_log _ handle
  have hclosings : ∀ handle, closings (w.place kind entry).trace handle =
      closings w.trace handle := fun handle => closings_log_of_ne (by simp)
  refine ⟨fun handle => ?_, fun handle => ?_, fun handle hfresh => ?_,
    fun kind' handle id hmem => ?_⟩
  · have hbalance := h.balance handle
    rw [hopenings, hclosings, holders_place]
    simp only [List.count_cons, beq_iff_eq] at hbalance
    omega
  · rw [hopenings]
    exact h.once handle
  · rw [hopenings]
    exact h.fresh handle hfresh
  · rw [hclosings]
    rcases mem_trace_log hmem with heq | hold
    · cases heq
      exact .inl ⟨entry, by simp [World.place], rfl, rfl⟩
    · rcases h.placed kind' handle id hold with ⟨other, hother, hstate⟩ | hclosed
      · exact .inl ⟨other, mem_place_of_mem hother, hstate⟩
      · exact .inr hclosed

theorem Inv.place {kind : Kind} {entry : Entry} (h : Inv (entry.handle :: hand) w)
    (hvacant : Vacant w kind entry.address) (hcontext : w.context = true)
    (hknown : entry.state < w.nextState) (hbelongs : ∀ cell ∈ w.heap, cell.id = entry.state →
      BelongsTo w.trace w.noteIds kind entry cell) : Inv hand (w.place kind entry) := by
  have hlog : History (w.log (.placed kind entry.handle entry.state)) :=
    h.history.log (by simp) (by simp) (by simp)
  exact ⟨h.heap, h.stores.place hvacant hcontext hknown hbelongs, h.accounts.place kind,
    ⟨hlog.dead, hlog.created, hlog.swept, hlog.ended⟩⟩

/-! ## The end of the context -/

theorem stores_eraseIf_all (kind : Kind) : (w.eraseIf kind fun _ => true).stores kind = [] := by
  simp [World.eraseIf]

theorem Inv.finish (h : Inv hand w) (hempty : ∀ kind, w.stores kind = []) :
    Inv hand { w.log .ended with context := false } := by
  have haccounts : Accounted hand (w.log .ended) :=
    h.accounts.log (by simp [Event.opens]) (by simp) (by simp)
  have hstores := h.stores.log .ended
  refine ⟨h.heap, ⟨hstores.addresses, hstores.known, hstores.belongs, fun _ => hempty⟩,
    ⟨haccounts.balance, haccounts.once, haccounts.fresh, haccounts.placed⟩,
    ⟨fun id hmem => ?_, fun cell hcell handle hhdl => ?_, fun kind past hpast => ?_, fun _ => rfl⟩⟩
  · rcases mem_trace_log hmem with heq | hold
    · cases heq
    · exact h.history.dead id hold
  · exact (h.history.created cell hcell handle hhdl).mono (subset_log _)
  · exact h.history.swept_log (by simp) hpast

theorem Inv.endContext (h : Inv hand w) : Inv hand w.endContext := by
  apply ((h.eraseIf .database fun _ => true).eraseIf .note fun _ => true).finish
  intro kind
  cases kind with
  | note => exact stores_eraseIf_all .note
  | database =>
      rw [List.eq_nil_iff_forall_not_mem]
      intro entry hentry
      have hfirst := mem_of_mem_eraseIf hentry
      rw [stores_eraseIf_all] at hfirst
      cases hfirst

/-! ## States -/

theorem count_toList_hdl (hdl : Option Handle) (handle : Handle) :
    hdl.toList.count handle = if hdl = some handle then 1 else 0 := by
  cases hdl with
  | none => simp
  | some other => simp [List.count_singleton]

theorem mem_born {cell other : Cell} (h : other ∈ (w.born cell).heap) :
    other = cell ∨ other ∈ w.heap :=
  List.mem_cons.mp h

theorem HeapSound.born (h : HeapSound w.heap w.owners w.nextState) {cell : Cell}
    (hid : cell.id = w.nextState) (haddress : cell.address ∉ w.heap.map Cell.address)
    (hdb : ∀ id, cell.state.db = some id →
      ∃ other ∈ w.heap, other.id = id ∧ other.state.kind = .database) :
    HeapSound (w.born cell).heap (w.born cell).owners (w.born cell).nextState where
  ids := by
    simp only [World.born, List.map_cons, List.nodup_cons]
    refine ⟨fun hmem => ?_, h.ids⟩
    obtain ⟨other, hother, heq⟩ := List.mem_map.mp hmem
    exact (h.lt other hother).ne (heq.trans hid)
  lt other hother := by
    rcases mem_born hother with rfl | hold
    · rw [hid]
      exact Nat.lt_succ_self _
    · exact Nat.lt_succ_of_lt (h.lt other hold)
  addresses := by
    simp only [World.born, List.map_cons, List.nodup_cons]
    exact ⟨haddress, h.addresses⟩
  db other hother id hmember := by
    have hold : ∃ db ∈ w.heap, db.id = id ∧ db.state.kind = .database := by
      rcases mem_born hother with rfl | hold
      · exact hdb id hmember
      · exact h.db other hold id hmember
    obtain ⟨db, hmem, hkind⟩ := hold
    exact ⟨db, List.mem_cons_of_mem _ hmem, hkind⟩
  owner id howner := by
    rcases List.mem_cons.mp howner with rfl | hold
    · exact ⟨cell, List.mem_cons_self, rfl⟩
    · obtain ⟨other, hother, heq⟩ := h.owner id hold
      exact ⟨other, List.mem_cons_of_mem _ hother, heq⟩

theorem StoresSound.born (h : StoresSound w) {cell : Cell} (hid : cell.id = w.nextState) :
    StoresSound (w.born cell) := by
  refine ⟨h.addresses, fun kind entry hentry => ?_, fun kind entry hentry other hother heq => ?_,
    h.ended⟩
  · exact Nat.lt_succ_of_lt (h.known kind entry hentry)
  · rcases mem_born hother with rfl | hold
    · exact absurd (heq.symm.trans hid) (h.known kind entry hentry).ne
    · exact h.belongs kind entry hentry other hold heq

theorem Accounted.born {cell : Cell} (h : Accounted (cell.state.hdl.toList ++ hand) w) :
    Accounted hand (w.born cell) := by
  refine ⟨fun handle => ?_, h.once, h.fresh, h.placed⟩
  have hbalance := h.balance handle
  rw [List.count_append, count_toList_hdl] at hbalance
  rw [show (w.born cell).trace = w.trace from rfl]
  simp only [World.holders, World.born, List.countP_cons, decide_eq_true_eq] at hbalance ⊢
  omega

theorem History.born (h : History w) {cell : Cell} (hid : cell.id = w.nextState)
    (hcreated : ∀ handle, cell.state.hdl = some handle → CreatedFor w.trace cell handle) :
    History (w.born cell) := by
  refine ⟨fun id hdied => ?_, fun other hother handle hhdl => ?_, h.swept, h.ended⟩
  · obtain ⟨hlt, hnone⟩ := h.dead id hdied
    refine ⟨Nat.lt_succ_of_lt hlt, fun other hother => ?_⟩
    rcases mem_born hother with rfl | hold
    · rw [hid]
      exact hlt.ne'
    · exact hnone other hold
  · rcases mem_born hother with rfl | hold
    · exact hcreated handle hhdl
    · exact h.created other hold handle hhdl

theorem Inv.born {cell : Cell} (h : Inv (cell.state.hdl.toList ++ hand) w)
    (hid : cell.id = w.nextState) (haddress : cell.address ∉ w.heap.map Cell.address)
    (hdb : ∀ id, cell.state.db = some id →
      ∃ other ∈ w.heap, other.id = id ∧ other.state.kind = .database)
    (hcreated : ∀ handle, cell.state.hdl = some handle → CreatedFor w.trace cell handle) :
    Inv hand (w.born cell) :=
  ⟨h.heap.born hid haddress hdb, h.stores.born hid, h.accounts.born, h.history.born hid hcreated⟩

theorem Inv.copy (h : Inv hand w) {id : StateId} (halive : ∃ cell ∈ w.heap, cell.id = id) :
    Inv hand (w.copy id) := by
  refine ⟨⟨h.heap.ids, h.heap.lt, h.heap.addresses, h.heap.db, fun other hother => ?_⟩,
    ⟨h.stores.addresses, h.stores.known, h.stores.belongs, h.stores.ended⟩,
    ⟨h.accounts.balance, h.accounts.once, h.accounts.fresh, h.accounts.placed⟩,
    ⟨h.history.dead, h.history.created, h.history.swept, h.history.ended⟩⟩
  simp only [World.copy, List.mem_cons] at hother
  rcases hother with rfl | hold
  · exact halive
  · exact h.heap.owner other hold

theorem Inv.forget (h : Inv hand w) (id : StateId) : Inv hand (w.forget id) :=
  ⟨⟨h.heap.ids, h.heap.lt, h.heap.addresses, h.heap.db, fun other hother =>
      h.heap.owner other (List.mem_of_mem_erase hother)⟩,
    ⟨h.stores.addresses, h.stores.known, h.stores.belongs, h.stores.ended⟩,
    ⟨h.accounts.balance, h.accounts.once, h.accounts.fresh, h.accounts.placed⟩,
    ⟨h.history.dead, h.history.created, h.history.swept, h.history.ended⟩⟩

theorem lock_eq_some {id : StateId} {cell : Cell} (h : w.lock id = some cell) :
    cell ∈ w.heap ∧ cell.id = id :=
  ⟨Table.mem_of_lookup _ h, Table.key_of_lookup _ h⟩

theorem owned_eq_false_iff {id : StateId} : w.owned id = false ↔
    id ∉ w.owners ∧ ∀ cell ∈ w.heap, cell.state.db ≠ some id := by
  simp [World.owned]

theorem HeapSound.erase {heap : List Cell} {owners : List StateId} {next id : StateId}
    (h : HeapSound heap owners next) (hnoObject : id ∉ owners)
    (hnoMember : ∀ cell ∈ heap, cell.state.db ≠ some id) :
    HeapSound (Table.erase Cell.id id heap) owners next := by
  have hmem : ∀ other ∈ Table.erase Cell.id id heap, other ∈ heap ∧ other.id ≠ id :=
    fun other hother => (Table.mem_erase_iff _).mp hother
  have hsublist : (Table.erase Cell.id id heap).Sublist heap := List.filter_sublist
  refine ⟨h.ids.sublist (hsublist.map _), fun other hother => h.lt other (hmem other hother).1,
    h.addresses.sublist (hsublist.map _), fun other hother member hmember => ?_,
    fun owner howner => ?_⟩
  · obtain ⟨db, hdb, hdbId, hkind⟩ := h.db other (hmem other hother).1 member hmember
    refine ⟨db, (Table.mem_erase_iff _).mpr ⟨hdb, fun heq => ?_⟩, hdbId, hkind⟩
    rw [← hdbId, heq] at hmember
    exact hnoMember other (hmem other hother).1 hmember
  · obtain ⟨other, hother, heq⟩ := h.owner owner howner
    refine ⟨other, (Table.mem_erase_iff _).mpr ⟨hother, fun hsame => ?_⟩, heq⟩
    rw [← heq, hsame] at howner
    exact hnoObject howner

theorem StoresSound.die (h : StoresSound w) (id : StateId) :
    StoresSound { w.log (.died id) with heap := Table.erase Cell.id id w.heap } := by
  have hlog := h.log (.died id)
  exact ⟨hlog.addresses, hlog.known, fun kind entry hentry other hother heq =>
    hlog.belongs kind entry hentry other ((Table.mem_erase_iff _).mp hother).1 heq, hlog.ended⟩

theorem Accounted.die (h : Accounted hand w) {id : StateId} {cell : Cell}
    (hlock : w.lock id = some cell) (hids : (w.heap.map Cell.id).Nodup) :
    Accounted (cell.state.hdl.toList ++ hand)
      { w.log (.died id) with heap := Table.erase Cell.id id w.heap } := by
  have hlog : Accounted hand (w.log (.died id)) :=
    h.log (by simp [Event.opens]) (by simp) (by simp)
  refine ⟨fun handle => ?_, hlog.once, hlog.fresh, hlog.placed⟩
  have hbalance := hlog.balance handle
  have hcount := Table.countP_erase Cell.id (fun cell => cell.state.hdl = some handle) hlock hids
  rw [List.count_append, count_toList_hdl]
  simp only [World.holders, World.log, decide_eq_true_eq] at hbalance hcount ⊢
  omega

theorem History.die (h : History w) {id : StateId} (hid : id < w.nextState) :
    History { w.log (.died id) with heap := Table.erase Cell.id id w.heap } := by
  have hmem : ∀ other ∈ Table.erase Cell.id id w.heap, other ∈ w.heap ∧ other.id ≠ id :=
    fun other hother => (Table.mem_erase_iff _).mp hother
  refine ⟨fun other hdied => ?_, fun other hother handle hhdl => ?_, fun kind past hpast => ?_,
    fun hended => ?_⟩
  · rcases mem_trace_log hdied with heq | hold
    · cases heq
      exact ⟨hid, fun alive halive => (hmem alive halive).2⟩
    · obtain ⟨hlt, hnone⟩ := h.dead other hold
      exact ⟨hlt, fun alive halive => hnone alive (hmem alive halive).1⟩
  · exact (h.created other (hmem other hother).1 handle hhdl).mono (subset_log _)
  · exact h.swept_log (by simp) hpast
  · rcases mem_trace_log hended with heq | hold
    · cases heq
    · exact h.ended hold

/-- A state that nothing owns dies, and its handle is in hand. -/
theorem Inv.die (h : Inv hand w) {id : StateId} {cell : Cell} (hlock : w.lock id = some cell)
    (hunowned : w.owned id = false) : Inv (cell.state.hdl.toList ++ hand)
      { w.log (.died id) with heap := Table.erase Cell.id id w.heap } := by
  obtain ⟨hnoObject, hnoMember⟩ := owned_eq_false_iff.mp hunowned
  obtain ⟨hcell, hid⟩ := lock_eq_some hlock
  have hlt : id < w.nextState := hid ▸ h.heap.lt cell hcell
  exact ⟨h.heap.erase hnoObject hnoMember, h.stores.die id, h.accounts.die hlock h.heap.ids,
    h.history.die hlt⟩

theorem Inv.release (h : Inv hand w) (id : StateId) : Inv hand (w.release id) := by
  unfold World.release
  cases hunowned : w.owned id with
  | true => exact h
  | false =>
      cases hlock : w.lock id with
      | none => exact h
      | some cell =>
          have hdead := h.die hlock hunowned
          simp only [Bool.false_eq_true, if_false]
          cases hhdl : cell.state.hdl with
          | none =>
              rw [hhdl] at hdead
              exact hdead
          | some handle =>
              rw [hhdl] at hdead
              exact hdead.close

theorem Inv.drop (h : Inv hand w) (id : StateId) : Inv hand (w.drop id) := by
  unfold World.drop
  cases (w.lock id).bind fun cell => cell.state.db with
  | none => exact (h.forget id).release id
  | some db => exact ((h.forget id).release id).release db

/-! ## Owners -/

/-- Every living state is owned, but perhaps for one. -/
def World.Tended (w : World) (pending : Option StateId) : Prop :=
  ∀ cell ∈ w.heap, some cell.id ≠ pending → w.owned cell.id = true

theorem owned_iff {id : StateId} : w.owned id = true ↔
    id ∈ w.owners ∨ ∃ cell ∈ w.heap, cell.state.db = some id := by
  simp [World.owned]

theorem World.Tended.forget (h : w.Tended none) (id : StateId) :
    (w.forget id).Tended (some id) := by
  intro cell hcell hne
  have hid : cell.id ≠ id := fun heq => hne (congrArg some heq)
  rcases owned_iff.mp (h cell hcell (by simp)) with howner | hmember
  · exact owned_iff.mpr (.inl ((List.mem_erase_of_ne hid).mpr howner))
  · exact owned_iff.mpr (.inr hmember)

theorem owners_release (id : StateId) : (w.release id).owners = w.owners := by
  unfold World.release
  split
  · rfl
  · split
    · rfl
    · dsimp only
      split <;> rfl

/-- A state that nothing owns is gone. -/
theorem heap_release (id : StateId) : (w.release id).heap =
    if w.owned id then w.heap else Table.erase Cell.id id w.heap := by
  unfold World.release
  split
  · rfl
  · split
    · rename_i hlock
      exact (Table.erase_of_lookup_none Cell.id hlock).symm
    · dsimp only
      split <;> rfl

/-- The state that a dead one has owned may be left without an owner. -/
theorem World.Tended.release {id : StateId} (h : w.Tended (some id))
    (hids : (w.heap.map Cell.id).Nodup) :
    (w.release id).Tended ((w.lock id).bind fun cell => cell.state.db) := by
  intro cell hcell hne
  rw [heap_release] at hcell
  rw [owned_iff, owners_release, heap_release]
  cases howned : w.owned id with
  | true =>
      rw [howned, if_pos rfl] at hcell
      rw [if_pos rfl, ← owned_iff]
      by_cases hid : cell.id = id
      · rw [hid]
        exact howned
      · exact h cell hcell fun heq => hid (Option.some.inj heq)
  | false =>
      rw [howned, if_neg (by simp)] at hcell
      rw [if_neg (by simp)]
      obtain ⟨hmem, hid⟩ := (Table.mem_erase_iff _).mp hcell
      rcases owned_iff.mp (h cell hmem fun heq => hid (Option.some.inj heq)) with howner | hmember
      · exact .inl howner
      · obtain ⟨other, hother, hdb⟩ := hmember
        refine .inr ⟨other, (Table.mem_erase_iff _).mpr ⟨hother, fun heq => ?_⟩, hdb⟩
        have hlock : w.lock id = some other := heq ▸ Table.lookup_of_mem Cell.id hother hids
        rw [hlock] at hne
        exact hne hdb.symm

/-- No state outlives its last owner. -/
theorem World.Tended.drop (h : w.Tended none) (hinv : Inv hand w) (id : StateId) :
    (w.drop id).Tended none := by
  have hdropped : ((w.forget id).release id).Tended ((w.lock id).bind fun cell => cell.state.db) :=
    (h.forget id).release hinv.heap.ids
  unfold World.drop
  cases hdb : (w.lock id).bind fun cell => cell.state.db with
  | none =>
      rw [hdb] at hdropped
      exact hdropped
  | some db =>
      rw [hdb] at hdropped
      have hafter := (hinv.forget id).release id
      have hnone : (((w.forget id).release id).lock db).bind (fun cell => cell.state.db) = none := by
        cases hlock : ((w.forget id).release id).lock db with
        | none => rfl
        | some other =>
            obtain ⟨cell, hcell, hmember⟩ := Option.bind_eq_some_iff.mp hdb
            obtain ⟨database, hdatabase, hid, hkind⟩ :=
              hinv.heap.db cell (lock_eq_some hcell).1 db hmember
            obtain ⟨hother, hotherId⟩ := lock_eq_some hlock
            have hold : other ∈ w.heap := by
              rw [heap_release] at hother
              split at hother
              · exact hother
              · exact ((Table.mem_erase_iff _).mp hother).1
            rw [Table.eq_of_key_eq Cell.id hold hdatabase hinv.heap.ids (hotherId.trans hid.symm)]
            cases hstate : database.state with
            | database _ => simp [hstate, State.db]
            | note _ =>
                rw [hstate] at hkind
                cases hkind
      have hreleased := hdropped.release hafter.heap.ids
      rw [hnone] at hreleased
      exact hreleased

theorem World.Tended.born (h : w.Tended none) (cell : Cell) : (w.born cell).Tended none := by
  intro other hother _
  rcases List.mem_cons.mp hother with rfl | hold
  · exact owned_iff.mpr (.inl List.mem_cons_self)
  · rcases owned_iff.mp (h other hold (by simp)) with howner | ⟨member, hmember, hdb⟩
    · exact owned_iff.mpr (.inl (List.mem_cons_of_mem _ howner))
    · exact owned_iff.mpr (.inr ⟨member, List.mem_cons_of_mem _ hmember, hdb⟩)

theorem World.Tended.copy (h : w.Tended none) (id : StateId) : (w.copy id).Tended none := by
  intro other hother _
  rcases owned_iff.mp (h other hother (by simp)) with howner | hmember
  · exact owned_iff.mpr (.inl (List.mem_cons_of_mem _ howner))
  · exact owned_iff.mpr (.inr hmember)

theorem map_id_assign (id : StateId) (f : State → State) :
    (w.assign id f).heap.map Cell.id = w.heap.map Cell.id := by
  apply Table.map_modify
  exact fun _ => rfl

theorem map_address_assign (id : StateId) (f : State → State) :
    (w.assign id f).heap.map Cell.address = w.heap.map Cell.address := by
  apply Table.map_modify
  exact fun _ => rfl

theorem World.Tended.assign (h : w.Tended none) (id : StateId) {f : State → State}
    (hdb : ∀ state, (f state).db = state.db) : (w.assign id f).Tended none := by
  have hdbs : (w.assign id f).heap.map (fun cell => cell.state.db) =
      w.heap.map fun cell => cell.state.db := by
    apply Table.map_modify
    exact fun cell => hdb cell.state
  intro cell hcell _
  have hid : cell.id ∈ w.heap.map Cell.id := map_id_assign id f ▸ List.mem_map_of_mem hcell
  obtain ⟨old, hold, heq⟩ := List.mem_map.mp hid
  rw [← heq]
  rcases owned_iff.mp (h old hold (by simp)) with howner | ⟨member, hmember, hmemberDb⟩
  · exact owned_iff.mpr (.inl howner)
  · have hmap : some old.id ∈ (w.assign id f).heap.map fun cell => cell.state.db := by
      rw [hdbs, ← hmemberDb]
      exact List.mem_map_of_mem hmember
    exact owned_iff.mpr (.inr (List.mem_map.mp hmap))

/-! ## Changes by `save` -/

/-- What the library knows of a note is completed. -/
theorem Inv.noteIds (h : Inv hand w) {noteIds : Handle → Option UInt32}
    (hkept : ∀ handle noteId, w.noteIds handle = some noteId → noteIds handle = some noteId) :
    Inv hand { w with noteIds := noteIds } := by
  refine ⟨h.heap, ⟨h.stores.addresses, h.stores.known, ?_, h.stores.ended⟩,
    ⟨h.accounts.balance, h.accounts.once, h.accounts.fresh, h.accounts.placed⟩,
    ⟨h.history.dead, h.history.created, h.history.swept, h.history.ended⟩⟩
  intro kind entry hentry cell hcell heq
  obtain ⟨haddress, hkind, hhdl, hopened, hnoteId⟩ := h.stores.belongs kind entry hentry cell hcell heq
  exact ⟨haddress, hkind, hhdl, hopened, fun state hstate => hkept _ _ (hnoteId state hstate)⟩

theorem mem_assign {id : StateId} {f : State → State} {cell other : Cell}
    (hlock : w.lock id = some cell) (hids : (w.heap.map Cell.id).Nodup)
    (h : other ∈ (w.assign id f).heap) :
    other = { cell with state := f cell.state } ∨ other ∈ w.heap ∧ other.id ≠ id :=
  Table.mem_modify Cell.id hlock hids h

section Assign

variable {id : StateId} {cell : Cell} {f : State → State} (hlock : w.lock id = some cell)
include hlock

theorem HeapSound.assign (h : HeapSound w.heap w.owners w.nextState)
    (hdb : (f cell.state).db = cell.state.db) (hkind : (f cell.state).kind = cell.state.kind) :
    HeapSound (w.assign id f).heap w.owners w.nextState := by
  obtain ⟨hcell, hid⟩ := lock_eq_some hlock
  have hkept : ∀ old ∈ w.heap, ∃ new ∈ (w.assign id f).heap, new.id = old.id ∧
      new.state.kind = old.state.kind := by
    intro old hold
    by_cases holdId : old.id = id
    · have hsame : old = cell := Table.eq_of_key_eq Cell.id hold hcell h.ids (holdId.trans hid.symm)
      have hnew : ({ cell with state := f cell.state } : Cell) ∈ (w.assign id f).heap :=
        Table.mem_modify_self Cell.id hlock
      exact ⟨_, hnew, by rw [hsame], by rw [hsame, hkind]⟩
    · exact ⟨old, Table.mem_modify_of_ne Cell.id hold holdId, rfl, rfl⟩
  refine ⟨?_, fun other hother => ?_, ?_, fun other hother member hmember => ?_,
    fun owner howner => ?_⟩
  · rw [map_id_assign]
    exact h.ids
  · rcases mem_assign hlock h.ids hother with rfl | ⟨hold, _⟩
    · exact h.lt cell hcell
    · exact h.lt other hold
  · rw [map_address_assign]
    exact h.addresses
  · have hold : ∃ old ∈ w.heap, old.state.db = some member := by
      rcases mem_assign hlock h.ids hother with rfl | ⟨hold, _⟩
      · exact ⟨cell, hcell, hdb ▸ hmember⟩
      · exact ⟨other, hold, hmember⟩
    obtain ⟨old, hmemOld, holdDb⟩ := hold
    obtain ⟨db, hmemDb, hdbId, hdbKind⟩ := h.db old hmemOld member holdDb
    obtain ⟨new, hnew, hnewId, hnewKind⟩ := hkept db hmemDb
    exact ⟨new, hnew, hnewId.trans hdbId, hnewKind.trans hdbKind⟩
  · obtain ⟨other, hother, heq⟩ := h.owner owner howner
    obtain ⟨new, hnew, hnewId, _⟩ := hkept other hother
    exact ⟨new, hnew, hnewId.trans heq⟩

/-- A state that has an entry stays as it is. -/
theorem StoresSound.assign (h : StoresSound w) (hids : (w.heap.map Cell.id).Nodup)
    (hkept : ∀ kind, ∀ entry ∈ w.stores kind, entry.state = id → f cell.state = cell.state) :
    StoresSound (w.assign id f) := by
  obtain ⟨hcell, hid⟩ := lock_eq_some hlock
  refine ⟨h.addresses, h.known, fun kind entry hentry other hother heq => ?_, h.ended⟩
  rcases mem_assign hlock hids hother with rfl | ⟨hold, _⟩
  · rw [hkept kind entry hentry (heq.symm.trans hid)]
    exact h.belongs kind entry hentry cell hcell heq
  · exact h.belongs kind entry hentry other hold heq

theorem Accounted.assign (h : Accounted hand w) (hnone : (f cell.state).hdl = none) :
    Accounted (cell.state.hdl.toList ++ hand) (w.assign id f) := by
  refine ⟨fun handle => ?_, h.once, h.fresh, h.placed⟩
  have hbalance := h.balance handle
  have hcount : (w.assign id f).heap.countP (fun cell => cell.state.hdl = some handle) + _ = _ :=
    Table.countP_modify Cell.id (fun cell => cell.state.hdl = some handle) hlock
  simp only [hnone, decide_eq_true_eq, reduceCtorEq, if_false] at hcount
  rw [List.count_append, count_toList_hdl]
  simp only [World.holders, World.assign] at hbalance hcount ⊢
  omega

theorem History.assign (h : History w) (hids : (w.heap.map Cell.id).Nodup)
    (hnone : (f cell.state).hdl = none) : History (w.assign id f) := by
  obtain ⟨hcell, _⟩ := lock_eq_some hlock
  refine ⟨fun other hdied => ?_, fun other hother handle hhdl => ?_, h.swept, h.ended⟩
  · obtain ⟨hlt, hdead⟩ := h.dead other hdied
    refine ⟨hlt, fun alive halive => ?_⟩
    rcases mem_assign hlock hids halive with rfl | ⟨hold, _⟩
    · exact hdead cell hcell
    · exact hdead alive hold
  · rcases mem_assign hlock hids hother with rfl | ⟨hold, _⟩
    · exact absurd (hnone.symm.trans hhdl) (by simp)
    · exact h.created other hold handle hhdl

end Assign

/-- A note gives its handle away, and keeps its identifier if an entry was opened by it. -/
theorem Inv.assign (h : Inv hand w) {id : StateId} {cell : Cell} {state : NoteState}
    {f : State → State} {noteId : UInt32} (hlock : w.lock id = some cell)
    (hstate : cell.state = .note state) (hf : f (.note state) = .note ⟨state.db, noteId, none⟩)
    (hentry : ∀ entry ∈ w.stores .note, entry.state = id → noteId = state.noteId) :
    Inv (state.hdl.toList ++ hand) (w.assign id f) := by
  obtain ⟨hcell, hid⟩ := lock_eq_some hlock
  have hchanged : f cell.state = .note ⟨state.db, noteId, none⟩ := by rw [hstate, hf]
  have hdb : (f cell.state).db = cell.state.db := by
    rw [hchanged, hstate]
    rfl
  have hkind : (f cell.state).kind = cell.state.kind := by
    rw [hchanged, hstate]
    rfl
  have hnone : (f cell.state).hdl = none := by
    rw [hchanged]
    rfl
  have hold : cell.state.hdl = state.hdl := by
    rw [hstate]
    rfl
  have hkept : ∀ kind, ∀ entry ∈ w.stores kind, entry.state = id → f cell.state = cell.state := by
    intro kind entry hmem heq
    obtain ⟨_, hentryKind, hhdl, _, _⟩ :=
      h.stores.belongs kind entry hmem cell hcell (hid.trans heq.symm)
    rw [hstate] at hentryKind
    cases hentryKind
    -- the entry was opened by the old identifier, which is the new one
    rw [hold] at hhdl
    rw [hchanged, hstate, hentry entry hmem heq, ← hhdl]
  rw [← hold]
  exact ⟨h.heap.assign hlock hdb hkind, h.stores.assign hlock h.heap.ids hkept,
    h.accounts.assign hlock hnone, h.history.assign hlock h.heap.ids hnone⟩

end Dmn.ThreadContext
