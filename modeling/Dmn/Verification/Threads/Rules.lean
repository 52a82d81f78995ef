import Dmn.Library.Monitor
import Dmn.Verification.Threads.Invariant
import Mathlib.Data.Finset.Basic
import Mathlib.Data.Finset.Filter
import Mathlib.Data.Finset.Range
import Mathlib.Data.List.Perm.Subperm

/-! # The rules of the library

A thread uses the library between its calls of `NotesInitThread` and `NotesTermThread`, which stand
between the calls of `NotesInit` and `NotesTerm`. It closes the handles that it has opened. The program
is not terminated, and all that it does is defined. -/

namespace Dmn.Threads

open World Monitor

/-- The session is there, the threads that are inside, and the handles with the threads that have
opened them. -/
@[ext]
structure Rules where
  session : Bool
  inside : Finset ThreadId
  handles : List (ThreadId × ℕ)
  deriving DecidableEq

namespace Rules

def start : Rules := ⟨false, ∅, []⟩

def check (m : Rules) : Event → Option Rules
  | .notesInit ok => if m.session then none else some { m with session := ok }
  | .notesInitThread thread =>
      if m.session ∧ thread ∉ m.inside then some { m with inside := insert thread m.inside }
      else none
  | .opened thread hdl =>
      if thread ∈ m.inside ∧ hdl ∉ m.handles.map Prod.snd then
        some { m with handles := (thread, hdl) :: m.handles }
      else none
  | .closed thread hdl =>
      if (thread, hdl) ∈ m.handles then
        some { m with handles := m.handles.erase (thread, hdl) }
      else none
  | .notesTermThread thread =>
      if thread ∈ m.inside ∧ thread ∉ m.handles.map Prod.fst then
        some { m with inside := m.inside.erase thread }
      else none
  | .ended thread => if thread ∈ m.inside then none else some m
  | .notesTerm => if m.session ∧ m.inside = ∅ then some { m with session := false } else none
  | .terminated | .undefined => none

end Rules

variable {w w' : World} {thread other : ThreadId} {label : Label} {m : Rules}

/-! ## What the rules see of a program -/

def Guard.isDone : Guard → Bool
  | .done _ => true
  | _ => false

instance (w : World) (thread : ThreadId) : Decidable (Inside w thread) :=
  inferInstanceAs (Decidable (_ ∨ _))

def owned (entry : Entry) : ThreadId × ℕ := (entry.thread, entry.hdl)

def view (w : World) : Rules where
  session := w.session.isDone
  inside := (Finset.range w.next).filter (Inside w)
  handles := w.handles.map owned

theorem isDone_iff (guard : Guard) : guard.isDone ↔ ∃ thread, guard = .done thread := by
  cases guard with
  | done thread => exact iff_of_true rfl ⟨thread, rfl⟩
  | free => exact iff_of_false Bool.false_ne_true fun ⟨_, h⟩ => Guard.noConfusion h
  | running thread => exact iff_of_false Bool.false_ne_true fun ⟨_, h⟩ => Guard.noConfusion h
  | destroyed => exact iff_of_false Bool.false_ne_true fun ⟨_, h⟩ => Guard.noConfusion h

theorem Unowned.not_inside (h : Unowned w thread) : ¬ Inside w thread := by
  rintro (hown | hdone)
  · rw [h.1] at hown
    cases hown
  · exact h.2.2 hdone

theorem Inv.mem_inside (h : Inv w) (thread : ThreadId) :
    thread ∈ (view w).inside ↔ Inside w thread := by
  rw [view, Finset.mem_filter, Finset.mem_range]
  refine and_iff_right_of_imp fun hinside => Nat.lt_of_not_le fun hle => ?_
  have hfine := h.fine thread
  unfold Fine at hfine
  rw [h.absent thread hle] at hfine
  exact Unowned.not_inside hfine hinside

/-- Two states that differ in the session. -/
theorem view_session (h : Inv w) (h' : Inv w')
    (hinside : ∀ thread, Inside w' thread ↔ Inside w thread) (hhandles : w'.handles = w.handles) :
    view w' = { view w with session := w'.session.isDone } := by
  ext1
  · rfl
  · ext thread
    rw [h.mem_inside, h'.mem_inside, hinside]
  · exact congrArg (List.map owned) hhandles

/-- Two states that the rules see the same of. -/
theorem view_eq (h : Inv w) (h' : Inv w') (hsession : w'.session.isDone = w.session.isDone)
    (hinside : ∀ thread, Inside w' thread ↔ Inside w thread) (hhandles : w'.handles = w.handles) :
    view w' = view w := by
  rw [view_session h h' hinside hhandles, hsession]
  rfl

/-- A thread is inside from now on. -/
theorem view_insert (h : Inv w) (h' : Inv w') (hsession : w'.session = w.session)
    (hinside : ∀ other, Inside w' other ↔ other = thread ∨ Inside w other)
    (hhandles : w'.handles = w.handles) :
    view w' = { view w with inside := insert thread (view w).inside } := by
  ext1
  · exact congrArg Guard.isDone hsession
  · ext other
    rw [h'.mem_inside, hinside, Finset.mem_insert, h.mem_inside]
  · exact congrArg (List.map owned) hhandles

/-! ## Handles -/

theorem Inv.nodup_owned (h : Inv w) : (w.handles.map owned).Nodup := by
  have hsnd : (w.handles.map owned).map Prod.snd = w.handles.map Entry.hdl := List.map_map ..
  exact List.Nodup.of_map Prod.snd (hsnd ▸ h.nodup)

theorem Inv.eq_of_hdl (h : Inv w) {entry entry' : Entry} (hentry : entry ∈ w.handles)
    (hentry' : entry' ∈ w.handles) (hhdl : entry.hdl = entry'.hdl) : entry = entry' :=
  List.inj_on_of_nodup_map h.nodup hentry hentry' hhdl

/-- A thread closes its handles one by one. -/
theorem checks_closed (m : Rules) (hdls : List ℕ)
    (h : (hdls.map fun hdl => (thread, hdl)).Subperm m.handles) :
    checks Rules.check m (hdls.map fun hdl => .closed thread hdl) =
      some { m with handles := m.handles.diff (hdls.map fun hdl => (thread, hdl)) } := by
  induction hdls generalizing m with
  | nil => rfl
  | cons hdl hdls ih =>
      have hmem : (thread, hdl) ∈ m.handles := h.subset List.mem_cons_self
      have hrest : (hdls.map fun hdl => (thread, hdl)).Subperm (m.handles.erase (thread, hdl)) := by
        simpa using h.erase (thread, hdl)
      rw [List.map_cons, List.map_cons, checks, Rules.check, if_pos hmem, Option.bind_some,
        ih _ hrest, List.diff_cons]

theorem owned_mem_stored (h : Inv w) {entry : Entry} (hentry : entry ∈ w.handles)
    (context : Context) :
    owned entry ∈ (w.stored context).map owned ↔ entry.context = context := by
  constructor
  · intro hmem
    obtain ⟨entry', hentry', heq⟩ := List.mem_map.mp hmem
    obtain ⟨hold, hcontext⟩ := List.mem_filter.mp hentry'
    rw [h.eq_of_hdl hentry hold (congrArg Prod.snd heq).symm]
    exact of_decide_eq_true hcontext
  · intro hcontext
    exact List.mem_map_of_mem (List.mem_filter.mpr ⟨hentry, decide_eq_true hcontext⟩)

/-- The handles that are left with a context that is destroyed. -/
theorem diff_stored (h : Inv w) (context : Context) :
    (w.handles.map owned).diff ((w.stored context).map owned) =
      (w.handles.filter fun entry => entry.context ≠ context).map owned := by
  rw [h.nodup_owned.sdiff_eq_filter, List.filter_map]
  refine congrArg (List.map owned) (List.filter_congr fun entry hentry => ?_)
  exact decide_eq_decide.mpr (not_congr (owned_mem_stored h hentry context))

/-- All handles of the context are closed, if they are of the thread. -/
theorem clears_of_own {entries : List Entry} (h : ∀ entry ∈ entries, entry.thread = thread) :
    clears thread entries =
      entries.map (fun entry => .closed thread entry.hdl) ++ [.notesTermThread thread] := by
  induction entries with
  | nil => rfl
  | cons entry entries ih =>
      rw [clears, if_pos (h entry List.mem_cons_self),
        ih fun other hother => h other (List.mem_cons_of_mem _ hother)]
      rfl

/-- A thread destroys a context with its own handles, and no others are left to it. -/
theorem checks_contextEnds (h : Inv w) {context : Context} (hinside : Inside w thread)
    (hown : ∀ entry ∈ w.handles, entry.context = context ↔ entry.thread = thread) :
    checks Rules.check (view w) (w.contextEnds thread context) =
      some { view w with
        inside := (view w).inside.erase thread
        handles := (w.handles.filter fun entry => entry.context ≠ context).map owned } := by
  have hstored : (w.stored context).map owned =
      ((w.stored context).map Entry.hdl).map fun hdl => (thread, hdl) := by
    rw [List.map_map]
    refine List.map_congr_left fun entry hentry => ?_
    obtain ⟨hold, hcontext⟩ := List.mem_filter.mp hentry
    exact congrArg (·, entry.hdl) ((hown entry hold).mp (of_decide_eq_true hcontext))
  have hsub : (((w.stored context).map Entry.hdl).map fun hdl => (thread, hdl)).Subperm
      (view w).handles := by
    rw [← hstored]
    exact (List.filter_sublist.map owned).subperm
  have hevents : (w.stored context).map (fun entry => Event.closed thread entry.hdl) =
      ((w.stored context).map Entry.hdl).map fun hdl => .closed thread hdl := (List.map_map ..).symm
  have hclosed := checks_closed (view w) ((w.stored context).map Entry.hdl) hsub
  have hleft : (view w).handles.diff ((w.stored context).map owned) = _ := diff_stored h context
  have hnone : thread ∉
      ((w.handles.filter fun entry => entry.context ≠ context).map owned).map Prod.fst := by
    intro hmem
    obtain ⟨_, hpair, hfst⟩ := List.mem_map.mp hmem
    obtain ⟨entry, hentry, rfl⟩ := List.mem_map.mp hpair
    obtain ⟨hold, hcontext⟩ := List.mem_filter.mp hentry
    exact of_decide_eq_true hcontext ((hown entry hold).mpr hfst)
  have hclears : w.contextEnds thread context =
      (w.stored context).map (fun entry => .closed thread entry.hdl) ++ [.notesTermThread thread] :=
    clears_of_own fun entry hentry =>
      have hmem := List.mem_filter.mp hentry
      (hown entry hmem.1).mp (of_decide_eq_true hmem.2)
  rw [hclears, checks_append, hevents, hclosed, ← hstored, hleft, Option.bind_some,
    checks_singleton, Rules.check, if_pos ⟨(h.mem_inside thread).mpr hinside, hnone⟩]

theorem map_owned_erase (h : Inv w) {entry : Entry} (hentry : entry ∈ w.handles) :
    (w.handles.erase entry).map owned = (w.handles.map owned).erase (owned entry) := by
  have hnodup : w.handles.Nodup := List.Nodup.of_map _ h.nodup
  rw [hnodup.erase_eq_filter, h.nodup_owned.erase_eq_filter, List.filter_map]
  refine congrArg (List.map owned) (List.filter_congr fun other hother => ?_)
  have hiff : other = entry ↔ owned other = owned entry :=
    ⟨congrArg owned, fun heq => h.eq_of_hdl hother hentry (congrArg Prod.snd heq)⟩
  rw [Bool.eq_iff_iff]
  simpa using not_congr hiff

/-! ## Steps -/

theorem Resting.inside {context : Context} (h : Resting w thread)
    (hcurrent : w.current thread = some context) : Inside w thread := by
  cases h with
  | unowned h =>
      rw [h.1] at hcurrent
      cases hcurrent
  | static _ hdone => exact .inr hdone
  | own hown => exact .inl hown

theorem inside_congr (hcurrent : w'.current = w.current)
    (hcontext : ∀ thread, w'.context = .done thread ↔ w.context = .done thread)
    (thread : ThreadId) : Inside w' thread ↔ Inside w thread := by
  unfold Inside
  rw [hcurrent, hcontext]

/-- The thread that constructs the static context is not inside yet. -/
theorem inside_entered (hfree : w.context = .free) (hnone : w.current thread = none)
    (purpose : Purpose) (other : ThreadId) :
    Inside (entered thread purpose w) other ↔ Inside w other := by
  have hcontext : w.context ≠ .done other := fun heq => Guard.noConfusion (hfree.symm.trans heq)
  by_cases heq : other = thread
  · subst heq
    have hcurrent : (entered other purpose w).current other = some .static :=
      current_setCurrent_self ..
    refine iff_of_false ?_ ?_
    · rintro (hown | hdone)
      · rw [hcurrent] at hown
        cases hown
      · cases hdone
    · rintro (hown | hdone)
      · rw [hnone] at hown
        cases hown
      · exact hcontext hdone
  · have hcurrent : (entered thread purpose w).current other = w.current other :=
      current_setCurrent_of_ne _ _ heq
    unfold Inside
    rw [hcurrent]
    exact or_congr_right (iff_of_false (fun hdone => Guard.noConfusion hdone) hcontext)

theorem World.returns_same (w : World) (thread : ThreadId) (purpose : Purpose) :
    (w.returns thread purpose).current = w.current ∧
      (w.returns thread purpose).context = w.context ∧
      (w.returns thread purpose).session = w.session ∧
      (w.returns thread purpose).handles = w.handles := by
  cases purpose <;> exact ⟨rfl, rfl, rfl, rfl⟩

theorem Inv.checks_opened (h : Inv w) (hcontrol : w.control thread = .idle) {context : Context}
    (hcurrent : w.current thread = some context) :
    checks Rules.check (view w) [.opened thread w.nextHandle] =
      some (view (Threads.opened context thread w)) := by
  have hinside := (h.mem_inside thread).mpr ((h.resting hcontrol).inside hcurrent)
  have hfresh : w.nextHandle ∉ (view w).handles.map Prod.snd := by
    intro hmem
    obtain ⟨_, hpair, hsnd⟩ := List.mem_map.mp hmem
    obtain ⟨entry, hentry, rfl⟩ := List.mem_map.mp hpair
    exact Nat.ne_of_lt (h.placed entry hentry).1 hsnd
  rw [checks_singleton, Rules.check, if_pos ⟨hinside, hfresh⟩]
  rfl

theorem Inv.checks_closed (h : Inv w) {context : Context} {hdl : ℕ}
    (hmem : ⟨context, thread, hdl⟩ ∈ w.handles) :
    checks Rules.check (view w) [.closed thread hdl] =
      some (view { w with handles := w.handles.erase ⟨context, thread, hdl⟩ }) := by
  have hpair : (thread, hdl) ∈ (view w).handles := List.mem_map_of_mem hmem
  have herase : (view w).handles.erase (thread, hdl) = _ := (map_owned_erase h hmem).symm
  rw [checks_singleton, Rules.check, if_pos hpair, herase]
  rfl

theorem Inv.checks_constructs (h : Inv w) {purpose : Purpose}
    (hcontrol : w.control thread = .context purpose) (halive : w.session.isDone)
    (h' : Inv ({ w with context := .done thread }.returns thread purpose)) :
    checks Rules.check (view w) [.notesInitThread thread] =
      some (view ({ w with context := .done thread }.returns thread purpose)) := by
  obtain ⟨-, hcurrent, hrunning⟩ := h.context_fine hcontrol
  obtain ⟨hcurrent', hcontext', hsession', hhandles'⟩ :=
    World.returns_same { w with context := .done thread } thread purpose
  have houtside : ¬ Inside w thread := by
    rintro (hown | hdone)
    · rw [hcurrent] at hown
      cases hown
    · exact Guard.noConfusion (hrunning.symm.trans hdone)
  have hinside : ∀ other, Inside ({ w with context := .done thread }.returns thread purpose) other ↔
      other = thread ∨ Inside w other := by
    intro other
    unfold Inside
    rw [hcurrent', hcontext', hrunning]
    constructor
    · rintro (hown | hdone)
      · exact .inr (.inl hown)
      · exact .inl (Guard.done.inj hdone).symm
    · rintro (rfl | hown | hdone)
      · exact .inr rfl
      · exact .inl hown
      · cases hdone
  rw [checks_singleton, Rules.check,
    if_pos ⟨halive, mt (h.mem_inside thread).mp houtside⟩,
    view_insert h h' hsession' hinside hhandles']

theorem Inv.checks_begins (h : Inv w) (hcontrol : w.control thread = .starting)
    (halive : w.session.isDone) :
    checks Rules.check (view w) [.notesInitThread thread] =
      some (view (Threads.begun thread w)) := by
  obtain ⟨-, -, hunowned⟩ := h.starting_fine hcontrol
  have hinside : ∀ other,
      Inside (Threads.begun thread w) other ↔ other = thread ∨ Inside w other := by
    intro other
    by_cases heq : other = thread
    · subst heq
      exact iff_of_true (.inl (current_setCurrent_self w other _)) (.inl rfl)
    · have hsame : (Threads.begun thread w).current other = w.current other :=
        current_setCurrent_of_ne w _ heq
      unfold Inside
      rw [hsame]
      exact (or_iff_right heq).symm
  rw [checks_singleton, Rules.check,
    if_pos ⟨halive, mt (h.mem_inside thread).mp hunowned.not_inside⟩,
    view_insert h (h.begun hcontrol) rfl hinside rfl]

/-- The state behind the end of a context. -/
theorem view_contextEnds (h : Inv w) (h' : Inv w') (hsession : w'.session = w.session)
    (hinside : ∀ other, Inside w' other ↔ other ≠ thread ∧ Inside w other) {context : Context}
    (hhandles : w'.handles = w.handles.filter fun entry => entry.context ≠ context) :
    view w' = { view w with
      inside := (view w).inside.erase thread
      handles := (w.handles.filter fun entry => entry.context ≠ context).map owned } := by
  ext1
  · exact congrArg Guard.isDone hsession
  · ext other
    rw [h'.mem_inside, hinside, Finset.mem_erase, h.mem_inside]
  · exact congrArg (List.map owned) hhandles

theorem Inv.checks_finished (h : Inv w) (hcontrol : w.control thread = .idle)
    (hown : w.current thread = some (.ofThread thread)) :
    checks Rules.check (view w) (w.contextEnds thread (.ofThread thread) ++ [.ended thread]) =
      some (view ((w.destroyContext thread (.ofThread thread)).goTo thread .ended)) := by
  have hinside : Inside w thread := .inl hown
  have hleft : ∀ other, Inside ((w.destroyContext thread (.ofThread thread)).goTo thread .ended)
      other ↔ other ≠ thread ∧ Inside w other := by
    intro other
    by_cases heq : other = thread
    · subst heq
      refine iff_of_false (fun hstill => ?_) fun hne => hne.1 rfl
      rcases hstill with hstill | hdone
      · have hnone : ((w.destroyContext other (.ofThread other)).goTo other .ended).current other =
          none := current_setCurrent_self ..
        rw [hnone] at hstill
        cases hstill
      · rw [h.static_of_done hdone] at hown
        cases hown
    · have hsame : ((w.destroyContext thread (.ofThread thread)).goTo thread .ended).current other =
          w.current other := current_setCurrent_of_ne _ _ heq
      unfold Inside
      rw [hsame]
      exact (and_iff_right heq).symm
  rw [checks_append, checks_contextEnds h hinside fun entry => h.context_iff hown hinside,
    Option.bind_some, checks_singleton, Rules.check, if_neg (Finset.notMem_erase _ _),
    view_contextEnds h (h.finished hcontrol hown) rfl hleft rfl]

theorem Inv.checks_exitsStatic (h : Inv w) (hcontrol : w.control mainThread = .idle)
    (hdone : w.context = .done mainThread) :
    checks Rules.check (view w) (w.contextEnds mainThread .static) =
      some (view (withoutStatic w)) := by
  have hinside : Inside w mainThread := .inr hdone
  have hstatic := h.static_of_done hdone
  have hleft : ∀ other, Inside (withoutStatic w) other ↔ other ≠ mainThread ∧ Inside w other := by
    intro other
    by_cases heq : other = mainThread
    · subst heq
      refine iff_of_false (fun hstill => ?_) fun hne => hne.1 rfl
      rcases hstill with hstill | hstill
      · rw [current_withoutStatic] at hstill
        cases hstill
      · cases hstill
    · have hsame : (withoutStatic w).current other = w.current other :=
        current_setCurrent_of_ne _ _ heq
      have hnot : w.context ≠ .done other := fun hother =>
        heq (Guard.done.inj (hother.symm.trans hdone))
      unfold Inside
      rw [hsame]
      constructor
      · rintro (hown | hother)
        · exact ⟨heq, .inl hown⟩
        · cases hother
      · rintro ⟨-, hown | hother⟩
        · exact .inl hown
        · exact absurd hother hnot
  rw [checks_contextEnds h hinside fun entry => h.context_iff hstatic hinside,
    view_contextEnds h (h.exitsStatic hcontrol hdone) rfl hleft rfl]

/-- The rules follow an allowed step. -/
theorem view_step (h : Inv w) (hallowed : Allowed w label) :
    checks Rules.check (view w) (emit w label) = some (view (step w label)) := by
  have hacts := acts label w
  have h' := inv_step h hallowed
  generalize step w label = w', emit w label = events at hacts h' ⊢
  cases hacts with
  | nothing => rfl
  | started hcontrol => exact congrArg some (view_eq h h' rfl (fun _ => Iff.rfl) rfl).symm
  | entersSession hcontrol hfree =>
      refine congrArg some (view_eq h h' ?_ (fun _ => Iff.rfl) rfl).symm
      rw [hfree]
      rfl
  | entersBetween => exact congrArg some (view_eq h h' rfl (fun _ => Iff.rfl) rfl).symm
  | initialised hcontrol =>
      have hsession : ¬ (view w).session := by
        rw [view, (h.session_fine hcontrol).1]
        exact Bool.false_ne_true
      rw [checks_singleton, Rules.check, if_neg hsession,
        view_session h h' (fun _ => Iff.rfl) rfl]
      rfl
  | refused hcontrol => exact absurd (hallowed.1 ⟨_, hcontrol⟩) Bool.false_ne_true
  | @passes thread purpose =>
      obtain ⟨hcurrent, hcontext, hsession, hhandles⟩ := World.returns_same w thread purpose
      refine congrArg some (view_eq h h' (congrArg Guard.isDone hsession) ?_ hhandles).symm
      exact inside_congr hcurrent fun _ => by rw [hcontext]
  | @entersContext thread purpose ok hcontrol hfree hnone =>
      refine congrArg some (view_eq h h' rfl (fun other => ?_) rfl).symm
      exact inside_entered hfree hnone purpose other
  | throws => exact congrArg some (view_eq h h' rfl (fun _ => Iff.rfl) rfl).symm
  | constructs ok hcontrol =>
      exact h.checks_constructs hcontrol ((isDone_iff _).mpr (hallowed.2 ⟨_, hcontrol⟩)) h'
  | begins hcontrol => exact h.checks_begins hcontrol ((isDone_iff _).mpr (hallowed hcontrol))
  | opens hcontrol hcurrent => exact h.checks_opened hcontrol hcurrent
  | closes hcontrol hcurrent hmem => exact h.checks_closed hmem
  | finishes hcontrol hmain hown => exact h.checks_finished hcontrol hown
  | finishHalts hcontrol hmain hown hforeign =>
      exact absurd hforeign (h.not_foreign hown (.inl hown))
  | @ends thread hcontrol hmain hown =>
      have houtside : ¬ Inside w thread := not_or.mpr ⟨hown, hallowed hcontrol hmain⟩
      rw [checks_singleton, Rules.check, if_neg (mt (h.mem_inside thread).mp houtside)]
      exact congrArg some (view_eq h h' rfl (fun _ => Iff.rfl) rfl).symm
  | exitsStatic hcontrol hdone =>
      obtain rfl := (hallowed rfl).1 hcontrol _ hdone
      exact h.checks_exitsStatic hcontrol hdone
  | exitHalts hcontrol hdone hforeign =>
      obtain rfl := (hallowed rfl).1 hcontrol _ hdone
      exact absurd hforeign (h.not_foreign (h.static_of_done hdone) (.inr hdone))
  | exitsPlain => exact congrArg some (view_eq h h' rfl (fun _ => Iff.rfl) rfl).symm
  | terminates hcontrol hdone =>
      have hsession : (view w).session := (isDone_iff _).mpr ⟨_, hdone⟩
      have hempty : (view w).inside = ∅ := Finset.eq_empty_of_forall_notMem fun thread hmem =>
        (hallowed rfl).2 hcontrol ⟨_, hdone⟩ thread ((h.mem_inside thread).mp hmem)
      rw [checks_singleton, Rules.check, if_pos ⟨hsession, hempty⟩,
        view_session h h' (fun _ => Iff.rfl) rfl]
      rfl
  | leaves => exact congrArg some (view_eq h h' rfl (fun _ => Iff.rfl) rfl).symm

end Dmn.Threads
