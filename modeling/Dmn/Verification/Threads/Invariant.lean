import Dmn.Model.Threads
import Mathlib.Data.List.Nodup

/-! # Where threads are

A thread has a context just while it may use the library: the static one, which belongs to the
thread that has constructed it, or its own. -/

namespace Dmn.Threads

open World

/-! ## Moves -/

def Guard.Constructed (guard : Guard) : Prop :=
  (∃ thread, guard = .done thread) ∨ guard = .destroyed

def entered (thread : ThreadId) (purpose : Purpose) (w : World) : World :=
  ({ w with context := .running thread }.goTo thread (.context purpose)).setCurrent thread
    (some .static)

def begun (thread : ThreadId) (w : World) : World :=
  (w.setCurrent thread (some (.ofThread thread))).goTo thread .idle

def opened (context : Context) (thread : ThreadId) (w : World) : World :=
  { w with
    handles := ⟨context, thread, w.nextHandle⟩ :: w.handles
    nextHandle := w.nextHandle + 1 }

def withoutStatic (w : World) : World :=
  ({ w with context := .destroyed }.destroyContext mainThread .static).goTo mainThread .leaving

/-- What a thread can do, and its native calls. -/
inductive Acts (w : World) : Label → World → List Event → Prop where
  | nothing (label : Label) : Acts w label w []
  | started {t} (h : w.control t = .idle) : Acts w ⟨t, .start⟩ (w.adds .idle) []
  | entersSession {t p} (h : w.control t = .idle) (hfree : w.session = .free) :
      Acts w ⟨t, .instance p⟩ ({ w with session := .running t }.goTo t (.session p)) []
  | entersBetween {t p} (h : w.control t = .idle) (hdone : w.session.Constructed) :
      Acts w ⟨t, .instance p⟩ (w.goTo t (.between p)) []
  | initialised {t p} (h : w.control t = .session p) : Acts w ⟨t, .proceed true⟩
      ({ w with session := .done t }.goTo t (.between p)) [.notesInit true]
  | refused {t p} (h : w.control t = .session p) :
      Acts w ⟨t, .proceed false⟩ w.halt [.notesInit false, .undefined]
  | passes {t p} (ok : Bool) (h : w.control t = .between p) (hdone : w.context.Constructed) :
      Acts w ⟨t, .proceed ok⟩ (w.returns t p) []
  | entersContext {t p} (ok : Bool) (h : w.control t = .between p) (hfree : w.context = .free)
      (hnone : w.current t = none) : Acts w ⟨t, .proceed ok⟩ (entered t p w) []
  | throws {t p} (ok : Bool) (h : w.control t = .between p) (hfree : w.context = .free)
      (hsome : w.current t ≠ none) : Acts w ⟨t, .proceed ok⟩ (w.goTo t .idle) []
  | constructs {t p} (ok : Bool) (h : w.control t = .context p) : Acts w ⟨t, .proceed ok⟩
      ({ w with context := .done t }.returns t p) [.notesInitThread t]
  | begins {t} (h : w.control t = .starting) :
      Acts w ⟨t, .begin⟩ (begun t w) [.notesInitThread t]
  | opens {t context} (h : w.control t = .idle) (hcurrent : w.current t = some context) :
      Acts w ⟨t, .open⟩ (opened context t w) [.opened t w.nextHandle]
  | closes {t context hdl} (h : w.control t = .idle) (hcurrent : w.current t = some context)
      (hmem : ⟨context, t, hdl⟩ ∈ w.handles) : Acts w ⟨t, .close hdl⟩
        { w with handles := w.handles.erase ⟨context, t, hdl⟩ } [.closed t hdl]
  | finishes {t} (h : w.control t = .idle) (hmain : t ≠ mainThread)
      (hown : w.current t = some (.ofThread t)) : Acts w ⟨t, .finish⟩
        ((w.destroyContext t (.ofThread t)).goTo t .ended)
        (w.contextEnds t (.ofThread t) ++ [.ended t])
  | finishHalts {t} (h : w.control t = .idle) (hmain : t ≠ mainThread)
      (hown : w.current t = some (.ofThread t)) (hforeign : w.foreign t (.ofThread t) = true) :
      Acts w ⟨t, .finish⟩ w.halt (w.contextEnds t (.ofThread t))
  | ends {t} (h : w.control t = .idle) (hmain : t ≠ mainThread)
      (hown : w.current t ≠ some (.ofThread t)) :
      Acts w ⟨t, .finish⟩ (w.goTo t .ended) [.ended t]
  | exitsStatic {t} (h : w.control mainThread = .idle) (hdone : w.context = .done t) :
      Acts w ⟨mainThread, .exit⟩ (withoutStatic w) (w.contextEnds mainThread .static)
  | exitHalts {t} (h : w.control mainThread = .idle) (hdone : w.context = .done t)
      (hforeign : w.foreign mainThread .static = true) :
      Acts w ⟨mainThread, .exit⟩ w.halt (w.contextEnds mainThread .static)
  | exitsPlain (h : w.control mainThread = .idle) (hdone : ∀ t, w.context ≠ .done t) :
      Acts w ⟨mainThread, .exit⟩ (w.goTo mainThread .leaving) []
  | terminates {t} (h : w.control mainThread = .leaving) (hdone : w.session = .done t) :
      Acts w ⟨mainThread, .exit⟩ ({ w with session := .destroyed }.goTo mainThread .ended)
        [.notesTerm]
  | leaves (h : w.control mainThread = .leaving) (hdone : ∀ t, w.session ≠ .done t) :
      Acts w ⟨mainThread, .exit⟩ (w.goTo mainThread .ended) []

variable {w w' : World} {thread other : ThreadId} {purpose : Purpose} {label : Label}

theorem acts_proceed (thread : ThreadId) (ok : Bool) (w : World) :
    Acts w ⟨thread, .proceed ok⟩ (proceed thread ok w).1 (proceed thread ok w).2 := by
  unfold proceed
  cases hcontrol : w.control thread with
  | session purpose =>
      cases ok with
      | true => exact .initialised hcontrol
      | false => exact .refused hcontrol
  | between purpose =>
      cases hcontext : w.context with
      | done owner => exact .passes ok hcontrol (.inl ⟨owner, hcontext⟩)
      | destroyed => exact .passes ok hcontrol (.inr hcontext)
      | running owner => exact .nothing _
      | free =>
          by_cases hnone : w.current thread = none
          · simpa only [if_pos hnone] using .entersContext ok hcontrol hcontext hnone
          · simpa only [if_neg hnone] using .throws ok hcontrol hcontext hnone
  | context purpose => exact .constructs ok hcontrol
  | absent => exact .nothing _
  | idle => exact .nothing _
  | starting => exact .nothing _
  | leaving => exact .nothing _
  | ended => exact .nothing _

theorem acts_enterInstance (h : w.control thread = .idle) (purpose : Purpose) :
    Acts w ⟨thread, .instance purpose⟩ (enterInstance thread purpose w).1
      (enterInstance thread purpose w).2 := by
  unfold enterInstance
  cases hsession : w.session with
  | free => exact .entersSession h hsession
  | running owner => exact .nothing _
  | done owner => exact .entersBetween h (.inl ⟨owner, hsession⟩)
  | destroyed => exact .entersBetween h (.inr hsession)

theorem acts_openHandle (h : w.control thread = .idle) :
    Acts w ⟨thread, .open⟩ (openHandle thread w).1 (openHandle thread w).2 := by
  unfold openHandle
  cases hcurrent : w.current thread with
  | none => exact .nothing _
  | some context => exact .opens h hcurrent

theorem acts_closeHandle (h : w.control thread = .idle) (hdl : ℕ) :
    Acts w ⟨thread, .close hdl⟩ (closeHandle thread hdl w).1 (closeHandle thread hdl w).2 := by
  unfold closeHandle
  cases hcurrent : w.current thread with
  | none => exact .nothing _
  | some context =>
      by_cases hmem : ⟨context, thread, hdl⟩ ∈ w.handles
      · simpa only [if_pos hmem] using .closes h hcurrent hmem
      · simpa only [if_neg hmem] using .nothing _

theorem acts_finish (h : w.control thread = .idle) (hmain : thread ≠ mainThread) :
    Acts w ⟨thread, .finish⟩ (finish thread w).1 (finish thread w).2 := by
  unfold finish
  by_cases hown : w.current thread = some (.ofThread thread)
  · rw [if_pos hown]
    cases hforeign : w.foreign thread (.ofThread thread) with
    | true => exact .finishHalts h hmain hown hforeign
    | false => exact .finishes h hmain hown
  · simpa only [if_neg hown] using .ends h hmain hown

theorem acts_exit (w : World) : Acts w ⟨mainThread, .exit⟩ (exit w).1 (exit w).2 := by
  unfold exit
  cases hcontrol : w.control mainThread with
  | idle =>
      cases hcontext : w.context with
      | done owner =>
          cases hforeign : w.foreign mainThread .static with
          | true => exact .exitHalts hcontrol hcontext hforeign
          | false => exact .exitsStatic hcontrol hcontext
      | free => exact .exitsPlain hcontrol fun _ h => Guard.noConfusion (hcontext.symm.trans h)
      | running owner =>
          exact .exitsPlain hcontrol fun _ h => Guard.noConfusion (hcontext.symm.trans h)
      | destroyed => exact .exitsPlain hcontrol fun _ h => Guard.noConfusion (hcontext.symm.trans h)
  | leaving =>
      cases hsession : w.session with
      | done owner => exact .terminates hcontrol hsession
      | free => exact .leaves hcontrol fun _ h => Guard.noConfusion (hsession.symm.trans h)
      | running owner => exact .leaves hcontrol fun _ h => Guard.noConfusion (hsession.symm.trans h)
      | destroyed => exact .leaves hcontrol fun _ h => Guard.noConfusion (hsession.symm.trans h)
  | absent => exact .nothing _
  | session purpose => exact .nothing _
  | between purpose => exact .nothing _
  | context purpose => exact .nothing _
  | starting => exact .nothing _
  | ended => exact .nothing _

theorem acts (label : Label) (w : World) : Acts w label (step w label) (emit w label) := by
  obtain ⟨thread, move⟩ := label
  unfold step emit act
  by_cases hhalted : w.halted = true
  · rw [if_pos hhalted]
    exact .nothing _
  rw [if_neg hhalted]
  cases move with
  | proceed ok => exact acts_proceed thread ok w
  | begin =>
      by_cases h : w.control thread = .starting
      · simpa only [if_pos h] using .begins h
      · simpa only [if_neg h] using .nothing _
  | exit =>
      by_cases h : thread = mainThread
      · subst h
        exact acts_exit w
      · simpa only [if_neg h] using .nothing _
  | start =>
      by_cases h : w.control thread = .idle
      · simpa only [if_pos h] using .started h
      · simpa only [if_neg h] using .nothing _
  | «instance» purpose =>
      by_cases h : w.control thread = .idle
      · simpa only [if_pos h] using acts_enterInstance h purpose
      · simpa only [if_neg h] using .nothing _
  | «open» =>
      by_cases h : w.control thread = .idle
      · simpa only [if_pos h] using acts_openHandle h
      · simpa only [if_neg h] using .nothing _
  | close hdl =>
      by_cases h : w.control thread = .idle
      · simpa only [if_pos h] using acts_closeHandle h hdl
      · simpa only [if_neg h] using .nothing _
  | finish =>
      by_cases h : w.control thread = .idle
      · by_cases hmain : thread = mainThread
        · simpa only [if_pos h, if_pos hmain] using .nothing _
        · simpa only [if_pos h, if_neg hmain] using acts_finish h hmain
      · simpa only [if_neg h] using .nothing _

/-! ## The invariant -/

/-- The thread has no context. -/
def Unowned (w : World) (thread : ThreadId) : Prop :=
  w.current thread = none ∧ w.context ≠ .running thread ∧ w.context ≠ .done thread

/-- The thread has no context, the static one or its own. -/
inductive Resting (w : World) (thread : ThreadId) : Prop where
  | unowned (h : Unowned w thread)
  | static (h : w.current thread = some .static) (hdone : w.context = .done thread)
  | own (h : w.current thread = some (.ofThread thread)) (hmain : thread ≠ mainThread)
      (hrunning : w.context ≠ .running thread) (hdone : w.context ≠ .done thread)

/-- What is known of a thread where it is. -/
def Fine (w : World) (thread : ThreadId) : Prop :=
  match w.control thread with
  | .idle => Resting w thread
  | .session _ => w.session = .running thread ∧ Resting w thread
  | .between _ => w.session.Constructed ∧ Resting w thread
  | .context _ => w.session.Constructed ∧ w.current thread = some .static ∧
      w.context = .running thread
  | .starting => w.session.Constructed ∧ thread ≠ mainThread ∧ Unowned w thread
  | _ => Unowned w thread

/-- A handle is stored for the thread whose context has it. -/
def Placed (w : World) (entry : Entry) : Prop :=
  entry.hdl < w.nextHandle ∧
    match entry.context with
    | .static => w.context = .done entry.thread
    | .ofThread thread => entry.thread = thread ∧ w.current thread = some (.ofThread thread)

structure Inv (w : World) : Prop where
  running : w.halted = false
  fine : ∀ thread, Fine w thread
  absent : ∀ thread, w.next ≤ thread → w.control thread = .absent
  main : mainThread < w.next
  placed : ∀ entry ∈ w.handles, Placed w entry
  nodup : (w.handles.map Entry.hdl).Nodup

/-- What the moves of other threads leave of a thread. -/
structure Frame (w w' : World) (thread : ThreadId) : Prop where
  control : w'.control thread = w.control thread
  current : w'.current thread = w.current thread
  running : w.session = .running thread → w'.session = .running thread
  constructed : w.session.Constructed → w'.session.Constructed
  context : ∀ guard : Guard, guard = .running thread ∨ guard = .done thread →
    (w'.context = guard ↔ w.context = guard)

theorem Unowned.frame (h : Unowned w thread) (hframe : Frame w w' thread) : Unowned w' thread :=
  ⟨hframe.current.trans h.1, mt (hframe.context _ (.inl rfl)).mp h.2.1,
    mt (hframe.context _ (.inr rfl)).mp h.2.2⟩

theorem Resting.frame (h : Resting w thread) (hframe : Frame w w' thread) : Resting w' thread := by
  cases h with
  | unowned h => exact .unowned (h.frame hframe)
  | static h hdone =>
      exact .static (hframe.current.trans h) ((hframe.context _ (.inr rfl)).mpr hdone)
  | own h hmain hrunning hdone =>
      exact .own (hframe.current.trans h) hmain (mt (hframe.context _ (.inl rfl)).mp hrunning)
        (mt (hframe.context _ (.inr rfl)).mp hdone)

theorem Fine.frame (h : Fine w thread) (hframe : Frame w w' thread) : Fine w' thread := by
  unfold Fine at h ⊢
  rw [hframe.control]
  cases hcontrol : w.control thread <;> rw [hcontrol] at h
  case idle => exact Resting.frame h hframe
  case session => exact ⟨hframe.running h.1, h.2.frame hframe⟩
  case between => exact ⟨hframe.constructed h.1, h.2.frame hframe⟩
  case context =>
    exact ⟨hframe.constructed h.1, hframe.current.trans h.2.1,
      (hframe.context _ (.inl rfl)).mpr h.2.2⟩
  case starting => exact ⟨hframe.constructed h.1, h.2.1, h.2.2.frame hframe⟩
  all_goals exact Unowned.frame h hframe

/-! ## Moves of one thread -/

@[simp] theorem control_goTo_self (w : World) (thread : ThreadId) (control : Control) :
    (w.goTo thread control).control thread = control := Function.update_self ..

theorem control_goTo_of_ne (w : World) (control : Control) (hne : other ≠ thread) :
    (w.goTo thread control).control other = w.control other := Function.update_of_ne hne ..

@[simp] theorem current_setCurrent_self (w : World) (thread : ThreadId)
    (context : Option Context) : (w.setCurrent thread context).current thread = context :=
  Function.update_self ..

theorem current_setCurrent_of_ne (w : World) (context : Option Context) (hne : other ≠ thread) :
    (w.setCurrent thread context).current other = w.current other := Function.update_of_ne hne ..

theorem Placed.frame {entry : Entry} (h : Placed w entry)
    (hframe : ∀ other, other ≠ thread → Frame w w' other)
    (hnextHandle : w.nextHandle ≤ w'.nextHandle)
    (hdone : entry.context = .static → w.context = .done thread → w'.context = .done thread)
    (hown : entry.context = .ofThread thread → w.current thread = some (.ofThread thread) →
      w'.current thread = some (.ofThread thread)) : Placed w' entry := by
  obtain ⟨hsmall, hplaced⟩ := h
  refine ⟨Nat.lt_of_lt_of_le hsmall hnextHandle, ?_⟩
  cases hcontext : entry.context with
  | static =>
      simp only [hcontext] at hplaced ⊢
      by_cases heq : entry.thread = thread
      · rw [heq] at hplaced ⊢
        exact hdone hcontext hplaced
      · exact ((hframe _ heq).context _ (.inr rfl)).mpr hplaced
  | ofThread owner =>
      simp only [hcontext] at hplaced ⊢
      refine ⟨hplaced.1, ?_⟩
      by_cases heq : owner = thread
      · rw [heq] at hplaced hcontext ⊢
        exact hown hcontext hplaced.2
      · exact (hframe _ heq).current.trans hplaced.2

/-- A thread moves, and the handles that are left were there. -/
theorem Inv.moved (h : Inv w) (hthread : w.control thread ≠ .absent)
    (hframe : ∀ other, other ≠ thread → Frame w w' other) (hfine : Fine w' thread)
    (hnext : w'.next = w.next) (hhalted : w'.halted = w.halted)
    (hhandles : w'.handles.Sublist w.handles)
    (hplaced : ∀ entry ∈ w'.handles, Placed w entry → Placed w' entry) : Inv w' where
  running := hhalted.trans h.running
  fine other := by
    by_cases heq : other = thread
    · rw [heq]
      exact hfine
    · exact (h.fine other).frame (hframe other heq)
  absent other hother := by
    rw [hnext] at hother
    have habsent := h.absent other hother
    have hne : other ≠ thread := by
      rintro rfl
      exact hthread habsent
    rw [(hframe other hne).control, habsent]
  main := hnext ▸ h.main
  placed entry hentry := hplaced entry hentry (h.placed entry (hhandles.subset hentry))
  nodup := h.nodup.sublist (hhandles.map Entry.hdl)

/-- A thread moves and keeps its context, and the handles stay as they are. -/
theorem Inv.kept (h : Inv w) (hthread : w.control thread ≠ .absent)
    (hframe : ∀ other, other ≠ thread → Frame w w' other) (hfine : Fine w' thread)
    (hnext : w'.next = w.next) (hhalted : w'.halted = w.halted) (hhandles : w'.handles = w.handles)
    (hnextHandle : w'.nextHandle = w.nextHandle)
    (hdone : w.context = .done thread → w'.context = .done thread)
    (hown : w.current thread = some (.ofThread thread) →
      w'.current thread = some (.ofThread thread)) : Inv w' := by
  refine h.moved hthread hframe hfine hnext hhalted ?_ fun entry _ hplaced =>
    hplaced.frame hframe (Nat.le_of_eq hnextHandle.symm) (fun _ => hdone) fun _ => hown
  rw [hhandles]

theorem frame_goTo (w : World) (control : Control) (hne : other ≠ thread) :
    Frame w (w.goTo thread control) other :=
  ⟨control_goTo_of_ne w control hne, rfl, id, id, fun _ _ => Iff.rfl⟩

/-- A thread goes on, with the context that it has. -/
theorem Inv.goTo (h : Inv w) (hthread : w.control thread ≠ .absent) (control : Control)
    (hfine : Fine (w.goTo thread control) thread) : Inv (w.goTo thread control) :=
  h.kept hthread (fun _ hne => frame_goTo w control hne) hfine rfl rfl rfl rfl id id

/-- A new thread has no context. -/
theorem Inv.adds (h : Inv w) {control : Control}
    (hcontrol : control = .idle ∨ control = .starting ∧ w.session.Constructed) :
    Inv (w.adds control) := by
  have hnew : Fine w w.next := h.fine w.next
  unfold Fine at hnew
  rw [h.absent w.next (Nat.le_refl _)] at hnew
  refine ⟨h.running, fun other => ?_, fun other hother => ?_, Nat.lt_succ_of_lt h.main, h.placed,
    h.nodup⟩
  · by_cases heq : other = w.next
    · subst heq
      unfold Fine
      rw [World.adds, control_goTo_self]
      rcases hcontrol with rfl | ⟨rfl, hconstructed⟩
      · exact Resting.unowned hnew
      · exact ⟨hconstructed, Nat.ne_of_gt h.main, hnew⟩
    · exact (h.fine other).frame
        ⟨control_goTo_of_ne w control heq, rfl, id, id, fun _ _ => Iff.rfl⟩
  · have hnext : w.next + 1 ≤ other := hother
    have hne : other ≠ w.next := Nat.ne_of_gt hnext
    rw [World.adds, control_goTo_of_ne w control hne]
    exact h.absent other (Nat.le_of_succ_le hnext)

/-! ## Steps -/

/-- The thread is between its calls of `NotesInitThread` and `NotesTermThread`. -/
def Inside (w : World) (thread : ThreadId) : Prop :=
  w.current thread = some (.ofThread thread) ∨ w.context = .done thread

/-- `NotesInit` does not fail, a context is constructed while the session is there, the thread that has
constructed the static context does not end before the program, and is the one of `main` if the program
ends, and no thread is left when the session ends. -/
def Allowed (w : World) (label : Label) : Prop :=
  match label.move with
  | .proceed ok => ((∃ purpose, w.control label.thread = .session purpose) → ok = true) ∧
      ((∃ purpose, w.control label.thread = .context purpose) → ∃ thread, w.session = .done thread)
  | .begin => w.control label.thread = .starting → ∃ thread, w.session = .done thread
  | .finish => w.control label.thread = .idle → label.thread ≠ mainThread →
      w.context ≠ .done label.thread
  | .exit => label.thread = mainThread →
      (w.control mainThread = .idle → ∀ thread, w.context = .done thread → thread = mainThread) ∧
      (w.control mainThread = .leaving → (∃ thread, w.session = .done thread) →
        ∀ thread, ¬ Inside w thread)
  | _ => True

theorem Inv.resting (h : Inv w) (hcontrol : w.control thread = .idle) : Resting w thread := by
  have hfine := h.fine thread
  unfold Fine at hfine
  rwa [hcontrol] at hfine

theorem ne_absent {control : Control} (h : w.control thread = control)
    (hne : control ≠ .absent) : w.control thread ≠ .absent := by
  rw [h]
  exact hne

theorem Resting.congr (h : Resting w thread) (hcurrent : w'.current thread = w.current thread)
    (hcontext : w'.context = w.context) : Resting w' thread := by
  cases h with
  | unowned h => exact .unowned ⟨hcurrent.trans h.1, hcontext ▸ h.2.1, hcontext ▸ h.2.2⟩
  | static h hdone => exact .static (hcurrent.trans h) (hcontext.trans hdone)
  | own h hmain hrunning hdone =>
      exact .own (hcurrent.trans h) hmain (hcontext ▸ hrunning) (hcontext ▸ hdone)

theorem fine_idle (w : World) (h : Resting w thread) : Fine (w.goTo thread .idle) thread := by
  unfold Fine
  rw [control_goTo_self]
  exact h.congr rfl rfl

theorem Inv.returns (h : Inv (w.goTo thread .idle)) (hconstructed : w.session.Constructed)
    (purpose : Purpose) : Inv (w.returns thread purpose) := by
  cases purpose with
  | call => exact h
  | spawn => exact h.adds (.inr ⟨rfl, hconstructed⟩)

/-- The session changes, and other threads do not see it. -/
theorem Inv.session (h : Inv w) {session : Guard} {control : Control}
    (hthread : w.control thread ≠ .absent)
    (hsession : w.session.Constructed → session.Constructed)
    (hrunning : ∀ other, other ≠ thread → w.session ≠ .running other)
    (hfine : Fine ({ w with session := session }.goTo thread control) thread) :
    Inv ({ w with session := session }.goTo thread control) :=
  h.kept hthread (fun other hne => ⟨control_goTo_of_ne _ control hne, rfl,
    fun heq => absurd heq (hrunning other hne), hsession, fun _ _ => Iff.rfl⟩) hfine rfl rfl rfl rfl
    id id

theorem Inv.session_fine (h : Inv w) (hcontrol : w.control thread = .session purpose) :
    w.session = .running thread ∧ Resting w thread := by
  have hfine := h.fine thread
  unfold Fine at hfine
  rwa [hcontrol] at hfine

theorem Inv.between_fine (h : Inv w) (hcontrol : w.control thread = .between purpose) :
    w.session.Constructed ∧ Resting w thread := by
  have hfine := h.fine thread
  unfold Fine at hfine
  rwa [hcontrol] at hfine

theorem Inv.context_fine (h : Inv w) (hcontrol : w.control thread = .context purpose) :
    w.session.Constructed ∧ w.current thread = some .static ∧ w.context = .running thread := by
  have hfine := h.fine thread
  unfold Fine at hfine
  rwa [hcontrol] at hfine

theorem Inv.starting_fine (h : Inv w) (hcontrol : w.control thread = .starting) :
    w.session.Constructed ∧ thread ≠ mainThread ∧ Unowned w thread := by
  have hfine := h.fine thread
  unfold Fine at hfine
  rwa [hcontrol] at hfine

theorem Inv.entered (h : Inv w) (hcontrol : w.control thread = .between purpose)
    (hfree : w.context = .free) (hnone : w.current thread = none) :
    Inv (entered thread purpose w) := by
  obtain ⟨hconstructed, -⟩ := h.between_fine hcontrol
  have hframe : ∀ other, other ≠ thread → Frame w (Threads.entered thread purpose w) other := by
    intro other hne
    refine ⟨control_goTo_of_ne _ _ hne, current_setCurrent_of_ne _ _ hne, id, id, ?_⟩
    rintro guard (rfl | rfl)
    · exact iff_of_false (fun heq => hne (Guard.running.inj heq).symm) fun heq =>
        Guard.noConfusion (hfree.symm.trans heq)
    · exact iff_of_false (fun heq => Guard.noConfusion heq) fun heq =>
        Guard.noConfusion (hfree.symm.trans heq)
  refine h.kept (ne_absent hcontrol (by simp)) hframe ?_ rfl rfl rfl rfl ?_ ?_
  · have hcontrol' : (Threads.entered thread purpose w).control thread = .context purpose :=
      Function.update_self ..
    unfold Fine
    rw [hcontrol']
    exact ⟨hconstructed, Function.update_self .., rfl⟩
  · exact fun hdone => Guard.noConfusion (hfree.symm.trans hdone)
  · intro hown
    rw [hnone] at hown
    cases hown

theorem Inv.constructs_idle (h : Inv w) (hcontrol : w.control thread = .context purpose) :
    Inv ({ w with context := .done thread }.goTo thread .idle) := by
  obtain ⟨hconstructed, hcurrent, hrunning⟩ := h.context_fine hcontrol
  refine h.kept (ne_absent hcontrol (by simp)) ?_ (fine_idle _ (.static hcurrent rfl)) rfl rfl rfl
    rfl (fun _ => rfl) id
  intro other hne
  refine ⟨control_goTo_of_ne _ _ hne, rfl, id, id, ?_⟩
  rintro guard (rfl | rfl)
  · refine iff_of_false (fun heq => Guard.noConfusion heq) fun heq => hne ?_
    exact Guard.running.inj (heq.symm.trans hrunning)
  · refine iff_of_false (fun heq => hne (Guard.done.inj heq).symm) fun heq => ?_
    exact Guard.noConfusion (hrunning.symm.trans heq)

theorem Inv.constructs (h : Inv w) (hcontrol : w.control thread = .context purpose) :
    Inv ({ w with context := .done thread }.returns thread purpose) :=
  Inv.returns (w := { w with context := .done thread }) (h.constructs_idle hcontrol)
    (h.context_fine hcontrol).1 purpose

theorem Inv.begun (h : Inv w) (hcontrol : w.control thread = .starting) : Inv (begun thread w) := by
  obtain ⟨-, hmain, hnone, hrunning, hdone⟩ := h.starting_fine hcontrol
  have hcurrent : (Threads.begun thread w).current thread = some (.ofThread thread) :=
    Function.update_self ..
  refine h.kept (ne_absent hcontrol (by simp)) ?_ ?_ rfl rfl rfl rfl id fun _ => hcurrent
  · exact fun other hne => ⟨control_goTo_of_ne _ _ hne, current_setCurrent_of_ne w _ hne, id, id,
      fun _ _ => Iff.rfl⟩
  · unfold Fine
    rw [Threads.begun, control_goTo_self]
    exact Resting.own hcurrent hmain hrunning hdone

theorem Inv.opened (h : Inv w) (hcontrol : w.control thread = .idle) {context : Context}
    (hcurrent : w.current thread = some context) : Inv (opened context thread w) := by
  refine ⟨h.running, fun other => (h.fine other).frame ⟨rfl, rfl, id, id, fun _ _ => Iff.rfl⟩,
    h.absent, h.main, fun entry hentry => ?_, ?_⟩
  · rcases List.mem_cons.mp hentry with rfl | hold
    · refine ⟨Nat.lt_succ_self _, ?_⟩
      cases h.resting hcontrol with
      | unowned hnone =>
          rw [hnone.1] at hcurrent
          cases hcurrent
      | static hstatic hdone =>
          obtain rfl : context = .static := Option.some.inj (hcurrent.symm.trans hstatic)
          exact hdone
      | own hown =>
          obtain rfl : context = .ofThread thread := Option.some.inj (hcurrent.symm.trans hown)
          exact ⟨rfl, hown⟩
    · obtain ⟨hsmall, hplaced⟩ := h.placed entry hold
      exact ⟨Nat.lt_succ_of_lt hsmall, hplaced⟩
  · refine List.nodup_cons.mpr ⟨fun hmem => ?_, h.nodup⟩
    obtain ⟨entry, hentry, hhdl⟩ := List.mem_map.mp hmem
    exact Nat.ne_of_lt (h.placed entry hentry).1 hhdl

theorem Inv.closed (h : Inv w) (entry : Entry) :
    Inv { w with handles := w.handles.erase entry } := by
  refine ⟨h.running, fun other => (h.fine other).frame ⟨rfl, rfl, id, id, fun _ _ => Iff.rfl⟩,
    h.absent, h.main, fun other hother => h.placed other (List.mem_of_mem_erase hother), ?_⟩
  exact h.nodup.sublist (List.erase_sublist.map Entry.hdl)

theorem Inv.finished (h : Inv w) (hcontrol : w.control thread = .idle)
    (hown : w.current thread = some (.ofThread thread)) :
    Inv ((w.destroyContext thread (.ofThread thread)).goTo thread .ended) := by
  have hframe : ∀ other, other ≠ thread →
      Frame w ((w.destroyContext thread (.ofThread thread)).goTo thread .ended) other :=
    fun other hne => ⟨control_goTo_of_ne _ _ hne, current_setCurrent_of_ne _ _ hne, id, id,
      fun _ _ => Iff.rfl⟩
  have hnone : ((w.destroyContext thread (.ofThread thread)).goTo thread .ended).current thread =
      none := Function.update_self ..
  refine h.moved (ne_absent hcontrol (by simp)) hframe ?_ rfl rfl List.filter_sublist ?_
  · unfold Fine
    rw [control_goTo_self]
    cases h.resting hcontrol with
    | unowned hidle => exact ⟨hnone, hidle.2⟩
    | static hstatic =>
        rw [hown] at hstatic
        cases hstatic
    | own _ _ hrunning hdone => exact ⟨hnone, hrunning, hdone⟩
  · intro entry hentry hplaced
    have hne : entry.context ≠ .ofThread thread :=
      of_decide_eq_true (List.mem_filter.mp hentry).2
    exact hplaced.frame hframe (Nat.le_refl _) (fun _ => id) fun heq => absurd heq hne

theorem Inv.ended (h : Inv w) (hcontrol : w.control thread = .idle)
    (hown : w.current thread ≠ some (.ofThread thread)) (hdone : w.context ≠ .done thread) :
    Inv (w.goTo thread .ended) := by
  refine h.goTo (ne_absent hcontrol (by simp)) .ended ?_
  unfold Fine
  rw [control_goTo_self]
  cases h.resting hcontrol with
  | unowned hidle => exact hidle
  | static _ hstatic => exact absurd hstatic hdone
  | own hsome => exact absurd hsome hown

theorem current_withoutStatic (w : World) : (withoutStatic w).current mainThread = none := by
  show Function.update w.current mainThread none mainThread = none
  exact Function.update_self ..

theorem Inv.exitsStatic (h : Inv w) (hcontrol : w.control mainThread = .idle)
    (hdone : w.context = .done mainThread) : Inv (withoutStatic w) := by
  have hframe : ∀ other, other ≠ mainThread → Frame w (withoutStatic w) other := by
    intro other hne
    refine ⟨control_goTo_of_ne _ _ hne, current_setCurrent_of_ne _ _ hne, id, id, ?_⟩
    rintro guard (rfl | rfl)
    · exact iff_of_false (fun heq => Guard.noConfusion heq) fun heq =>
        Guard.noConfusion (hdone.symm.trans heq)
    · exact iff_of_false (fun heq => Guard.noConfusion heq) fun heq =>
        hne (Guard.done.inj (hdone.symm.trans heq)).symm
  have hnone := current_withoutStatic w
  refine h.moved (ne_absent hcontrol (by simp)) hframe ?_ rfl rfl List.filter_sublist ?_
  · unfold Fine
    rw [withoutStatic, control_goTo_self]
    exact ⟨hnone, fun heq => Guard.noConfusion heq, fun heq => Guard.noConfusion heq⟩
  · intro entry hentry hplaced
    have hne : entry.context ≠ .static := of_decide_eq_true (List.mem_filter.mp hentry).2
    refine hplaced.frame hframe (Nat.le_refl _) (fun heq => absurd heq hne) fun _ hown => ?_
    cases h.resting hcontrol with
    | unowned hidle =>
        rw [hidle.1] at hown
        cases hown
    | static hstatic =>
        rw [hstatic] at hown
        cases hown
    | own _ hmain => exact absurd rfl hmain

/-- `NotesInit` is called while no other thread calls it. -/
theorem Inv.entersSession (h : Inv w) (hcontrol : w.control thread = .idle)
    (hfree : w.session = .free) (purpose : Purpose) :
    Inv ({ w with session := .running thread }.goTo thread (.session purpose)) := by
  refine h.session (ne_absent hcontrol (by simp)) ?_ (fun _ _ heq => ?_) ?_
  · rintro (⟨_, heq⟩ | heq) <;> exact Guard.noConfusion (hfree.symm.trans heq)
  · exact Guard.noConfusion (hfree.symm.trans heq)
  · unfold Fine
    rw [control_goTo_self]
    exact ⟨rfl, (h.resting hcontrol).congr rfl rfl⟩

theorem Inv.initialised (h : Inv w) (hcontrol : w.control thread = .session purpose) :
    Inv ({ w with session := .done thread }.goTo thread (.between purpose)) := by
  obtain ⟨hrunning, hresting⟩ := h.session_fine hcontrol
  refine h.session (ne_absent hcontrol (by simp)) (fun _ => .inl ⟨thread, rfl⟩)
    (fun other hne heq => ?_) ?_
  · exact hne (Guard.running.inj (hrunning.symm.trans heq)).symm
  · unfold Fine
    rw [control_goTo_self]
    exact ⟨.inl ⟨thread, rfl⟩, hresting.congr rfl rfl⟩

theorem Inv.leaving (h : Inv w) (hcontrol : w.control mainThread = .leaving) :
    Unowned w mainThread := by
  have hfine := h.fine mainThread
  unfold Fine at hfine
  rwa [hcontrol] at hfine

/-- A thread without a context leaves, or ends. -/
theorem Inv.quits (h : Inv w) (hthread : w.control thread ≠ .absent) (hunowned : Unowned w thread)
    {control : Control} (hcontrol : control = .leaving ∨ control = .ended) :
    Inv (w.goTo thread control) := by
  refine h.goTo hthread control ?_
  unfold Fine
  rw [control_goTo_self]
  rcases hcontrol with rfl | rfl <;> exact hunowned

theorem Inv.terminates (h : Inv w) (hcontrol : w.control mainThread = .leaving)
    (hdone : w.session = .done other) :
    Inv ({ w with session := .destroyed }.goTo mainThread .ended) := by
  refine h.session (ne_absent hcontrol (by simp)) (fun _ => .inr rfl) (fun _ _ heq => ?_) ?_
  · exact Guard.noConfusion (hdone.symm.trans heq)
  · unfold Fine
    rw [control_goTo_self]
    exact h.leaving hcontrol

theorem Inv.unowned_main (h : Inv w) (hcontrol : w.control mainThread = .idle)
    (hdone : ∀ thread, w.context ≠ .done thread) : Unowned w mainThread := by
  cases h.resting hcontrol with
  | unowned hidle => exact hidle
  | static _ hstatic => exact absurd hstatic (hdone mainThread)
  | own _ hmain => exact absurd rfl hmain

theorem Inv.static_of_done (h : Inv w) (hdone : w.context = .done thread) :
    w.current thread = some .static := by
  have hresting : Resting w thread → w.current thread = some .static := by
    intro hresting
    cases hresting with
    | unowned hunowned => exact absurd hdone hunowned.2.2
    | static hstatic => exact hstatic
    | own _ _ _ hnot => exact absurd hdone hnot
  have hfine := h.fine thread
  unfold Fine at hfine
  cases hcontrol : w.control thread <;> rw [hcontrol] at hfine
  case idle => exact hresting hfine
  case session => exact hresting hfine.2
  case between => exact hresting hfine.2
  case context => exact hfine.2.1
  case starting => exact absurd hdone hfine.2.2.2.2
  all_goals exact absurd hdone hfine.2.2

/-- The handles of a thread are those in its context. -/
theorem Inv.context_iff (h : Inv w) {context : Context} (hcurrent : w.current thread = some context)
    (hinside : Inside w thread) {entry : Entry} (hentry : entry ∈ w.handles) :
    entry.context = context ↔ entry.thread = thread := by
  obtain ⟨-, hplaced⟩ := h.placed entry hentry
  cases hcontext : entry.context with
  | static =>
      simp only [hcontext] at hplaced
      constructor
      · rintro rfl
        rcases hinside with hown | hdone
        · rw [hcurrent] at hown
          cases hown
        · exact Guard.done.inj (hplaced.symm.trans hdone)
      · intro heq
        rw [heq] at hplaced
        exact Option.some.inj ((h.static_of_done hplaced).symm.trans hcurrent)
  | ofThread owner =>
      simp only [hcontext] at hplaced
      obtain ⟨rfl, hown⟩ := hplaced
      constructor
      · rintro rfl
        rcases hinside with hsame | hdone
        · rw [hcurrent] at hsame
          exact Context.ofThread.inj (Option.some.inj hsame)
        · rw [h.static_of_done hdone] at hcurrent
          cases hcurrent
      · rintro rfl
        exact Option.some.inj (hown.symm.trans hcurrent)

/-- A thread has no handles of other threads in its context. -/
theorem Inv.not_foreign (h : Inv w) {context : Context} (hcurrent : w.current thread = some context)
    (hinside : Inside w thread) : ¬ w.foreign thread context = true := by
  intro hforeign
  obtain ⟨entry, hentry, hne⟩ := List.any_eq_true.mp hforeign
  obtain ⟨hold, hcontext⟩ := List.mem_filter.mp hentry
  exact of_decide_eq_true hne
    ((h.context_iff hcurrent hinside hold).mp (of_decide_eq_true hcontext))

/-- An allowed step keeps the invariant. -/
theorem inv_step (h : Inv w) (hallowed : Allowed w label) : Inv (step w label) := by
  have hacts := acts label w
  generalize step w label = w', emit w label = events at hacts
  cases hacts with
  | nothing => exact h
  | started hcontrol => exact h.adds (.inl rfl)
  | entersSession hcontrol hfree => exact h.entersSession hcontrol hfree _
  | entersBetween hcontrol hdone =>
      refine h.goTo (ne_absent hcontrol (by simp)) _ ?_
      unfold Fine
      rw [control_goTo_self]
      exact ⟨hdone, (h.resting hcontrol).congr rfl rfl⟩
  | initialised hcontrol => exact h.initialised hcontrol
  | refused hcontrol => exact absurd (hallowed.1 ⟨_, hcontrol⟩) Bool.false_ne_true
  | passes ok hcontrol hdone =>
      obtain ⟨hconstructed, hresting⟩ := h.between_fine hcontrol
      have hidle := h.goTo (ne_absent hcontrol (by simp)) .idle (fine_idle _ hresting)
      exact hidle.returns hconstructed _
  | entersContext ok hcontrol hfree hnone => exact h.entered hcontrol hfree hnone
  | throws ok hcontrol hfree hsome =>
      exact h.goTo (ne_absent hcontrol (by simp)) .idle (fine_idle _ (h.between_fine hcontrol).2)
  | constructs ok hcontrol => exact h.constructs hcontrol
  | begins hcontrol => exact h.begun hcontrol
  | opens hcontrol hcurrent => exact h.opened hcontrol hcurrent
  | closes => exact h.closed _
  | finishes hcontrol hmain hown => exact h.finished hcontrol hown
  | finishHalts hcontrol hmain hown hforeign =>
      exact absurd hforeign (h.not_foreign hown (.inl hown))
  | ends hcontrol hmain hown => exact h.ended hcontrol hown (hallowed hcontrol hmain)
  | exitsStatic hcontrol hdone =>
      obtain rfl := (hallowed rfl).1 hcontrol _ hdone
      exact h.exitsStatic hcontrol hdone
  | exitHalts hcontrol hdone hforeign =>
      obtain rfl := (hallowed rfl).1 hcontrol _ hdone
      exact absurd hforeign (h.not_foreign (h.static_of_done hdone) (.inr hdone))
  | exitsPlain hcontrol hdone =>
      exact h.quits (ne_absent hcontrol (by simp)) (h.unowned_main hcontrol hdone) (.inl rfl)
  | terminates hcontrol hdone => exact h.terminates hcontrol hdone
  | leaves hcontrol hdone =>
      exact h.quits (ne_absent hcontrol (by simp)) (h.leaving hcontrol) (.inr rfl)

theorem control_start_of_ne (hne : thread ≠ mainThread) : start.control thread = .absent := by
  show Function.update (fun _ => Control.absent) mainThread .idle thread = .absent
  exact Function.update_of_ne hne ..

theorem inv_start : Inv start := by
  refine ⟨rfl, fun thread => ?_, fun thread hthread => control_start_of_ne (Nat.ne_of_gt hthread),
    Nat.one_pos, List.forall_mem_nil _, List.nodup_nil⟩
  have hunowned : Unowned start thread :=
    ⟨rfl, fun heq => Guard.noConfusion heq, fun heq => Guard.noConfusion heq⟩
  unfold Fine
  by_cases hmain : thread = mainThread
  · have hcontrol : start.control thread = .idle := by
      rw [hmain]
      show Function.update (fun _ => Control.absent) mainThread .idle mainThread = .idle
      exact Function.update_self ..
    rw [hcontrol]
    exact Resting.unowned hunowned
  · rw [control_start_of_ne hmain]
    exact hunowned

end Dmn.Threads
