import Dmn.Verification.Threads.Rules

/-! # Programs with threads

What programs may do, so that their native calls are in order in every interleaving of their
threads. -/

namespace Dmn.Threads

open World Monitor

variable {w : World} {thread : ThreadId} {label : Label} {m : Rules}

/-! ## What the rules refuse -/

/-- A thread that is not inside cannot end a context, whatever handles it closes. -/
theorem checks_clears_of_notMem (hthread : thread ∉ m.inside) (entries : List Entry) :
    checks Rules.check m (clears thread entries) = none := by
  induction entries generalizing m with
  | nil => rw [clears, checks_singleton, Rules.check, if_neg fun h => hthread h.1]
  | cons entry entries ih =>
      rw [clears]
      split
      · rw [checks, Rules.check]
        split
        · exact ih hthread
        · rfl
      · rfl

theorem refuse_notesInitThread (hsession : ¬ ∃ owner, w.session = .done owner) :
    checks Rules.check (view w) [.notesInitThread thread] = none := by
  rw [checks_singleton, Rules.check, if_neg fun h => hsession ((isDone_iff _).mp h.1)]

theorem refuse_exit (h : Inv w) (hnot : ¬ Allowed w ⟨mainThread, .exit⟩) :
    checks Rules.check (view w) (exit w).2 = none := by
  unfold exit
  cases hcontrol : w.control mainThread with
  | idle =>
      cases hcontext : w.context with
      | done owner =>
          have hne : owner ≠ mainThread := by
            rintro rfl
            refine hnot fun _ => ⟨fun _ _ heq => ?_, fun heq => ?_⟩
            · exact (Guard.done.inj (heq.symm.trans hcontext))
            · exact Control.noConfusion (hcontrol.symm.trans heq)
          have houtside : mainThread ∉ (view w).inside := by
            rw [h.mem_inside]
            rintro (hown | hdone)
            · cases h.resting hcontrol with
              | unowned hidle =>
                  rw [hidle.1] at hown
                  cases hown
              | static hstatic =>
                  rw [hstatic] at hown
                  cases hown
              | own _ hmain => exact hmain rfl
            · exact hne (Guard.done.inj (hcontext.symm.trans hdone))
          rw [apply_ite Prod.snd, ite_self]
          exact checks_clears_of_notMem houtside _
      | _ =>
          refine absurd (fun _ => ⟨fun _ _ heq => ?_, fun heq => ?_⟩) hnot
          · exact Guard.noConfusion (hcontext.symm.trans heq)
          · exact Control.noConfusion (hcontrol.symm.trans heq)
  | leaving =>
      cases hsession : w.session with
      | done owner =>
          have hinside : (view w).inside ≠ ∅ := by
            intro hempty
            refine hnot fun _ => ⟨fun heq => ?_, fun _ _ thread hthread => ?_⟩
            · exact Control.noConfusion (hcontrol.symm.trans heq)
            · have hmem := (h.mem_inside thread).mpr hthread
              rw [hempty] at hmem
              exact Finset.notMem_empty thread hmem
          show checks Rules.check (view w) [.notesTerm] = none
          rw [checks_singleton, Rules.check, if_neg fun hrules => hinside hrules.2]
      | _ =>
          refine absurd (fun _ => ⟨fun heq => ?_, fun _ hdone => ?_⟩) hnot
          · exact Control.noConfusion (hcontrol.symm.trans heq)
          · obtain ⟨_, heq⟩ := hdone
            exact Guard.noConfusion (hsession.symm.trans heq)
  | _ =>
      refine absurd (fun _ => ⟨fun heq => ?_, fun heq => ?_⟩) hnot
      · exact Control.noConfusion (hcontrol.symm.trans heq)
      · exact Control.noConfusion (hcontrol.symm.trans heq)

theorem refuse_step (h : Inv w) (hnot : ¬ Allowed w label) :
    checks Rules.check (view w) (emit w label) = none := by
  obtain ⟨thread, move⟩ := label
  cases move with
  | proceed ok =>
      have hact : emit w ⟨thread, .proceed ok⟩ = (proceed thread ok w).2 :=
        congrArg Prod.snd (if_neg (Bool.eq_false_iff.mp h.running))
      rcases not_and_or.mp hnot with hinit | hcontext
      · obtain ⟨⟨purpose, hcontrol⟩, hfails⟩ := Classical.not_imp.mp hinit
        rw [hact, proceed, hcontrol, Bool.eq_false_iff.mpr hfails]
        show checks Rules.check (view w) [.notesInit false, .undefined] = none
        rw [checks, Rules.check]
        split <;> rfl
      · obtain ⟨⟨purpose, hcontrol⟩, hsession⟩ := Classical.not_imp.mp hcontext
        rw [hact, proceed, hcontrol]
        exact refuse_notesInitThread hsession
  | begin =>
      obtain ⟨hcontrol, hsession⟩ := Classical.not_imp.mp hnot
      have hemit : emit w ⟨thread, .begin⟩ = [.notesInitThread thread] := by
        rw [emit, act, if_neg (Bool.eq_false_iff.mp h.running)]
        exact congrArg Prod.snd (if_pos hcontrol)
      rw [hemit]
      exact refuse_notesInitThread hsession
  | finish =>
      obtain ⟨hcontrol, hnot⟩ := Classical.not_imp.mp hnot
      obtain ⟨hmain, hdone⟩ := Classical.not_imp.mp hnot
      have hdone := not_not.mp hdone
      have hown : w.current thread ≠ some (.ofThread thread) := by
        rw [h.static_of_done hdone]
        exact fun heq => Context.noConfusion (Option.some.inj heq)
      have hemit : emit w ⟨thread, .finish⟩ = [.ended thread] := by
        rw [emit, act, if_neg (Bool.eq_false_iff.mp h.running)]
        simp only [if_pos hcontrol, if_neg hmain, finish, if_neg hown]
      rw [hemit, checks_singleton, Rules.check,
        if_pos ((h.mem_inside thread).mpr (.inr hdone))]
  | exit =>
      by_cases hmain : thread = mainThread
      · subst hmain
        have hact : emit w ⟨mainThread, .exit⟩ = (exit w).2 :=
          congrArg Prod.snd (if_neg (Bool.eq_false_iff.mp h.running))
        rw [hact]
        exact refuse_exit h hnot
      · exact absurd (fun heq => absurd heq hmain) hnot
  | _ => exact absurd trivial hnot

theorem view_start : view World.start = Rules.start := by
  ext1
  · rfl
  · ext thread
    rw [inv_start.mem_inside]
    refine iff_of_false ?_ (Finset.notMem_empty thread)
    rintro (hown | hdone)
    · cases hown
    · cases hdone
  · rfl

/-- Another thread calls `session::instance` first, and `main` then destroys its context. -/
example : checks Rules.check Rules.start (trace [⟨0, .start⟩, ⟨1, .instance .call⟩,
    ⟨1, .proceed true⟩, ⟨1, .proceed true⟩, ⟨1, .proceed true⟩, ⟨0, .exit⟩]) = none := by decide

/-! ## Programs that join their threads -/

/-- `NotesInit` does not fail. All threads but that of `main` are `thread`s, `main` opens nothing
before it has called `session::instance`, and ends behind the other threads. -/
def Joined (w : World) (label : Label) : Prop :=
  match label.move with
  | .start => False
  | .proceed ok => (∃ purpose, w.control label.thread = .session purpose) → ok = true
  | .open => label.thread = mainThread → ∃ thread, w.context = .done thread
  | .close _ => label.thread = mainThread → ∃ thread, w.context = .done thread
  | .exit => ∀ thread < w.next, thread ≠ mainThread → w.control thread = .ended
  | _ => True

/-- The constructor of `thread_context` or `thread_context::current` throws. -/
def Throws (w : World) (label : Label) : Prop :=
  match label.move with
  | .proceed _ => (∃ purpose, w.control label.thread = .between purpose) ∧ w.context = .free ∧
      w.current label.thread ≠ none
  | .open => w.control label.thread = .idle ∧ w.current label.thread = none
  | .close _ => w.control label.thread = .idle ∧ w.current label.thread = none
  | _ => False

/-- The thread can go on by itself. -/
def Busy (control : Control) : Prop :=
  control ≠ .absent ∧ control ≠ .leaving ∧ control ≠ .ended

instance (control : Control) : Decidable (Busy control) := inferInstanceAs (Decidable (_ ∧ _))

/-- `main` has the static context, and other threads have their own. -/
structure Orderly (w : World) : Prop where
  inv : Inv w
  alone : ¬ w.context.Constructed → ∀ thread, thread ≠ mainThread → w.control thread = .absent
  owner : ∀ thread, w.context = .running thread ∨ w.context = .done thread → thread = mainThread
  own : ∀ thread, thread ≠ mainThread → Busy (w.control thread) → w.control thread ≠ .starting →
    w.current thread = some (.ofThread thread)
  behind : ¬ Busy (w.control mainThread) → ∀ thread, thread ≠ mainThread →
    ¬ Busy (w.control thread)
  destroyed : w.session = .destroyed → w.control mainThread = .ended
  closed : w.control mainThread = .ended → ∀ thread, w.session ≠ .done thread

theorem Orderly.busy_main (h : Orderly w) (hbusy : Busy (w.control thread)) :
    Busy (w.control mainThread) := by
  by_contra hmain
  by_cases heq : thread = mainThread
  · rw [heq] at hbusy
    exact hmain hbusy
  · exact h.behind hmain thread heq hbusy

theorem Orderly.session_ne (h : Orderly w) (hbusy : Busy (w.control thread)) :
    w.session ≠ .destroyed := fun hdestroyed =>
  (h.busy_main hbusy).2.2 (h.destroyed hdestroyed)

/-- A thread goes on, and stays where it can go on. -/
theorem Orderly.goes {w' : World} (h : Orderly w) (h' : Inv w')
    (hbusy : Busy (w.control thread)) (hbusy' : Busy (w'.control thread))
    (hothers : ∀ other, other ≠ thread →
      w'.control other = w.control other ∧ w'.current other = w.current other)
    (hown : thread ≠ mainThread → w'.control thread ≠ .starting →
      w'.current thread = some (.ofThread thread))
    (howner : ∀ owner, w'.context = .running owner ∨ w'.context = .done owner →
      owner = mainThread)
    (halone : w.context.Constructed → w'.context.Constructed)
    (hsession : w'.session = .destroyed → w.session = .destroyed) : Orderly w' where
  inv := h'
  alone hnot other hother := by
    have habsent := h.alone (mt halone hnot)
    have hthread : thread = mainThread := by
      by_contra hne
      exact hbusy.1 (habsent thread hne)
    rw [(hothers other (hthread ▸ hother)).1]
    exact habsent other hother
  owner := howner
  own other hother hbusyOther hstarting := by
    by_cases heq : other = thread
    · subst heq
      exact hown hother hstarting
    · obtain ⟨hcontrol, hcurrent⟩ := hothers other heq
      rw [hcontrol] at hbusyOther hstarting
      rw [hcurrent]
      exact h.own other hother hbusyOther hstarting
  behind hnot := by
    by_cases heq : mainThread = thread
    · rw [heq] at hnot
      exact absurd hbusy' hnot
    · rw [(hothers mainThread heq).1] at hnot
      exact absurd (h.busy_main hbusy) hnot
  destroyed hdestroyed := absurd (hsession hdestroyed) (h.session_ne hbusy)
  closed hended := by
    by_cases heq : mainThread = thread
    · rw [heq] at hended
      exact absurd hended hbusy'.2.2
    · rw [(hothers mainThread heq).1] at hended
      exact absurd hended (h.busy_main hbusy).2.2

theorem Orderly.adds (h : Orderly w) (hconstructed : w.context.Constructed)
    (hsession : w.session.Constructed) (hmain : Busy (w.control mainThread)) :
    Orderly (w.adds .starting) where
  inv := h.inv.adds (.inr ⟨rfl, hsession⟩)
  alone hnot := absurd hconstructed hnot
  owner := h.owner
  own other hother hbusy hstarting := by
    by_cases heq : other = w.next
    · subst heq
      exact absurd (control_goTo_self ..) hstarting
    · have hsame : (w.adds .starting).control other = w.control other :=
        control_goTo_of_ne w _ heq
      rw [hsame] at hbusy hstarting
      exact h.own other hother hbusy hstarting
  behind hnot := by
    have hsame : (w.adds .starting).control mainThread = w.control mainThread :=
      control_goTo_of_ne w _ (Nat.ne_of_lt h.inv.main)
    rw [hsame] at hnot
    exact absurd hmain hnot
  destroyed hdestroyed := by
    have hended : w.control mainThread = .ended := h.destroyed hdestroyed
    exact absurd hended hmain.2.2
  closed hended := by
    rw [World.adds, control_goTo_of_ne w _ (Nat.ne_of_lt h.inv.main)] at hended
    exact absurd hended hmain.2.2

theorem Orderly.session_done (h : Orderly w) (hbusy : Busy (w.control thread))
    (hconstructed : w.session.Constructed) : ∃ owner, w.session = .done owner := by
  rcases hconstructed with hdone | hdestroyed
  · exact hdone
  · exact absurd hdestroyed (h.session_ne hbusy)

theorem busy_of_eq {control control' : Control} (h : control = control') (hbusy : Busy control') :
    Busy control := by
  rw [h]
  exact hbusy

theorem busy_idle : Busy .idle := by decide

theorem busy_session (purpose : Purpose) : Busy (.session purpose) := by
  cases purpose <;> decide

theorem busy_between (purpose : Purpose) : Busy (.between purpose) := by
  cases purpose <;> decide

theorem busy_context (purpose : Purpose) : Busy (.context purpose) := by
  cases purpose <;> decide

theorem busy_starting : Busy .starting := by decide

theorem Inv.not_inside (h : Inv w) (hbusy : ¬ Busy (w.control thread)) : ¬ Inside w thread := by
  have hfine := h.fine thread
  unfold Fine at hfine
  cases hcontrol : w.control thread <;> rw [hcontrol] at hfine hbusy
  case absent => exact Unowned.not_inside hfine
  case leaving => exact Unowned.not_inside hfine
  case ended => exact Unowned.not_inside hfine
  case idle => exact absurd busy_idle hbusy
  case session purpose => exact absurd (busy_session purpose) hbusy
  case between purpose => exact absurd (busy_between purpose) hbusy
  case context purpose => exact absurd (busy_context purpose) hbusy
  case starting => exact absurd busy_starting hbusy

theorem Orderly.not_busy (h : Orderly w) (hjoined : Joined w ⟨thread, .exit⟩) (other : ThreadId)
    (hother : other ≠ mainThread) : ¬ Busy (w.control other) := by
  intro hbusy
  rcases Nat.lt_or_ge other w.next with hlt | hge
  · exact hbusy.2.2 (hjoined other hlt hother)
  · exact hbusy.1 (h.inv.absent other hge)

/-- What programs that join their threads do is allowed. -/
theorem Orderly.allowed (h : Orderly w) (hjoined : Joined w label) : Allowed w label := by
  obtain ⟨thread, move⟩ := label
  cases move with
  | proceed ok =>
      refine ⟨hjoined, ?_⟩
      rintro ⟨purpose, hcontrol⟩
      exact h.session_done (busy_of_eq hcontrol (busy_context purpose))
        (h.inv.context_fine hcontrol).1
  | begin =>
      intro hcontrol
      exact h.session_done (busy_of_eq hcontrol busy_starting) (h.inv.starting_fine hcontrol).1
  | finish => exact fun _ hmain hdone => hmain (h.owner _ (.inr hdone))
  | exit =>
      refine fun _ => ⟨fun _ owner hdone => h.owner owner (.inr hdone),
        fun hcontrol _ other => h.inv.not_inside fun hbusy => ?_⟩
      by_cases hmain : other = mainThread
      · rw [hmain, hcontrol] at hbusy
        exact hbusy.2.1 rfl
      · exact h.not_busy hjoined other hmain hbusy
  | _ => trivial

/-- A thread goes on with its context, while the guards stay. -/
theorem Orderly.goTo (h : Orderly w) {control : Control} (hbusy : Busy (w.control thread))
    (hstarting : w.control thread ≠ .starting) (hbusy' : Busy control)
    (h' : Inv (w.goTo thread control)) : Orderly (w.goTo thread control) := by
  refine h.goes h' hbusy ?_ (fun other hne => ⟨control_goTo_of_ne w control hne, rfl⟩)
    (fun hmain _ => h.own thread hmain hbusy hstarting) h.owner id id
  rw [control_goTo_self]
  exact hbusy'

theorem Orderly.returns (h : Orderly (w.goTo thread .idle)) (hconstructed : w.context.Constructed)
    (hsession : w.session.Constructed) (purpose : Purpose) :
    Orderly (w.returns thread purpose) := by
  cases purpose with
  | call => exact h
  | spawn =>
      have hbusy : Busy ((w.goTo thread .idle).control thread) :=
        busy_of_eq (control_goTo_self ..) busy_idle
      exact h.adds hconstructed hsession (h.busy_main hbusy)

/-- A thread that ends has no context, and `main` goes on. -/
theorem Orderly.finished (h : Orderly w) (hcontrol : w.control thread = .idle)
    (hmain : thread ≠ mainThread) (hown : w.current thread = some (.ofThread thread)) :
    Orderly ((w.destroyContext thread (.ofThread thread)).goTo thread .ended) where
  inv := h.inv.finished hcontrol hown
  alone hnot := by
    have habsent := h.alone hnot thread hmain
    rw [hcontrol] at habsent
    cases habsent
  owner := h.owner
  own other hother hbusy hstarting := by
    by_cases heq : other = thread
    · subst heq
      rw [control_goTo_self] at hbusy
      exact absurd rfl hbusy.2.2
    · rw [control_goTo_of_ne _ _ heq] at hbusy hstarting
      exact (current_setCurrent_of_ne _ _ heq).trans (h.own other hother hbusy hstarting)
  behind hnot := by
    rw [control_goTo_of_ne _ _ hmain.symm] at hnot
    exact absurd (h.busy_main (busy_of_eq hcontrol busy_idle)) hnot
  destroyed hdestroyed := by
    exact absurd hdestroyed (h.session_ne (busy_of_eq hcontrol busy_idle))
  closed hended := by
    rw [control_goTo_of_ne _ _ hmain.symm] at hended
    exact absurd hended (h.busy_main (busy_of_eq hcontrol busy_idle)).2.2

/-- `main` ends behind the other threads. -/
theorem Orderly.exits {w' : World} (h : Orderly w) (h' : Inv w')
    (hjoined : ∀ other, other ≠ mainThread → ¬ Busy (w.control other))
    (hothers : ∀ other, other ≠ mainThread → w'.control other = w.control other)
    (halone : ¬ w'.context.Constructed → ¬ w.context.Constructed)
    (howner : ∀ owner, w'.context = .running owner ∨ w'.context = .done owner →
      owner = mainThread)
    (hdestroyed : w'.session = .destroyed → w'.control mainThread = .ended)
    (hclosed : w'.control mainThread = .ended → ∀ owner, w'.session ≠ .done owner) :
    Orderly w' where
  inv := h'
  alone hnot other hother := (hothers other hother).trans (h.alone (halone hnot) other hother)
  owner := howner
  own other hother hbusy := by
    rw [hothers other hother] at hbusy
    exact absurd hbusy (hjoined other hother)
  behind _ other hother := by
    rw [hothers other hother]
    exact hjoined other hother
  destroyed := hdestroyed
  closed := hclosed

theorem Orderly.begins (h : Orderly w) (hcontrol : w.control thread = .starting) :
    Orderly (begun thread w) := by
  refine h.goes (h.inv.begun hcontrol) (busy_of_eq hcontrol busy_starting) ?_
    (fun other hne => ⟨control_goTo_of_ne _ _ hne, current_setCurrent_of_ne w _ hne⟩)
    (fun _ _ => current_setCurrent_self w thread _) h.owner id id
  rw [begun, control_goTo_self]
  exact busy_idle

theorem Orderly.enters (h : Orderly w) {purpose : Purpose}
    (hcontrol : w.control thread = .between purpose) (hfree : w.context = .free)
    (hnone : w.current thread = none) : Orderly (entered thread purpose w) := by
  have hnot : ¬ w.context.Constructed := by
    rintro (⟨_, heq⟩ | heq) <;> exact Guard.noConfusion (hfree.symm.trans heq)
  have hmain : thread = mainThread := by
    by_contra hne
    have habsent := h.alone hnot thread hne
    rw [hcontrol] at habsent
    cases habsent
  refine h.goes (h.inv.entered hcontrol hfree hnone)
    (busy_of_eq hcontrol (busy_between purpose)) ?_
    (fun other hne => ⟨control_goTo_of_ne _ _ hne, current_setCurrent_of_ne _ _ hne⟩)
    (fun hne => absurd hmain hne) ?_ (fun hconstructed => absurd hconstructed hnot) id
  · exact busy_of_eq (control_goTo_self ..) (busy_context purpose)
  · rintro owner (heq | heq)
    · exact (Guard.running.inj heq).symm.trans hmain
    · cases heq

theorem Orderly.constructs (h : Orderly w) {purpose : Purpose}
    (hcontrol : w.control thread = .context purpose) :
    Orderly ({ w with context := .done thread }.returns thread purpose) := by
  obtain ⟨hsession, hcurrent, hrunning⟩ := h.inv.context_fine hcontrol
  have hmain : thread = mainThread := h.owner thread (.inl hrunning)
  refine Orderly.returns (w := { w with context := .done thread }) ?_ (.inl ⟨thread, rfl⟩)
    hsession purpose
  refine h.goes (h.inv.constructs_idle hcontrol) (busy_of_eq hcontrol (busy_context purpose)) ?_
    (fun other hne => ⟨control_goTo_of_ne _ _ hne, rfl⟩) (fun hne => absurd hmain hne) ?_
    (fun _ => .inl ⟨thread, rfl⟩) id
  · exact busy_of_eq (control_goTo_self ..) busy_idle
  · rintro owner (heq | heq)
    · cases heq
    · exact (Guard.done.inj heq).symm.trans hmain

theorem orderly_step (h : Orderly w) (hjoined : Joined w label) : Orderly (step w label) := by
  have hacts := acts label w
  have h' := inv_step h.inv (h.allowed hjoined)
  generalize step w label = w', emit w label = events at hacts h' ⊢
  cases hacts with
  | nothing => exact h
  | started => exact hjoined.elim
  | entersSession hcontrol hfree =>
      refine h.goes h' (busy_of_eq hcontrol busy_idle)
        (busy_of_eq (control_goTo_self ..) (busy_session _))
        (fun other hne => ⟨control_goTo_of_ne _ _ hne, rfl⟩) (fun hmain _ => ?_) h.owner id
        fun heq => Guard.noConfusion heq
      exact h.own _ hmain (busy_of_eq hcontrol busy_idle) (by simp [hcontrol])
  | entersBetween hcontrol hdone =>
      exact h.goTo (busy_of_eq hcontrol busy_idle) (by simp [hcontrol]) (busy_between _) h'
  | @initialised thread purpose hcontrol =>
      refine h.goes h' (busy_of_eq hcontrol (busy_session _))
        (busy_of_eq (control_goTo_self ..) (busy_between _))
        (fun other hne => ⟨control_goTo_of_ne _ _ hne, rfl⟩) (fun hmain _ => ?_) h.owner id
        fun heq => Guard.noConfusion heq
      exact h.own _ hmain (busy_of_eq hcontrol (busy_session _)) (by simp [hcontrol])
  | refused hcontrol => exact absurd (hjoined ⟨_, hcontrol⟩) Bool.false_ne_true
  | passes ok hcontrol hdone =>
      obtain ⟨hsession, hresting⟩ := h.inv.between_fine hcontrol
      have hidle := h.inv.goTo (ne_absent hcontrol (by simp)) .idle (fine_idle _ hresting)
      exact (h.goTo (busy_of_eq hcontrol (busy_between _)) (by simp [hcontrol]) busy_idle
        hidle).returns hdone hsession _
  | entersContext ok hcontrol hfree hnone => exact h.enters hcontrol hfree hnone
  | throws ok hcontrol =>
      exact h.goTo (busy_of_eq hcontrol (busy_between _)) (by simp [hcontrol]) busy_idle h'
  | constructs ok hcontrol => exact h.constructs hcontrol
  | begins hcontrol => exact h.begins hcontrol
  | opens hcontrol =>
      exact h.goes h' (busy_of_eq hcontrol busy_idle) (busy_of_eq hcontrol busy_idle)
        (fun _ _ => ⟨rfl, rfl⟩) (fun hmain => h.own _ hmain (busy_of_eq hcontrol busy_idle)) h.owner
        id id
  | closes hcontrol =>
      exact h.goes h' (busy_of_eq hcontrol busy_idle) (busy_of_eq hcontrol busy_idle)
        (fun _ _ => ⟨rfl, rfl⟩) (fun hmain => h.own _ hmain (busy_of_eq hcontrol busy_idle)) h.owner
        id id
  | finishes hcontrol hmain hown => exact h.finished hcontrol hmain hown
  | finishHalts => exact absurd h'.running Bool.noConfusion
  | ends hcontrol hmain hown =>
      exact absurd (h.own _ hmain (busy_of_eq hcontrol busy_idle) (by simp [hcontrol])) hown
  | exitsStatic hcontrol hdone =>
      refine h.exits h' (h.not_busy hjoined) (fun other hother => control_goTo_of_ne _ _ hother)
        (fun hnot => absurd (.inr rfl) hnot) ?_ (fun hdestroyed => ?_) fun hended => ?_
      · rintro owner (heq | heq) <;> cases heq
      · exact absurd hdestroyed (h.session_ne (busy_of_eq hcontrol busy_idle))
      · rw [withoutStatic, control_goTo_self] at hended
        cases hended
  | exitHalts => exact absurd h'.running Bool.noConfusion
  | exitsPlain hcontrol hdone =>
      refine h.exits h' (h.not_busy hjoined) (fun other hother => control_goTo_of_ne _ _ hother) id
        h.owner (fun hdestroyed => ?_) fun hended => ?_
      · exact absurd hdestroyed (h.session_ne (busy_of_eq hcontrol busy_idle))
      · rw [control_goTo_self] at hended
        cases hended
  | terminates hcontrol hdone =>
      exact h.exits h' (h.not_busy hjoined) (fun other hother => control_goTo_of_ne _ _ hother) id
        h.owner (fun _ => control_goTo_self ..) fun _ _ heq => Guard.noConfusion heq
  | leaves hcontrol hdone =>
      exact h.exits h' (h.not_busy hjoined) (fun other hother => control_goTo_of_ne _ _ hother) id
        h.owner (fun _ => control_goTo_self ..) fun _ => hdone

theorem orderly_start : Orderly World.start where
  inv := inv_start
  alone _ _ hother := control_start_of_ne hother
  owner owner h := by
    rcases h with heq | heq <;> cases heq
  own other hother hbusy := by
    rw [control_start_of_ne hother] at hbusy
    exact absurd rfl hbusy.1
  behind _ other hother := by
    rw [control_start_of_ne hother]
    exact fun hbusy => hbusy.1 rfl
  destroyed hdestroyed := by cases hdestroyed
  closed _ _ heq := by cases heq

/-- No context is missing, and none is there already. -/
theorem Orderly.not_throws (h : Orderly w) (hjoined : Joined w label) : ¬ Throws w label := by
  obtain ⟨thread, move⟩ := label
  have hhas : (thread = mainThread → ∃ owner, w.context = .done owner) →
      ¬ (w.control thread = .idle ∧ w.current thread = none) := by
    rintro hmain ⟨hcontrol, hnone⟩
    by_cases heq : thread = mainThread
    · obtain ⟨owner, hdone⟩ := hmain heq
      rw [h.owner owner (.inr hdone), ← heq] at hdone
      rw [h.inv.static_of_done hdone] at hnone
      cases hnone
    · rw [h.own thread heq (busy_of_eq hcontrol busy_idle) (by simp [hcontrol])] at hnone
      cases hnone
  cases move with
  | proceed ok =>
      rintro ⟨⟨purpose, hcontrol⟩, hfree, hsome⟩
      have hnot : ¬ w.context.Constructed := by
        rintro (⟨_, heq⟩ | heq) <;> exact Guard.noConfusion (hfree.symm.trans heq)
      cases (h.inv.between_fine hcontrol).2 with
      | unowned hunowned => exact hsome hunowned.1
      | static _ hdone => exact hnot (.inl ⟨_, hdone⟩)
      | own _ hmain =>
          have habsent := h.alone hnot thread hmain
          rw [hcontrol] at habsent
          cases habsent
  | «open» => exact hhas hjoined
  | close hdl => exact hhas hjoined
  | _ => exact id

/-- All is closed behind `main`. -/
theorem Orderly.view_ended (h : Orderly w) (hended : w.control mainThread = .ended) :
    view w = Rules.start := by
  have houtside : ∀ thread, ¬ Inside w thread := by
    have hmain : ¬ Busy (w.control mainThread) := fun hbusy => hbusy.2.2 hended
    intro thread
    by_cases heq : thread = mainThread
    · rw [heq]
      exact h.inv.not_inside hmain
    · exact h.inv.not_inside (h.behind hmain thread heq)
  ext1
  · refine Bool.eq_false_iff.mpr fun hsession => ?_
    obtain ⟨owner, hdone⟩ := (isDone_iff _).mp hsession
    exact h.closed hended owner hdone
  · exact Finset.eq_empty_of_forall_notMem fun thread hmem =>
      houtside thread ((h.inv.mem_inside thread).mp hmem)
  · refine List.map_eq_nil_iff.mpr (List.eq_nil_iff_forall_not_mem.mpr fun entry hentry => ?_)
    obtain ⟨-, hplaced⟩ := h.inv.placed entry hentry
    cases hcontext : entry.context with
    | static =>
        simp only [hcontext] at hplaced
        exact houtside _ (.inr hplaced)
    | ofThread owner =>
        simp only [hcontext] at hplaced
        exact houtside _ (.inl hplaced.2)

/-- `main` starts a thread that opens a handle and closes it as it ends. -/
def sampleProgram : List Label :=
  [⟨0, .instance .spawn⟩, ⟨0, .proceed true⟩, ⟨0, .proceed true⟩, ⟨0, .proceed true⟩, ⟨1, .begin⟩,
    ⟨1, .open⟩, ⟨1, .finish⟩, ⟨0, .exit⟩, ⟨0, .exit⟩]

theorem joined_exit (h : ∀ thread < w.next, thread ≠ mainThread → w.control thread = .ended) :
    Joined w ⟨mainThread, .exit⟩ := h

theorem joined_sample : Run.Along step Joined World.start sampleProgram := by
  have hopens : ¬ (1 : ThreadId) = mainThread := by decide
  exact ⟨trivial, fun _ => rfl, fun _ => rfl, fun _ => rfl, trivial, fun h => absurd h hopens, trivial,
    joined_exit (by decide), joined_exit (by decide), trivial⟩

end Dmn.Threads
