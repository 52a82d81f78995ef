import Mathlib.Logic.Function.Basic
import Dmn.Library.Run

/-! # Working copies of stored documents

Documents are stored under keys. A session changes a copy of its own, and what it commits
replaces a document as a whole, whatever was stored there in the meantime. -/

namespace Dmn.Workspace

variable {κ ι α : Type*}

structure Desk (κ ι α : Type*) where
  stored : κ → Option α
  copies : ι → Option α

inductive Act (κ ι α : Type*) where
  | checkout (session : ι) (key : κ)
  | blank (session : ι) (content : α)
  | change (session : ι) (f : α → α)
  | commit (session : ι) (key : κ)
  | discard (session : ι)
  | remove (key : κ)

/-- The changes, the first one first. -/
def replay (changes : List (α → α)) (content : α) : α :=
  changes.foldl (fun content f => f content) content

@[simp] theorem replay_nil : (replay [] : α → α) = id := rfl

@[simp] theorem replay_cons (f : α → α) (changes : List (α → α)) (content : α) :
    replay (f :: changes) content = replay changes (f content) := rfl

theorem replay_append (first second : List (α → α)) (content : α) :
    replay (first ++ second) content = replay second (replay first content) :=
  List.foldl_append

variable [DecidableEq κ] [DecidableEq ι]

namespace Desk

def act (d : Desk κ ι α) : Act κ ι α → Desk κ ι α
  | .checkout session key => { d with copies := Function.update d.copies session (d.stored key) }
  | .blank session content => { d with copies := Function.update d.copies session (some content) }
  | .change session f =>
      { d with copies := Function.update d.copies session ((d.copies session).map f) }
  | .commit session key =>
      { d with stored := Function.update d.stored key (d.copies session <|> d.stored key) }
  | .discard session => { d with copies := Function.update d.copies session none }
  | .remove key => { d with stored := Function.update d.stored key none }

def after (d : Desk κ ι α) (acts : List (Act κ ι α)) : Desk κ ι α := Run.after act d acts

@[simp] theorem after_nil (d : Desk κ ι α) : d.after [] = d := rfl

@[simp] theorem after_cons (d : Desk κ ι α) (a : Act κ ι α) (acts : List (Act κ ι α)) :
    d.after (a :: acts) = (d.act a).after acts := rfl

end Desk

namespace Act

/-- The session begins or ends. -/
def renews (session : ι) : Act κ ι α → Bool
  | checkout other _ | blank other _ | discard other => other = session
  | change _ _ | commit _ _ | remove _ => false

/-- The document is written or removed. -/
def writes (key : κ) : Act κ ι α → Bool
  | commit _ other | remove other => other = key
  | checkout _ _ | blank _ _ | change _ _ | discard _ => false

/-- What the act changes in the copy of the session. -/
def changeOf (session : ι) : Act κ ι α → Option (α → α)
  | change other f => if other = session then some f else none
  | checkout _ _ | blank _ _ | commit _ _ | discard _ | remove _ => none

end Act

/-- What the acts change in the copy of the session. -/
def changes (session : ι) (acts : List (Act κ ι α)) : List (α → α) :=
  acts.filterMap (Act.changeOf session)

omit [DecidableEq κ] in
theorem changes_cons (session : ι) (a : Act κ ι α) (acts : List (Act κ ι α)) :
    changes session (a :: acts) = (a.changeOf session).toList ++ changes session acts := by
  cases h : a.changeOf session <;> simp [changes, h]

/-! ## One act -/

variable {d : Desk κ ι α} {session : ι} {key : κ}

theorem copies_act {a : Act κ ι α} (h : a.renews session = false) :
    (d.act a).copies session =
      (d.copies session).map (replay (a.changeOf session).toList) := by
  cases a with
  | checkout other key =>
      have hne : session ≠ other := fun heq => by simp [Act.renews, heq] at h
      simp [Desk.act, Act.changeOf, hne, Function.update_of_ne]
  | blank other content =>
      have hne : session ≠ other := fun heq => by simp [Act.renews, heq] at h
      simp [Desk.act, Act.changeOf, hne, Function.update_of_ne]
  | change other f =>
      by_cases heq : other = session
      · subst heq
        simp only [Desk.act, Act.changeOf, Function.update_self, if_true, Option.toList_some]
        rfl
      · simp [Desk.act, Act.changeOf, heq, Function.update_of_ne (Ne.symm heq)]
  | commit other key => simp [Desk.act, Act.changeOf]
  | discard other =>
      have hne : session ≠ other := fun heq => by simp [Act.renews, heq] at h
      simp [Desk.act, Act.changeOf, hne, Function.update_of_ne]
  | remove key => simp [Desk.act, Act.changeOf]

theorem stored_act {a : Act κ ι α} (h : a.writes key = false) :
    (d.act a).stored key = d.stored key := by
  cases a with
  | checkout other other' => rfl
  | blank other content => rfl
  | change other f => rfl
  | discard other => rfl
  | commit other other' =>
      have hne : key ≠ other' := fun heq => by simp [Act.writes, heq] at h
      exact Function.update_of_ne hne _ _
  | remove other =>
      have hne : key ≠ other := fun heq => by simp [Act.writes, heq] at h
      exact Function.update_of_ne hne _ _

/-! ## Runs -/

/-- A copy is changed by its own session only. -/
theorem copies_after {acts : List (Act κ ι α)} (h : ∀ a ∈ acts, a.renews session = false) :
    (d.after acts).copies session =
      (d.copies session).map (replay (changes session acts)) := by
  induction acts generalizing d with
  | nil => simp [changes]
  | cons a acts ih =>
      rw [Desk.after_cons, ih fun a' ha' => h a' (List.mem_cons_of_mem _ ha'),
        copies_act (h a List.mem_cons_self)]
      rw [Option.map_map, changes_cons]
      exact congrArg (fun f => (d.copies session).map f)
        (funext fun content => (replay_append _ _ content).symm)

/-- What nobody commits stays as it is. -/
theorem stored_after {acts : List (Act κ ι α)} (h : ∀ a ∈ acts, a.writes key = false) :
    (d.after acts).stored key = d.stored key := by
  induction acts generalizing d with
  | nil => rfl
  | cons a acts ih =>
      rw [Desk.after_cons, ih fun a' ha' => h a' (List.mem_cons_of_mem _ ha'),
        stored_act (h a List.mem_cons_self)]

end Dmn.Workspace
