import Mathlib.Data.List.Count

/-! # Resources that are opened and closed

A trace is replayed on a stack: what is closed must be what was opened last. Resources are numbered
as they are opened. -/

namespace Dmn.Ledger

inductive Mark (ρ : Type*) where
  | opened (resource : ρ)
  | closed (resource : ρ)
  deriving DecidableEq

section Replay

variable {ρ : Type*} [DecidableEq ρ]

/-- The resources that are open behind the marks, the latest first. -/
def replay : List ρ → List (Mark ρ) → Option (List ρ)
  | stack, [] => some stack
  | stack, .opened resource :: marks => replay (resource :: stack) marks
  | [], .closed _ :: _ => none
  | top :: stack, .closed resource :: marks => if top = resource then replay stack marks else none

variable {stack rest : List ρ} {marks : List (Mark ρ)} {resource : ρ}

theorem replay_closed_self (resource : ρ) (stack : List ρ) (marks : List (Mark ρ)) :
    replay (resource :: stack) (.closed resource :: marks) = replay stack marks := if_pos rfl

theorem replay_closed_eq_some (h : replay stack (.closed resource :: marks) = some rest) :
    ∃ below, stack = resource :: below ∧ replay below marks = some rest := by
  cases stack with
  | nil => cases h
  | cons top below =>
      by_cases heq : top = resource
      · subst heq
        rw [replay_closed_self] at h
        exact ⟨below, rfl, h⟩
      · rw [replay, if_neg heq] at h
        cases h

theorem replay_append (stack : List ρ) (first second : List (Mark ρ)) :
    replay stack (first ++ second) = (replay stack first).bind (replay · second) := by
  induction first generalizing stack with
  | nil => rfl
  | cons mark first ih =>
      cases mark with
      | opened resource => exact ih (resource :: stack)
      | closed resource =>
          cases stack with
          | nil => rfl
          | cons top stack =>
              by_cases heq : top = resource
              · simpa only [List.cons_append, replay, if_pos heq] using ih stack
              · simp [replay, heq]

/-- What is opened is closed, or still open. -/
theorem count_replay (h : replay stack marks = some rest) (resource : ρ) :
    marks.count (.opened resource) + stack.count resource =
      marks.count (.closed resource) + rest.count resource := by
  induction marks generalizing stack with
  | nil =>
      cases h
      rfl
  | cons mark marks ih =>
      cases mark with
      | opened other =>
          have hrest := ih h
          by_cases heq : other = resource
          · subst heq
            simp only [List.count_cons_self, reduceCtorEq, not_false_eq_true,
              List.count_cons_of_ne, ne_eq] at hrest ⊢
            omega
          · simpa [List.count_cons, heq] using hrest
      | closed other =>
          obtain ⟨below, rfl, hbelow⟩ := replay_closed_eq_some h
          have hrest := ih hbelow
          by_cases heq : other = resource
          · subst heq
            simp only [List.count_cons_self, reduceCtorEq, not_false_eq_true,
              List.count_cons_of_ne, ne_eq] at hrest ⊢
            omega
          · simpa [List.count_cons, heq] using hrest

end Replay

/-- The number for the next resource, and what has happened, the latest last. -/
structure Book where
  next : ℕ
  marks : List (Mark ℕ)
  deriving DecidableEq

namespace Book

def start : Book := ⟨1, []⟩

def opens (book : Book) : Book := ⟨book.next + 1, book.marks ++ [.opened book.next]⟩

def closes (resource : ℕ) (book : Book) : Book :=
  { book with marks := book.marks ++ [.closed resource] }

/-- The resources in `stack` are open, and none was opened twice. -/
structure Open (stack : List ℕ) (book : Book) : Prop where
  replay : replay [] book.marks = some stack
  opened : ∀ resource, book.marks.count (.opened resource) =
    if 0 < resource ∧ resource < book.next then 1 else 0
  next : 0 < book.next

variable {book : Book} {stack : List ℕ} {resource : ℕ}

theorem open_start : Open [] start where
  replay := rfl
  opened resource := by
    have hnone : ¬ (0 < resource ∧ resource < 1) := by omega
    exact (if_neg hnone).symm
  next := Nat.one_pos

namespace Open

theorem opens (h : Open stack book) : Open (book.next :: stack) book.opens where
  replay := by
    rw [Book.opens, replay_append, h.replay]
    rfl
  opened resource := by
    have hcount := h.opened resource
    have hnext := h.next
    rw [Book.opens, List.count_append, hcount]
    simp only [List.count_singleton, beq_iff_eq, Mark.opened.injEq]
    grind
  next := Nat.succ_pos _

theorem closes (h : Open (resource :: stack) book) : Open stack (book.closes resource) where
  replay := by
    rw [Book.closes, replay_append, h.replay]
    exact replay_closed_self resource stack []
  opened other := by
    have hcount := h.opened other
    rw [Book.closes, List.count_append]
    simpa using hcount
  next := h.next

/-- A resource was closed once if it is not open any more. -/
theorem closed (h : Open stack book) (resource : ℕ) :
    book.marks.count (.closed resource) + stack.count resource =
      if 0 < resource ∧ resource < book.next then 1 else 0 := by
  have hcount := count_replay h.replay resource
  rw [List.count_nil, Nat.add_zero] at hcount
  rw [← hcount, h.opened]

end Open

end Book

end Dmn.Ledger
