import Mathlib.Tactic.TypeStar

/-! # Runs of a step function

A run is a list of operations applied one after the other. `Along` requires a
property of every operation together with the state it is applied to. -/

namespace Dmn.Run

variable {σ ω : Type*} (step : σ → ω → σ)

/-- The state reached after a list of operations. -/
def after (s : σ) (ops : List ω) : σ := ops.foldl step s

/-- `P` holds at every operation of the run, in the state before it. -/
def Along (P : σ → ω → Prop) : σ → List ω → Prop
  | _, [] => True
  | s, op :: ops => P s op ∧ Along P (step s op) ops

variable {step}

/-- A property that every step keeps holds after each run. -/
theorem after_of_invariant {I : σ → Prop} (hstep : ∀ s op, I s → I (step s op)) {s : σ}
    (hs : I s) (ops : List ω) : I (after step s ops) := by
  induction ops generalizing s with
  | nil => exact hs
  | cons op ops ih => exact ih (hstep s op hs)

/-- What an invariant has of every operation holds along each run. -/
theorem along_of_invariant {I : σ → Prop} {P : σ → ω → Prop}
    (hstep : ∀ s op, I s → I (step s op)) (hhold : ∀ s op, I s → P s op) {s : σ} (hs : I s)
    (ops : List ω) : Along step P s ops := by
  induction ops generalizing s with
  | nil => trivial
  | cons op ops ih => exact ⟨hhold s op hs, ih (hstep s op hs)⟩

/-- What holds of every operation that meets a requirement, as long as all of them do. -/
theorem along_of_along {I : σ → Prop} {P Q : σ → ω → Prop}
    (hstep : ∀ s op, I s → P s op → I (step s op)) (hhold : ∀ s op, I s → P s op → Q s op) {s : σ}
    (hs : I s) {ops : List ω} (h : Along step P s ops) : Along step Q s ops := by
  induction ops generalizing s with
  | nil => trivial
  | cons op ops ih => exact ⟨hhold s op hs h.1, ih (hstep s op hs h.1) h.2⟩

/-- A property that every step keeps that meets a requirement. -/
theorem after_of_along {I : σ → Prop} {P : σ → ω → Prop}
    (hstep : ∀ s op, I s → P s op → I (step s op)) {s : σ} (hs : I s) {ops : List ω}
    (h : Along step P s ops) : I (after step s ops) := by
  induction ops generalizing s with
  | nil => exact hs
  | cons op ops ih => exact ih (hstep s op hs h.1) h.2

/-- Pointwise equivalent requirements hold along the same runs. -/
theorem along_congr {P Q : σ → ω → Prop} (h : ∀ s op, P s op ↔ Q s op) (s : σ) (ops : List ω) :
    Along step P s ops ↔ Along step Q s ops := by
  induction ops generalizing s with
  | nil => exact Iff.rfl
  | cons op ops ih => exact and_congr (h s op) (ih (step s op))

/-! ## Simulation -/

variable {τ β : Type*} {abstractStep : τ → β → τ}

variable (step) in
/-- What the operations of a run emit, the first one first. -/
def emitted (emit : σ → ω → List β) : σ → List ω → List β
  | _, [] => []
  | s, op :: ops => emit s op ++ emitted emit (step s op) ops

theorem after_append (s : σ) (first second : List ω) :
    after step s (first ++ second) = after step (after step s first) second := List.foldl_append

/-- A run does to what is seen of the states what its steps emit. -/
theorem view_after {view : σ → τ} {emit : σ → ω → List β} {I : σ → Prop}
    (hkeep : ∀ s op, I s → I (step s op))
    (hview : ∀ s op, I s → view (step s op) = after abstractStep (view s) (emit s op)) {s : σ}
    (hs : I s) (ops : List ω) :
    view (after step s ops) = after abstractStep (view s) (emitted step emit s ops) := by
  induction ops generalizing s with
  | nil => rfl
  | cons op ops ih =>
      rw [emitted, after_append, ← hview s op hs]
      exact ih (hkeep s op hs)

end Dmn.Run
