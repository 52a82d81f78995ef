import Dmn.Library.Run
import Mathlib.Data.Option.Basic

/-! # Monitors

A monitor reads the events of a run one by one and refuses what is against its rules. Where it follows
a view of the states, it accepts just the runs whose steps are all allowed. -/

namespace Dmn.Monitor

variable {μ ε σ ω : Type*} (check : μ → ε → Option μ)

/-- The monitor behind the events, if it has refused none. -/
def checks : μ → List ε → Option μ
  | m, [] => some m
  | m, event :: events => (check m event).bind (checks · events)

variable {check}

theorem checks_append (m : μ) (first second : List ε) :
    checks check m (first ++ second) = (checks check m first).bind (checks check · second) := by
  induction first generalizing m with
  | nil => rfl
  | cons event first ih =>
      cases hcheck : check m event with
      | none => simp [checks, hcheck]
      | some m' => simp [checks, hcheck, ih]

theorem checks_singleton (m : μ) (event : ε) : checks check m [event] = check m event := by
  simp [checks]

variable {step : σ → ω → σ} {emit : σ → ω → List ε} {view : σ → μ} {I : σ → Prop}
  {allowed : σ → ω → Prop}

/-- The monitor follows the view as long as every step is allowed. -/
theorem checks_emitted (hkeep : ∀ s op, I s → allowed s op → I (step s op))
    (hview : ∀ s op, I s → allowed s op →
      checks check (view s) (emit s op) = some (view (step s op))) {s : σ} (hs : I s)
    {ops : List ω} (hallowed : Run.Along step allowed s ops) :
    checks check (view s) (Run.emitted step emit s ops) = some (view (Run.after step s ops)) := by
  induction ops generalizing s with
  | nil => rfl
  | cons op ops ih =>
      rw [Run.emitted, checks_append, hview s op hs hallowed.1, Option.bind_some]
      exact ih (hkeep s op hs hallowed.1) hallowed.2

/-- The monitor accepts just the runs whose steps are all allowed. -/
theorem isSome_checks_emitted (hkeep : ∀ s op, I s → allowed s op → I (step s op))
    (hview : ∀ s op, I s → allowed s op →
      checks check (view s) (emit s op) = some (view (step s op)))
    (hrefuse : ∀ s op, I s → ¬ allowed s op → checks check (view s) (emit s op) = none) {s : σ}
    (hs : I s) (ops : List ω) :
    (checks check (view s) (Run.emitted step emit s ops)).isSome ↔
      Run.Along step allowed s ops := by
  induction ops generalizing s with
  | nil => exact iff_of_true rfl trivial
  | cons op ops ih =>
      rw [Run.emitted, checks_append]
      by_cases hop : allowed s op
      · rw [hview s op hs hop, Option.bind_some, ih (hkeep s op hs hop)]
        exact (and_iff_right hop).symm
      · rw [hrefuse s op hs hop]
        exact iff_of_false Bool.false_ne_true fun h => hop h.1

end Dmn.Monitor
