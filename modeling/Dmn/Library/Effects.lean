import Dmn.Library.Exec
import Dmn.Library.Run

/-! # Effects of programs that may stop

What is seen of the state changes by effects, one after the other. A program that stops has had the
first few of its effects. -/

namespace Dmn.Effects

open Exec

variable {ε σ τ α β γ : Type} (view : σ → τ) (apply : τ → γ → τ)

/-- The program has all of the effects if it returns, and stops before the last one if not. -/
def Performs (effects : List γ) (x : Exec ε σ α) (s : σ) : Prop :=
  ∃ done, done <+: effects ∧ ((exec x s).1.isOk → done = effects) ∧
    ((exec x s).1.isOk = false → effects ≠ [] → done ≠ effects) ∧
      view (exec x s).2 = done.foldl apply (view s)

/-- The program stops before the first effect, or has effects of this kind. -/
def Begins (W : List γ → Prop) (x : Exec ε σ α) (s : σ) : Prop :=
  (∃ stop t, exec x s = (.error stop, t) ∧ view t = view s) ∨
    ∃ effects, W effects ∧ Performs view apply effects x s

variable {view apply} {effects first second : List γ} {x : Exec ε σ α} {f : α → Exec ε σ β} {s : σ}
  {W : List γ → Prop}

theorem Performs.of_ok {a : α} {t : σ} (h : Performs view apply effects x s)
    (hx : exec x s = (.ok a, t)) : view t = effects.foldl apply (view s) := by
  obtain ⟨done, -, hall, -, hview⟩ := h
  rw [hx] at hall hview
  rw [hview, hall rfl]

theorem Performs.of_error {stop : ε} {t : σ} (h : Performs view apply effects x s)
    (hx : exec x s = (.error stop, t)) : ∃ done, done <+: effects ∧
      (effects ≠ [] → done ≠ effects) ∧ view t = done.foldl apply (view s) := by
  obtain ⟨done, hdone, -, hstopped, hview⟩ := h
  rw [hx] at hstopped hview
  exact ⟨done, hdone, hstopped rfl, hview⟩

theorem performs_of_ok {a : α} {t : σ} (hx : exec x s = (.ok a, t))
    (hview : view t = effects.foldl apply (view s)) : Performs view apply effects x s := by
  refine ⟨effects, List.prefix_rfl, fun _ => rfl, ?_, by rw [hx]; exact hview⟩
  rw [hx]
  exact fun h => absurd h.symm Bool.false_ne_true

theorem performs_of_error {stop : ε} {t : σ} {done : List γ} (hx : exec x s = (.error stop, t))
    (hdone : done <+: effects) (hstopped : effects ≠ [] → done ≠ effects)
    (hview : view t = done.foldl apply (view s)) : Performs view apply effects x s := by
  refine ⟨done, hdone, ?_, fun _ => hstopped, by rw [hx]; exact hview⟩
  rw [hx]
  exact fun h => absurd h Bool.false_ne_true

/-- A program with one effect at most. -/
theorem performs_one {e : γ} (herror : ∀ stop t, exec x s = (.error stop, t) → view t = view s)
    (hok : ∀ a t, exec x s = (.ok a, t) → view t = apply (view s) e) :
    Performs view apply [e] x s := by
  rcases hx : exec x s with ⟨stop | a, t⟩
  · exact performs_of_error hx List.nil_prefix (fun _ => (List.cons_ne_nil e []).symm)
      (herror stop t hx)
  · exact performs_of_ok hx (hok a t hx)

/-- A part of the first effects is not all of the effects. -/
theorem ne_append_of_prefix {done : List γ} (h : done <+: first) (hsecond : second ≠ []) :
    done ≠ first ++ second := by
  rintro rfl
  have hlength := h.length_le
  have hpos := List.length_pos_iff.mpr hsecond
  rw [List.length_append] at hlength
  omega

theorem Performs.bind (hx : Performs view apply first x s) (hsecond : second ≠ [])
    (hf : ∀ a t, exec x s = (.ok a, t) → Performs view apply second (f a) t) :
    Performs view apply (first ++ second) (x >>= f) s := by
  rcases hexec : exec x s with ⟨stop | a, t⟩
  · obtain ⟨done, hdone, -, hview⟩ := hx.of_error hexec
    exact performs_of_error (exec_bind_of_error hexec)
      (hdone.trans (List.prefix_append first second))
      (fun _ => ne_append_of_prefix hdone hsecond) hview
  · have hfirst := hx.of_ok hexec
    rcases hrest : exec (f a) t with ⟨stop | b, u⟩
    · obtain ⟨done, hdone, hstopped, hview⟩ := (hf a t hexec).of_error hrest
      have hpart : first ++ done <+: first ++ second :=
        (List.prefix_append_right_inj first).mpr hdone
      refine performs_of_error ((exec_bind_of_ok hexec).trans hrest) hpart (fun _ h => ?_) ?_
      · exact hstopped hsecond (List.append_cancel_left h)
      · rw [hview, hfirst, List.foldl_append]
    · refine performs_of_ok ((exec_bind_of_ok hexec).trans hrest) ?_
      rw [(hf a t hexec).of_ok hrest, hfirst, List.foldl_append]

/-- What is read first has no effect. -/
theorem Begins.bind_read (hx : view (exec x s).2 = view s)
    (hf : ∀ a t, exec x s = (.ok a, t) → Begins view apply W (f a) t) :
    Begins view apply W (x >>= f) s := by
  rcases hexec : exec x s with ⟨stop | a, t⟩
  · rw [hexec] at hx
    exact .inl ⟨stop, t, exec_bind_of_error hexec, hx⟩
  · rw [hexec] at hx
    rcases hf a t hexec with ⟨stop, u, hstop, hview⟩ | ⟨effects, hW, hperforms⟩
    · exact .inl ⟨stop, u, (exec_bind_of_ok hexec).trans hstop, hview.trans hx⟩
    · unfold Performs at hperforms
      rw [← exec_bind_of_ok hexec, hx] at hperforms
      exact .inr ⟨effects, hW, hperforms⟩

/-- The effects of the first program are known, and of those behind it their kind. -/
theorem Performs.bind_begins (hx : Performs view apply first x s) (hW : ∃ effects, W effects)
    (hne : ∀ effects, W effects → effects ≠ [])
    (hf : ∀ a t, exec x s = (.ok a, t) → Begins view apply W (f a) t) :
    Begins view apply (fun effects => ∃ rest, W rest ∧ effects = first ++ rest) (x >>= f) s := by
  obtain ⟨some, hsome⟩ := hW
  rcases hexec : exec x s with ⟨stop | a, t⟩
  · obtain ⟨done, hdone, -, hview⟩ := hx.of_error hexec
    exact .inr ⟨_, ⟨some, hsome, rfl⟩, performs_of_error (exec_bind_of_error hexec)
      (hdone.trans (List.prefix_append first some))
      (fun _ => ne_append_of_prefix hdone (hne some hsome)) hview⟩
  · have hfirst := hx.of_ok hexec
    rcases hf a t hexec with ⟨stop, u, hstop, hview⟩ | ⟨rest, hrest, hperforms⟩
    · refine .inr ⟨_, ⟨some, hsome, rfl⟩, performs_of_error
        ((exec_bind_of_ok hexec).trans hstop) (List.prefix_append first some)
        (fun _ => ne_append_of_prefix List.prefix_rfl (hne some hsome)) ?_⟩
      rw [hview, hfirst]
    · refine .inr ⟨_, ⟨rest, hrest, rfl⟩, hx.bind (hne rest hrest) fun b u hb => ?_⟩
      rw [hexec] at hb
      cases hb
      exact hperforms

theorem Performs.begins (h : Performs view apply effects x s) (hW : W effects) :
    Begins view apply W x s := .inr ⟨effects, hW, h⟩

theorem Begins.mono {W' : List γ → Prop} (h : Begins view apply W x s)
    (hW : ∀ effects, W effects → W' effects) : Begins view apply W' x s :=
  h.imp_right fun ⟨effects, heffects, hperforms⟩ => ⟨effects, hW effects heffects, hperforms⟩

/-- What was done by a program with effects of this kind. One that stops has done less than that. -/
def Done (W : List γ → Prop) (returned : Bool) (done : List γ) : Prop :=
  if returned then W done
  else done = [] ∨ ∃ effects, W effects ∧ done <+: effects ∧ done ≠ effects

theorem Begins.done (h : Begins view apply W x s) (hne : ∀ effects, W effects → effects ≠ []) :
    ∃ done, Done W (exec x s).1.isOk done ∧ view (exec x s).2 = done.foldl apply (view s) := by
  rcases h with ⟨stop, t, hstop, hview⟩ | ⟨effects, hW, hperforms⟩
  · refine ⟨[], ?_, ?_⟩ <;> rw [hstop]
    · exact .inl rfl
    · exact hview
  · rcases hexec : exec x s with ⟨stop | a, t⟩
    · obtain ⟨done, hdone, hstopped, hview⟩ := hperforms.of_error hexec
      exact ⟨done, .inr ⟨effects, hW, hdone, hstopped (hne effects hW)⟩, hview⟩
    · exact ⟨effects, hW, hperforms.of_ok hexec⟩

/-! ## Runs -/

section Runs

variable {ω : Type} (step : σ → ω → σ)

/-- The effects of the operations of a run, each of which has some that it can have. -/
def Explains (R : σ → ω → List γ → Prop) : σ → List ω → List (List γ) → Prop
  | _, [], trace => trace = []
  | s, op :: ops, trace => ∃ done rest, trace = done :: rest ∧ R s op done ∧
      Explains R (step s op) ops rest

variable {step} {R : σ → ω → List γ → Prop}

/-- What is seen behind a run is what the effects of its operations have made. -/
theorem exists_explains (hstep : ∀ s op, ∃ done, R s op done ∧
    view (step s op) = done.foldl apply (view s)) (s : σ) (ops : List ω) :
    ∃ trace, Explains step R s ops trace ∧
      view (Run.after step s ops) = trace.flatten.foldl apply (view s) := by
  induction ops generalizing s with
  | nil => exact ⟨[], rfl, rfl⟩
  | cons op ops ih =>
      obtain ⟨done, hdone, hview⟩ := hstep s op
      obtain ⟨rest, hrest, hafter⟩ := ih (step s op)
      refine ⟨done :: rest, ⟨done, rest, rfl, hdone, hrest⟩, ?_⟩
      rw [List.flatten_cons, List.foldl_append, ← hview]
      exact hafter

end Runs

end Dmn.Effects
