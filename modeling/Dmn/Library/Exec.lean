import Mathlib.Tactic.TypeStar

/-! # Programs that may stop early

The state reached so far is kept when a program stops, so that a statement about
what a failed call has already changed can be made. -/

namespace Dmn

/-- A program over the state `σ` that may stop with a value of `ε`. -/
abbrev Exec (ε σ α : Type) := ExceptT ε (StateM σ) α

namespace Exec

variable {ε σ α β : Type}

/-- The result of a program together with the state it leaves. -/
def exec (x : Exec ε σ α) (s : σ) : Except ε α × σ := x.run.run s

@[simp] theorem exec_pure (a : α) (s : σ) : exec (pure a : Exec ε σ α) s = (.ok a, s) := rfl

@[simp] theorem exec_throw (e : ε) (s : σ) :
    exec (throw e : Exec ε σ α) s = (.error e, s) := rfl

@[simp] theorem exec_get (s : σ) : exec (get : Exec ε σ σ) s = (.ok s, s) := rfl

@[simp] theorem exec_modify (f : σ → σ) (s : σ) :
    exec (modify f : Exec ε σ PUnit) s = (.ok ⟨⟩, f s) := rfl

theorem exec_bind (x : Exec ε σ α) (f : α → Exec ε σ β) (s : σ) :
    exec (x >>= f) s = match exec x s with
      | (.ok a, t) => exec (f a) t
      | (.error e, t) => (.error e, t) := by
  simp only [exec, ExceptT.run_bind, StateT.run_bind]
  rcases StateT.run (ExceptT.run x) s with ⟨r, t⟩
  cases r <;> rfl

theorem exec_bind_of_ok {x : Exec ε σ α} {f : α → Exec ε σ β} {s t : σ} {a : α}
    (h : exec x s = (.ok a, t)) : exec (x >>= f) s = exec (f a) t := by
  rw [exec_bind, h]

theorem exec_bind_of_error {x : Exec ε σ α} {f : α → Exec ε σ β} {s t : σ} {e : ε}
    (h : exec x s = (.error e, t)) : exec (x >>= f) s = (.error e, t) := by
  rw [exec_bind, h]

/-- A sequence that completes has completed its first part. -/
theorem exec_bind_eq_ok {x : Exec ε σ α} {f : α → Exec ε σ β} {s u : σ} {b : β}
    (h : exec (x >>= f) s = (.ok b, u)) :
    ∃ a t, exec x s = (.ok a, t) ∧ exec (f a) t = (.ok b, u) := by
  rw [exec_bind] at h
  rcases hx : exec x s with ⟨r, t⟩
  rw [hx] at h
  cases r with
  | error e => simp at h
  | ok a => exact ⟨a, t, rfl, h⟩

/-- What a sequence without a state returns. -/
theorem except_bind_eq_ok {x : Except ε α} {f : α → Except ε β} {b : β} (h : x >>= f = .ok b) :
    ∃ a, x = .ok a ∧ f a = .ok b := by
  cases x with
  | error e => cases h
  | ok a => exact ⟨a, rfl, h⟩

/-- A computation without a state. -/
def ofExcept : Except ε α → Exec ε σ α
  | .ok a => pure a
  | .error e => throw e

@[simp] theorem exec_ofExcept (result : Except ε α) (s : σ) :
    exec (ofExcept result : Exec ε σ α) s = (result, s) := by
  cases result <;> rfl

theorem exec_tryCatch (x : Exec ε σ α) (f : ε → Exec ε σ α) (s : σ) :
    exec (tryCatch x f) s = match exec x s with
      | (.ok a, t) => (.ok a, t)
      | (.error e, t) => exec (f e) t := by
  have hrun : (tryCatch x f).run = x.run >>= fun result => match result with
      | .ok a => pure (.ok a)
      | .error e => (f e).run := rfl
  simp only [exec, hrun, StateT.run_bind]
  rcases StateT.run (ExceptT.run x) s with ⟨_ | a, t⟩ <;> rfl

/-! ## Programs on a part of the state -/

variable {τ : Type}

/-- A program that works on the part `get s` of the state. What it has changed there is put
back also when it stops. -/
def focus (get : σ → τ) (put : τ → σ → σ) (x : Exec ε τ α) : Exec ε σ α :=
  ExceptT.mk fun s => ((exec x (get s)).1, put (exec x (get s)).2 s)

@[simp] theorem exec_focus (get : σ → τ) (put : τ → σ → σ) (x : Exec ε τ α) (s : σ) :
    exec (focus get put x) s = ((exec x (get s)).1, put (exec x (get s)).2 s) := rfl

/-- A scope that is left through `f`, however it ends. -/
def leaving (f : σ → σ) (x : Exec ε σ α) : Exec ε σ α := focus id (fun t _ => f t) x

@[simp] theorem exec_leaving (f : σ → σ) (x : Exec ε σ α) (s : σ) :
    exec (leaving f x) s = ((exec x s).1, f (exec x s).2) := rfl

theorem exec_adapt {ε' : Type} (f : ε → ε') (x : Exec ε σ α) (s : σ) :
    exec (ExceptT.adapt f x) s = ((exec x s).1.mapError f, (exec x s).2) := rfl

/-! ## Invariants -/

/-- A program that keeps a property of the state, however it ends. -/
def Keeps (I : σ → Prop) (x : Exec ε σ α) : Prop := ∀ s, I s → I (exec x s).2

theorem Keeps.pure {I : σ → Prop} (a : α) : Keeps I (Pure.pure a : Exec ε σ α) := fun _ h => h

theorem Keeps.throw {I : σ → Prop} (e : ε) :
    Keeps I (MonadExcept.throw e : Exec ε σ α) := fun _ h => h

/-- What holds behind the first program holds behind a second one that keeps it. -/
theorem keeps_behind {I : σ → Prop} {x : Exec ε σ α} {f : α → Exec ε σ β} {s : σ}
    (hx : I (exec x s).2) (hf : ∀ a, Keeps I (f a)) : I (exec (x >>= f) s).2 := by
  rw [exec_bind]
  rcases hresult : exec x s with ⟨_ | a, t⟩ <;> rw [hresult] at hx
  · exact hx
  · exact hf a t hx

theorem Keeps.bind {I : σ → Prop} {x : Exec ε σ α} {f : α → Exec ε σ β} (hx : Keeps I x)
    (hf : ∀ a, Keeps I (f a)) : Keeps I (x >>= f) := fun s hs => keeps_behind (hx s hs) hf

theorem Keeps.ofExcept {I : σ → Prop} (result : Except ε α) :
    Keeps I (Exec.ofExcept result : Exec ε σ α) := by
  intro s hs
  rwa [exec_ofExcept]

theorem Keeps.tryCatch {I : σ → Prop} {x : Exec ε σ α} {f : ε → Exec ε σ α} (hx : Keeps I x)
    (hf : ∀ e, Keeps I (f e)) : Keeps I (MonadExcept.tryCatch x f) := by
  intro s hs
  have hxs := hx s hs
  rw [exec_tryCatch]
  rcases hresult : exec x s with ⟨e | _, t⟩ <;> rw [hresult] at hxs
  · exact hf e t hxs
  · exact hxs

theorem discard_eq_bind (x : Exec ε σ α) : Functor.discard x = x >>= fun _ => Pure.pure () := by
  rw [Functor.discard, Functor.mapConst, bind_pure_comp]
  rfl

theorem exec_discard (x : Exec ε σ α) (s : σ) : (exec (Functor.discard x) s).2 = (exec x s).2 := by
  rw [discard_eq_bind, exec_bind]
  rcases exec x s with ⟨_ | _, t⟩ <;> rfl

theorem Keeps.discard {I : σ → Prop} {x : Exec ε σ α} (hx : Keeps I x) :
    Keeps I (Functor.discard x) := by
  intro s hs
  rw [exec_discard]
  exact hx s hs

/-! ## Contracts -/

/-- Started with `P`, a program returns with `Q`, or stops with `E`. -/
def Meets (P : σ → Prop) (x : Exec ε σ α) (Q : α → σ → Prop) (E : ε → σ → Prop) : Prop :=
  ∀ s, P s → match exec x s with
    | (.ok a, t) => Q a t
    | (.error e, t) => E e t

section Contracts

variable {P : σ → Prop} {x : Exec ε σ α} {Q : α → σ → Prop} {E : ε → σ → Prop}

theorem Meets.of_ok (h : Meets P x Q E) {s t : σ} {a : α} (hs : P s)
    (hx : exec x s = (.ok a, t)) : Q a t := by
  have hresult := h s hs
  rwa [hx] at hresult

theorem Meets.of_error (h : Meets P x Q E) {s t : σ} {e : ε} (hs : P s)
    (hx : exec x s = (.error e, t)) : E e t := by
  have hresult := h s hs
  rwa [hx] at hresult

theorem Meets.pure {a : α} (h : ∀ s, P s → Q a s) : Meets P (Pure.pure a) Q E := h

theorem Meets.throw {e : ε} (h : ∀ s, P s → E e s) : Meets P (MonadExcept.throw e) Q E := h

theorem Meets.get {E : ε → σ → Prop} : Meets P (MonadState.get : Exec ε σ σ) (fun _ => P) E :=
  fun _ hs => hs

theorem Meets.bind {f : α → Exec ε σ β} {R : β → σ → Prop} (hx : Meets P x Q E)
    (hf : ∀ a, Meets (Q a) (f a) R E) : Meets P (x >>= f) R E := by
  intro s hs
  have hxs := hx s hs
  rw [exec_bind]
  rcases hresult : exec x s with ⟨_ | a, t⟩ <;> rw [hresult] at hxs
  · exact hxs
  · exact hf a t hxs

/-- The first program returns a known value. -/
theorem Meets.bind_of_eq {f : α → Exec ε σ β} {R : σ → Prop} {S : β → σ → Prop} {a₀ : α}
    (hx : Meets P x (fun a s => R s ∧ a = a₀) E) (hf : Meets R (f a₀) S E) :
    Meets P (x >>= f) S E := by
  apply hx.bind
  intro a s hs
  obtain ⟨hR, rfl⟩ := hs
  exact hf s hR

theorem Meets.tryCatch {f : ε → Exec ε σ α} {R : ε → σ → Prop} (hx : Meets P x Q R)
    (hf : ∀ e, Meets (R e) (f e) Q E) : Meets P (MonadExcept.tryCatch x f) Q E := by
  intro s hs
  have hxs := hx s hs
  rw [exec_tryCatch]
  rcases hresult : exec x s with ⟨e | _, t⟩ <;> rw [hresult] at hxs
  · exact hf e t hxs
  · exact hxs

theorem Meets.focus {τ : Type} {get : σ → τ} {put : τ → σ → σ} {y : Exec ε τ α} {s₀ : σ}
    {Q' : α → τ → Prop} {E' : ε → τ → Prop} (hy : Meets (· = get s₀) y Q' E')
    (hQ : ∀ a t, Q' a t → Q a (put t s₀)) (hE : ∀ e t, E' e t → E e (put t s₀)) :
    Meets (· = s₀) (Exec.focus get put y) Q E := by
  rintro s rfl
  have hys := hy (get s) rfl
  rw [exec_focus]
  rcases hresult : exec y (get s) with ⟨e | a, t⟩ <;> rw [hresult] at hys
  · exact hE e t hys
  · exact hQ a t hys

/-- The rule of consequence. -/
theorem Meets.weaken {P' : σ → Prop} {Q' : α → σ → Prop} {E' : ε → σ → Prop} (h : Meets P x Q E)
    (hP : ∀ s, P' s → P s) (hQ : ∀ a s, Q a s → Q' a s) (hE : ∀ e s, E e s → E' e s) :
    Meets P' x Q' E' := by
  intro s hs
  have hx := h s (hP s hs)
  rcases hresult : exec x s with ⟨e | a, t⟩ <;> rw [hresult] at hx
  · exact hE e t hx
  · exact hQ a t hx

/-- A condition that does not depend on the state is a hypothesis. -/
theorem Meets.of_and {p : Prop} (h : p → Meets P x Q E) : Meets (fun s => P s ∧ p) x Q E :=
  fun s hs => h hs.2 s hs.1

theorem Meets.of_exists {β : Sort*} {P : β → σ → Prop} (h : ∀ b, Meets (P b) x Q E) :
    Meets (fun s => ∃ b, P b s) x Q E := fun s ⟨b, hs⟩ => h b s hs

/-- Contracts that mention the state at the start. -/
theorem Meets.of_start (h : ∀ s₀, P s₀ → Meets (· = s₀) x Q E) : Meets P x Q E :=
  fun s hs => h s hs s rfl

theorem Meets.discard {Q : σ → Prop} (h : Meets P x (fun _ => Q) E) :
    Meets P (Functor.discard x) (fun _ => Q) E := by
  rw [discard_eq_bind]
  exact h.bind fun _ => Meets.pure fun _ hs => hs

end Contracts

end Exec

end Dmn
