import Dmn.Model.Native
import Dmn.Verification.Cursor.Correctness

/-! # Results up to failing native calls

Where the native calls of a program report no error, what it returns and what it leaves
does not depend on when it runs. -/

namespace Dmn.Native

open Exec

variable {σ τ α β : Type} (native : Native)

/-- No call from number `n` on reports an error. -/
def Quiet (n : Nat) : Prop := ∀ k, n ≤ k → native.status k = .noError

/-- In the value `v`, the program returns `a` and leaves `v'`, unless a native call reports
an error. -/
def Delivers (x : M σ α) (v : σ) (a : α) (v' : σ) : Prop :=
  ∀ n, (∃ k, n ≤ k ∧ exec x ⟨n, v⟩ = (.ok a, ⟨k, v'⟩)) ∨
    (∃ stop, (exec x ⟨n, v⟩).1 = .error stop) ∧ ∃ k, n ≤ k ∧ native.status k ≠ .noError

variable {native}

/-- A program that returns has returned the result, in the state it leaves. -/
theorem Delivers.of_ok {x : M σ α} {s t : Called σ} {a b : α} {v' : σ}
    (h : Delivers native x s.value a v') (hx : exec x s = (.ok b, t)) :
    b = a ∧ t.value = v' ∧ s.calls ≤ t.calls := by
  rcases h s.calls with ⟨k, hk, hok⟩ | ⟨⟨stop, herror⟩, _⟩
  · rw [hok] at hx
    cases hx
    exact ⟨rfl, rfl, hk⟩
  · rw [hx] at herror
    cases herror

theorem Delivers.of_quiet {x : M σ α} {v v' : σ} {a : α} (h : Delivers native x v a v') {n : Nat}
    (hquiet : Quiet native n) : ∃ k, n ≤ k ∧ exec x ⟨n, v⟩ = (.ok a, ⟨k, v'⟩) := by
  rcases h n with hok | ⟨_, k, hk, herror⟩
  · exact hok
  · exact absurd (hquiet k hk) herror

/-! ## Rules -/

theorem Delivers.pure (v : σ) (a : α) : Delivers native (Pure.pure a : M σ α) v a v :=
  fun n => .inl ⟨n, Nat.le_refl n, rfl⟩

theorem Delivers.value (v : σ) : Delivers native Native.value v v v :=
  fun n => .inl ⟨n, Nat.le_refl n, rfl⟩

theorem Delivers.update (f : σ → σ) (v : σ) : Delivers native (Native.update f) v () (f v) :=
  fun n => .inl ⟨n, Nat.le_refl n, rfl⟩

theorem Delivers.bind {x : M σ α} {f : α → M σ β} {v v' v'' : σ} {a : α} {b : β}
    (hx : Delivers native x v a v') (hf : Delivers native (f a) v' b v'') :
    Delivers native (x >>= f) v b v'' := by
  intro n
  rcases hx n with ⟨k, hk, hok⟩ | ⟨⟨stop, herror⟩, hstatus⟩
  · rw [exec_bind_of_ok hok]
    rcases hf k with ⟨m, hm, hok'⟩ | ⟨herror, m, hm, hstatus⟩
    · exact .inl ⟨m, Nat.le_trans hk hm, hok'⟩
    · exact .inr ⟨herror, m, Nat.le_trans hk hm, hstatus⟩
  · refine .inr ⟨⟨stop, ?_⟩, hstatus⟩
    rcases hresult : exec x ⟨n, v⟩ with ⟨_ | a, t⟩ <;> rw [hresult] at herror
    · cases herror
      rw [exec_bind_of_error hresult]
    · cases herror

theorem exec_value_eq_ok {s t : Called σ} {v : σ}
    (h : exec (Native.value : M σ σ) s = (.ok v, t)) : v = s.value ∧ t = s := by
  cases h
  exact ⟨rfl, rfl⟩

theorem exec_update_eq_ok {f : σ → σ} {s t : Called σ}
    (h : exec (Native.update f) s = (.ok (), t)) : t = { s with value := f s.value } := by
  cases h
  rfl

theorem exec_part_eq_ok {get : σ → τ} {put : τ → σ → σ} {x : M τ α} {s t : Called σ} {a : α}
    (h : exec (part get put x) s = (.ok a, t)) :
    ∃ u, exec x ⟨s.calls, get s.value⟩ = (.ok a, u) ∧ t = ⟨u.calls, put u.value s.value⟩ := by
  rw [Native.part, exec_focus] at h
  obtain ⟨hresult, rfl⟩ := Prod.mk.inj h
  exact ⟨_, Prod.ext hresult rfl, rfl⟩

theorem exec_withLocal_eq_ok {extra w : τ} {x : M (σ × τ) α} {s t : Called σ} {a : α}
    (h : exec (withLocal extra x) s = (.ok (a, w), t)) :
    exec x ⟨s.calls, s.value, extra⟩ = (.ok a, ⟨t.calls, t.value, w⟩) := by
  rw [withLocal, exec_bind_of_ok (exec_get _)] at h
  rcases hx : exec x ⟨s.calls, s.value, extra⟩ with ⟨_ | b, u⟩ <;> rw [hx] at h
  · cases h
  · cases h
    rfl

theorem exec_withLocal_of_ok {extra w : τ} {x : M (σ × τ) α} {s : Called σ} {n : Nat} {v : σ} {a : α}
    (h : exec x ⟨s.calls, s.value, extra⟩ = (.ok a, ⟨n, v, w⟩)) :
    exec (withLocal extra x) s = (.ok (a, w), ⟨n, v⟩) := by
  rw [withLocal, exec_bind_of_ok (exec_get _), h]
  rfl

/-- A program on a local variable alone. -/
theorem exec_withLocal_part (x : M τ α) (extra : τ) (s : Called σ) :
    exec (withLocal extra (part Prod.snd (fun t v => (v.1, t)) x)) s =
      match exec x ⟨s.calls, extra⟩ with
      | (.ok a, t) => (.ok (a, t.value), ⟨t.calls, s.value⟩)
      | (.error stop, t) => (.error stop, ⟨t.calls, s.value⟩) := by
  rw [withLocal, exec_bind_of_ok (exec_get _), Native.part]
  simp only [exec_focus]
  rcases exec x ⟨s.calls, extra⟩ with ⟨_ | a, t⟩ <;> rfl

theorem exec_value (s : Called σ) : exec (value : M σ σ) s = (.ok s.value, s) := rfl

theorem exec_update (f : σ → σ) (s : Called σ) :
    exec (update f) s = (.ok (), { s with value := f s.value }) := rfl

theorem exec_call (s : Called σ) :
    exec (call native) s = (.ok (native.status s.calls), { s with calls := s.calls + 1 }) := rfl

/-- A checked call that succeeds, in front of a program. -/
theorem exec_call_bind {s : Called σ} (h : native.status s.calls = .noError) (message : String)
    (rest : M σ α) : exec (do let result ← call native; result.throwIfError message; rest) s =
      exec rest { s with calls := s.calls + 1 } := by
  rw [exec_bind_of_ok (exec_call s), h]
  rfl

/-- A call whose status word is checked. -/
theorem Delivers.checkedCall (message : String) (v : σ) :
    Delivers native (do let result ← call native; result.throwIfError message) v () v := by
  intro n
  rw [exec_bind_of_ok (exec_call _)]
  by_cases hstatus : native.status n = .noError
  · simp only [hstatus]
    exact .inl ⟨n + 1, Nat.le_succ n, rfl⟩
  · have herror := Status.exec_throwIfError_of_ne hstatus message (⟨n + 1, v⟩ : Called σ)
    exact .inr ⟨⟨_, congrArg Prod.fst herror⟩, n, Nat.le_refl n, hstatus⟩

theorem Delivers.call_bind {rest : M σ β} {message : String} {v v' : σ} {b : β}
    (h : Delivers native rest v b v') :
    Delivers native (do let result ← call native; result.throwIfError message; rest) v b v' := by
  have hassoc : (do let result ← call native; result.throwIfError message; rest : M σ β) =
      (do let result ← call native; result.throwIfError message) >>= fun _ => rest := by
    simp only [bind_assoc]
  rw [hassoc]
  exact (Delivers.checkedCall message v).bind h

theorem Delivers.part {get : σ → τ} {put : τ → σ → σ} {x : M τ α} {v : σ} {a : α} {w : τ}
    (hx : Delivers native x (get v) a w) : Delivers native (part get put x) v a (put w v) := by
  intro n
  rcases hx n with ⟨k, hk, hok⟩ | ⟨⟨stop, herror⟩, hstatus⟩
  · refine .inl ⟨k, hk, ?_⟩
    rw [Native.part, exec_focus]
    simp only
    rw [hok]
  · refine .inr ⟨⟨stop, ?_⟩, hstatus⟩
    rw [Native.part, exec_focus]
    exact herror

theorem Delivers.withLocal {extra w : τ} {x : M (σ × τ) α} {v v' : σ} {a : α}
    (hx : Delivers native x (v, extra) a (v', w)) :
    Delivers native (withLocal extra x) v (a, w) v' := by
  intro n
  rw [Native.withLocal, exec_bind_of_ok (exec_get _)]
  rcases hx n with ⟨k, hk, hok⟩ | ⟨⟨stop, herror⟩, hstatus⟩
  · refine .inl ⟨k, hk, ?_⟩
    simp only
    rw [hok]
    rfl
  · refine .inr ⟨⟨stop, ?_⟩, hstatus⟩
    rcases hresult : exec x ⟨n, (v, extra)⟩ with ⟨_ | b, t⟩ <;> rw [hresult] at herror
    · cases herror
      rfl
    · cases herror

/-- An object of its own is changed by no other program. -/
theorem exec_onObject_eq_ok {object : τ} {x : M τ α} {s t : Called σ} {a : α}
    (h : exec (onObject object x) s = (.ok a, t)) :
    ∃ u, exec x ⟨s.calls, object⟩ = (.ok a, u) ∧ t = ⟨u.calls, s.value⟩ := by
  obtain ⟨⟨b, w⟩, u, hlocal, hpure⟩ := exec_bind_eq_ok h
  cases hpure
  rw [exec_withLocal_part] at hlocal
  rcases hx : exec x ⟨s.calls, object⟩ with ⟨_ | b, v⟩ <;> rw [hx] at hlocal
  · cases hlocal
  · cases hlocal
    exact ⟨v, rfl, rfl⟩

theorem exec_onCursor {cursor cursor' : Cursor} {x : Cursor.M α} {a : α}
    (h : exec x cursor = (.ok a, cursor')) (s : Called σ) :
    exec (onCursor cursor x) s = (.ok a, s) := by
  rw [onCursor, h]
  rfl

theorem exec_onCursor_eq_ok {cursor : Cursor} {x : Cursor.M α} {s t : Called σ} {a : α}
    (h : exec (onCursor cursor x) s = (.ok a, t)) :
    (∃ cursor', exec x cursor = (.ok a, cursor')) ∧ t = s := by
  unfold onCursor at h
  rcases hresult : exec x cursor with ⟨_ | b, cursor'⟩ <;> rw [hresult] at h
  · cases h
  · cases h
    exact ⟨⟨cursor', rfl⟩, rfl⟩

theorem Delivers.onCursor {cursor cursor' : Cursor} {x : Cursor.M α} {a : α}
    (h : exec x cursor = (.ok a, cursor')) (v : σ) :
    Delivers native (onCursor cursor x) v a v :=
  fun n => .inl ⟨n, Nat.le_refl n, exec_onCursor h _⟩

theorem exec_lockBlock {s : Called σ} (hstatus : native.status s.calls = .noError) :
    exec (lockBlock native) s = (.ok (), ⟨s.calls + 1, s.value⟩) := by
  rw [lockBlock, exec_bind_of_ok (exec_call s), hstatus]
  rfl

theorem exec_lockBlock_of_ne {s : Called σ} (hstatus : native.status s.calls ≠ .noError) :
    exec (lockBlock native) s = (.error (.throws
      (.invalidHandle "Memory pointed to by handle is empty")), ⟨s.calls + 1, s.value⟩) := by
  have herror : (native.status s.calls).isError = true := by simpa [Status.isError] using hstatus
  rw [lockBlock, exec_bind_of_ok (exec_call s), if_pos herror]
  rfl

theorem exec_allocate {size : Nat} (hsize : size ≠ 0) (hlimit : size < 2 ^ 32) {s : Called σ}
    (hstatus : native.status s.calls = .noError)
    (hlock : native.status (s.calls + 1) = .noError) : exec (allocate native size) s =
      (.ok (Cursor.make (some ((List.range size).map (native.garbage s.calls)))),
        ⟨s.calls + 2, s.value⟩) := by
  have hlocked := exec_lockBlock (s := ⟨s.calls + 1, s.value⟩) hlock
  rw [allocate, if_neg hsize, exec_bind_of_ok (exec_get _), exec_call_bind hstatus,
    exec_bind_of_ok hlocked, if_neg (Nat.not_le.mpr hlimit)]
  rfl

/-- Memory is refused when it is allocated, or when it is locked. -/
theorem exec_allocate_of_ne {size : Nat} (hsize : size ≠ 0) {s : Called σ}
    (hstatus : native.status s.calls = .noError → native.status (s.calls + 1) ≠ .noError) :
    ∃ error calls, exec (allocate native size) s = (.error (.throws error), ⟨calls, s.value⟩) ∧
      ∀ message, error ≠ .overflowError message := by
  rw [allocate, if_neg hsize, exec_bind_of_ok (exec_get _)]
  by_cases hallocated : native.status s.calls = .noError
  · have hlocked := exec_lockBlock_of_ne (s := ⟨s.calls + 1, s.value⟩) (hstatus hallocated)
    rw [exec_call_bind hallocated, exec_bind_of_error hlocked]
    exact ⟨_, _, rfl, by simp⟩
  · rw [exec_bind_of_ok (exec_call _),
      exec_bind_of_error (Status.exec_throwIfError_of_ne hallocated _ _)]
    exact ⟨_, _, rfl, by simp⟩

/-- Fresh memory may hold anything. -/
theorem Delivers.allocate_bind {size : Nat} (hsize : size ≠ 0) (hlimit : size < 2 ^ 32)
    {f : Cursor → M σ β} {v v' : σ} {b : β}
    (hf : ∀ c : Cursor, c.offset = 0 → c.buffer.length = size → Delivers native (f c) v b v') :
    Delivers native (allocate native size >>= f) v b v' := by
  intro n
  by_cases hquiet : native.status n = .noError ∧ native.status (n + 1) = .noError
  · rw [exec_bind_of_ok (exec_allocate hsize hlimit (s := ⟨n, v⟩) hquiet.1 hquiet.2)]
    rcases hf (Cursor.make (some ((List.range size).map (native.garbage n)))) rfl
        (by simp [Cursor.make]) (n + 2) with ⟨k, hk, hok'⟩ | ⟨hstop, k, hk, hstatus⟩
    · exact .inl ⟨k, by omega, hok'⟩
    · exact .inr ⟨hstop, k, by omega, hstatus⟩
  · have hstatus : native.status n = .noError → native.status (n + 1) ≠ .noError := not_and.mp hquiet
    obtain ⟨error, calls, herror, -⟩ := exec_allocate_of_ne hsize (s := ⟨n, v⟩) hstatus
    refine .inr ⟨⟨_, by rw [exec_bind_of_error herror]⟩, ?_⟩
    by_cases hallocated : native.status n = .noError
    · exact ⟨n + 1, Nat.le_succ n, hstatus hallocated⟩
    · exact ⟨n, Nat.le_refl n, hallocated⟩

/-- The block is a copy, and the cursor stands behind it. -/
theorem delivers_allocateCopy {buffer : List UInt8} (hsize : buffer ≠ [])
    (hlimit : buffer.length < 2 ^ 32) (v : σ) :
    Delivers native (allocateCopy native buffer) v (Cursor.filled buffer []) v := by
  refine .allocate_bind (mt List.length_eq_zero_iff.mp hsize) hlimit fun c hoffset hlength => ?_
  have hfilled : c = Cursor.filled [] c.buffer := by
    cases c
    cases hoffset
    rfl
  have hwrite : exec (Cursor.write buffer) c = (.ok (), Cursor.filled buffer []) := by
    have hsmall : ([] : List UInt8).length + c.buffer.length < 2 ^ 32 := by
      rw [hlength, List.length_nil, Nat.zero_add]
      exact hlimit
    rw [hfilled, Cursor.exec_write_filled (Nat.le_of_eq hlength.symm) hsmall, ← hlength,
      List.drop_length, List.nil_append]
  exact .onCursor ((exec_bind_of_ok hwrite).trans (exec_get _)) v

theorem delivers_checkedCast {n : Nat} (h : n < 2 ^ 16) (v : σ) :
    Delivers native (checkedCast n : M σ UInt16) v (UInt16.ofNat n) v := by
  unfold checkedCast
  rw [if_pos h]
  exact .pure v _

/-! ## Programs that only read -/

variable (native) in
/-- In the value `v`, the program ends with the result and leaves `v`, unless one of its own native
calls reports an error. Then it throws, and leaves `v` as well. -/
def Answers (x : M σ α) (v : σ) (result : Except Stop α) : Prop :=
  ∀ n, ∃ k, n ≤ k ∧ (exec x ⟨n, v⟩ = (result, ⟨k, v⟩) ∨
    (∃ error, exec x ⟨n, v⟩ = (.error (.throws error), ⟨k, v⟩)) ∧
      ∃ m, n ≤ m ∧ m < k ∧ native.status m ≠ .noError)

section Answers

variable {x : M σ α} {f : α → M σ β} {v : σ} {a : α} {result : Except Stop β}

theorem Answers.pure (v : σ) (a : α) : Answers native (Pure.pure a : M σ α) v (.ok a) :=
  fun n => ⟨n, Nat.le_refl n, .inl rfl⟩

theorem Answers.throw (v : σ) (stop : Stop) :
    Answers native (MonadExcept.throw stop : M σ α) v (.error stop) :=
  fun n => ⟨n, Nat.le_refl n, .inl rfl⟩

theorem Answers.bind (hx : Answers native x v (.ok a)) (hf : Answers native (f a) v result) :
    Answers native (x >>= f) v result := by
  intro n
  obtain ⟨k, hk, hok | ⟨⟨error, herror⟩, hstatus⟩⟩ := hx n
  · obtain ⟨m, hm, hresult⟩ := hf k
    rw [exec_bind_of_ok hok]
    refine ⟨m, Nat.le_trans hk hm, hresult.imp_right ?_⟩
    rintro ⟨hthrows, j, hj, hlt, hstatus⟩
    exact ⟨hthrows, j, Nat.le_trans hk hj, hlt, hstatus⟩
  · exact ⟨k, hk, .inr ⟨⟨error, exec_bind_of_error herror⟩, hstatus⟩⟩

end Answers

/-! ## Programs whose calls succeed -/

variable (native) in
/-- In the value `v`, the program returns `a` and leaves `v'` if no native call reports an
error. -/
def Yields (x : M σ α) (v : σ) (a : α) (v' : σ) : Prop :=
  ∀ n, Quiet native n → ∃ k, n ≤ k ∧ exec x ⟨n, v⟩ = (.ok a, ⟨k, v'⟩)

theorem Quiet.mono {n k : Nat} (h : Quiet native n) (hle : n ≤ k) : Quiet native k :=
  fun m hm => h m (Nat.le_trans hle hm)

theorem Delivers.yields {x : M σ α} {v v' : σ} {a : α} (h : Delivers native x v a v') :
    Yields native x v a v' := fun _ hquiet => h.of_quiet hquiet

theorem Yields.bind {x : M σ α} {f : α → M σ β} {v v' v'' : σ} {a : α} {b : β}
    (hx : Yields native x v a v') (hf : Yields native (f a) v' b v'') :
    Yields native (x >>= f) v b v'' := by
  intro n hquiet
  obtain ⟨k, hk, hx⟩ := hx n hquiet
  obtain ⟨m, hm, hf⟩ := hf k (hquiet.mono hk)
  exact ⟨m, Nat.le_trans hk hm, (exec_bind_of_ok hx).trans hf⟩

theorem Yields.tryCatch {x : M σ α} {f : Stop → M σ α} {v v' : σ} {a : α}
    (hx : Yields native x v a v') : Yields native (MonadExcept.tryCatch x f) v a v' := by
  intro n hquiet
  obtain ⟨k, hk, hx⟩ := hx n hquiet
  refine ⟨k, hk, ?_⟩
  rw [exec_tryCatch, hx]

theorem Yields.call (v : σ) : Yields native (Native.call native) v .noError v := by
  intro n hquiet
  refine ⟨n + 1, Nat.le_succ n, ?_⟩
  rw [exec_call, hquiet n (Nat.le_refl n)]

/-! ## Programs that change nothing -/

/-- The program leaves the value as it is, however it ends. -/
def Reads (x : M σ α) : Prop := ∀ s, (exec x s).2.value = s.value

theorem Reads.of_ok {x : M σ α} {s t : Called σ} {a : α} (hx : Reads x)
    (h : exec x s = (.ok a, t)) : t.value = s.value := by
  have ht := hx s
  rw [h] at ht
  exact ht

theorem Reads.pure (a : α) : Reads (Pure.pure a : M σ α) := fun _ => rfl

theorem Reads.throw (stop : Stop) : Reads (MonadExcept.throw stop : M σ α) := fun _ => rfl

theorem Reads.value : Reads (Native.value : M σ σ) := fun _ => rfl

theorem Reads.call : Reads (call native : M σ Status) := fun _ => rfl

theorem Reads.throwIfError (status : Status) (message : String) :
    Reads (status.throwIfError message : M σ Unit) := by
  unfold Status.throwIfError
  split
  · exact .throw _
  · exact .pure _

theorem Reads.bind {x : M σ α} {f : α → M σ β} (hx : Reads x) (hf : ∀ a, Reads (f a)) :
    Reads (x >>= f) := by
  intro s
  have hxs := hx s
  rw [exec_bind]
  rcases hresult : exec x s with ⟨_ | a, t⟩ <;> rw [hresult] at hxs
  · exact hxs
  · exact (hf a t).trans hxs

theorem Reads.part {get : σ → τ} {put : τ → σ → σ} {x : M τ α} (hx : Reads x)
    (hput : ∀ s, put (get s) s = s) : Reads (part get put x) := by
  intro s
  have hxs : (exec x ⟨s.calls, get s.value⟩).2.value = get s.value := hx _
  rw [Native.part, exec_focus]
  simp only [hxs, hput]

theorem Reads.lockBlock : Reads (lockBlock native : M σ Unit) := by
  refine .bind .call fun result => ?_
  split
  · exact .throw _
  · exact .pure _

theorem Reads.allocate (size : Nat) : Reads (allocate native size : M σ Cursor) := by
  unfold Native.allocate
  split
  · exact .throw _
  · have hget : Reads (get : M σ (Called σ)) := fun _ => rfl
    refine hget.bind fun _ => .bind .call fun _ => .bind (.throwIfError _ _) fun _ =>
      .bind .lockBlock fun _ => ?_
    split
    · exact .throw _
    · exact .pure _

/-- Memory that was allocated is new, and its view has the size that was asked for. -/
theorem exec_allocate_eq_ok {size : Nat} {s t : Called σ} {c : Cursor}
    (h : exec (allocate native size) s = (.ok c, t)) :
    t.value = s.value ∧ size < 2 ^ 32 ∧ c.offset = 0 ∧ c.buffer.length = size := by
  have hvalue := (Reads.allocate size).of_ok h
  refine ⟨hvalue, ?_⟩
  unfold allocate at h
  split at h
  · cases h
  · obtain ⟨_, _, _, h⟩ := exec_bind_eq_ok h
    obtain ⟨_, _, _, h⟩ := exec_bind_eq_ok h
    obtain ⟨_, _, _, h⟩ := exec_bind_eq_ok h
    obtain ⟨_, _, _, h⟩ := exec_bind_eq_ok h
    split at h
    · cases h
    · next hlimit =>
      cases h
      exact ⟨Nat.lt_of_not_le hlimit, rfl, by simp [Cursor.make]⟩

theorem Reads.checkedCast (n : Nat) : Reads (checkedCast n : M σ UInt16) := by
  unfold Dmn.checkedCast
  split
  · exact .pure _
  · exact .throw _

/-! ## Programs that change nothing when they stop -/

/-- A program that stops leaves the value as it is. -/
def Atomic (x : M σ α) : Prop := ∀ s t stop, exec x s = (.error stop, t) → t.value = s.value

theorem Reads.atomic {x : M σ α} (hx : Reads x) : Atomic x := by
  intro s t stop h
  have hs := hx s
  rwa [h] at hs

theorem Atomic.update (f : σ → σ) : Atomic (Native.update f) := by
  intro s t stop h
  cases h

theorem Atomic.bind {x : M σ α} {f : α → M σ β} (hx : Reads x) (hf : ∀ a, Atomic (f a)) :
    Atomic (x >>= f) := by
  intro s t stop h
  have hs := hx s
  rw [exec_bind] at h
  rcases hresult : exec x s with ⟨_ | a, u⟩ <;> rw [hresult] at h hs
  · cases h
    exact hs
  · exact (hf a u t stop h).trans hs

theorem Atomic.part {get : σ → τ} {put : τ → σ → σ} {x : M τ α} (hx : Atomic x)
    (hput : ∀ s, put (get s) s = s) : Atomic (part get put x) := by
  intro s t stop h
  rw [Native.part, exec_focus] at h
  obtain ⟨hstop, rfl⟩ := Prod.mk.inj h
  have hvalue := hx ⟨s.calls, get s.value⟩ _ stop (Prod.ext hstop rfl)
  simp only [hvalue, hput]

/-- Where the program, started in `v`, stops, it leaves a value with `P`. -/
def Leaves (x : M σ α) (v : σ) (P : σ → Prop) : Prop :=
  ∀ n stop t, exec x ⟨n, v⟩ = (.error stop, t) → P t.value

theorem Atomic.leaves {x : M σ α} {v : σ} {P : σ → Prop} (hx : Atomic x) (h : P v) :
    Leaves x v P := by
  intro n stop t hstop
  rw [hx ⟨n, v⟩ t stop hstop]
  exact h

theorem Leaves.bind {x : M σ α} {f : α → M σ β} {v v' : σ} {a : α} {P : σ → Prop}
    (hx : Leaves x v P) (hreturns : Delivers native x v a v') (hf : Leaves (f a) v' P) :
    Leaves (x >>= f) v P := by
  intro n stop t h
  rw [exec_bind] at h
  rcases hresult : exec x ⟨n, v⟩ with ⟨_ | b, u⟩ <;> rw [hresult] at h
  · cases h
    exact hx n _ _ hresult
  · obtain ⟨rfl, hu, _⟩ := hreturns.of_ok hresult
    cases u
    cases hu
    exact hf _ stop t h

theorem Leaves.value_bind {f : σ → M σ α} {v : σ} {P : σ → Prop} (hf : Leaves (f v) v P) :
    Leaves (Native.value >>= f) v P := hf

theorem Leaves.update_bind {g : σ → σ} {f : Unit → M σ α} {v : σ} {P : σ → Prop}
    (hf : Leaves (f ()) (g v) P) : Leaves (Native.update g >>= f) v P := hf

theorem Leaves.bind_reads {x : M σ α} {f : α → M σ β} {v : σ} {P : σ → Prop} (hx : Reads x)
    (h : P v) (hf : ∀ a, Leaves (f a) v P) : Leaves (x >>= f) v P := by
  intro n stop t hstop
  have hs := hx ⟨n, v⟩
  rw [exec_bind] at hstop
  rcases hresult : exec x ⟨n, v⟩ with ⟨_ | a, u⟩ <;> rw [hresult] at hstop hs
  · cases hstop
    rwa [hs]
  · cases u
    cases hs
    exact hf a _ stop t hstop

theorem Leaves.map {x : M σ α} {v : σ} {P : σ → Prop} (hx : Leaves x v P) (g : α → β) :
    Leaves (do let a ← x; Pure.pure (g a)) v P := by
  intro n stop t hstop
  rw [exec_bind] at hstop
  rcases hresult : exec x ⟨n, v⟩ with ⟨_ | a, u⟩ <;> rw [hresult] at hstop
  · cases hstop
    exact hx n _ _ hresult
  · cases hstop

theorem Leaves.withLocal {extra : τ} {x : M (σ × τ) α} {v : σ} {P : σ → Prop}
    (hx : Leaves x (v, extra) fun v => P v.1) : Leaves (Native.withLocal extra x) v P := by
  intro n stop t hstop
  rw [Native.withLocal, exec_bind_of_ok (exec_get _)] at hstop
  rcases hresult : exec x ⟨n, v, extra⟩ with ⟨_ | a, u⟩ <;> rw [hresult] at hstop
  · cases hstop
    exact hx n _ u hresult
  · cases hstop

/-! ## Invariants of the value -/

/-- The program keeps a property of the value, however it ends. -/
abbrev Preserves (I : σ → Prop) (x : M σ α) : Prop := Keeps (fun s => I s.value) x

theorem Reads.preserves {I : σ → Prop} {x : M σ α} (hx : Reads x) : Preserves I x := by
  intro s hs
  show I (exec x s).2.value
  rw [hx s]
  exact hs

theorem Preserves.of_ok {I : σ → Prop} {x : M σ α} {s t : Called σ} {a : α}
    (h : exec x s = (.ok a, t)) (hs : I s.value) (hx : Preserves I x) : I t.value := by
  have ht := hx s hs
  rw [h] at ht
  exact ht

theorem preserves_behind {I : σ → Prop} {x : M σ α} {f : α → M σ β} {s : Called σ}
    (hx : I (exec x s).2.value) (hf : ∀ a, Preserves I (f a)) : I (exec (x >>= f) s).2.value :=
  keeps_behind (I := fun t : Called σ => I t.value) hx hf

theorem Preserves.update {I : σ → Prop} {f : σ → σ} (h : ∀ v, I v → I (f v)) :
    Preserves I (Native.update f) := fun _ hs => h _ hs

theorem Preserves.part {I : σ → Prop} {J : τ → Prop} {get : σ → τ} {put : τ → σ → σ} {x : M τ α}
    (hx : Preserves J x) (hget : ∀ v, I v → J (get v)) (hput : ∀ t v, J t → I v → I (put t v)) :
    Preserves I (Native.part get put x) := fun s hs =>
  hput _ _ (hx ⟨s.calls, get s.value⟩ (hget _ hs)) hs

/-- Nothing is known about the part that the program works on. -/
theorem Preserves.part_of_put {I : σ → Prop} {get : σ → τ} {put : τ → σ → σ} {x : M τ α}
    (hput : ∀ t v, I v → I (put t v)) : Preserves I (Native.part get put x) :=
  fun _ hs => hput _ _ hs

theorem Preserves.withLocal {I : σ → Prop} {extra : τ} {x : M (σ × τ) α}
    (hx : Preserves (fun v => I v.1) x) : Preserves I (Native.withLocal extra x) := by
  intro s hs
  have hxs := hx ⟨s.calls, s.value, extra⟩ hs
  rw [Native.withLocal, exec_bind_of_ok (exec_get _)]
  rcases hresult : exec x ⟨s.calls, s.value, extra⟩ with ⟨_ | a, t⟩ <;> rw [hresult] at hxs
  · exact hxs
  · exact hxs

/-! ## Contracts -/

theorem meets_value_bind {P : Called σ → Prop} {f : σ → M σ α} {Q : α → Called σ → Prop}
    {E : Stop → Called σ → Prop} (h : ∀ v, Meets (fun s => P s ∧ s.value = v) (f v) Q E) :
    Meets P (Native.value >>= f) Q E := by
  refine Meets.bind (Q := fun v s => P s ∧ s.value = v) ?_ h
  exact fun s hs => ⟨hs, rfl⟩

theorem meets_update {P : Called σ → Prop} {f : σ → σ} {Q : Unit → Called σ → Prop}
    {E : Stop → Called σ → Prop} (h : ∀ s, P s → Q () { s with value := f s.value }) :
    Meets P (Native.update f) Q E := h

/-- A call may report anything, and leaves the value. -/
theorem meets_call {P : Called σ → Prop} {E : Stop → Called σ → Prop}
    (h : ∀ s, P s → P { s with calls := s.calls + 1 }) :
    Meets P (Native.call native) (fun _ => P) E := h

theorem meets_throwIfError_of_isError {P : Called σ → Prop} {E : Stop → Called σ → Prop}
    {result : Status} {message : String}
    (h : result.isError = true → ∀ s, P s → E (.throws (.nativeError message result)) s) :
    Meets P (result.throwIfError message : M σ Unit)
      (fun _ s => P s ∧ result.isError = false) E := by
  unfold Status.throwIfError
  cases herror : result.isError with
  | true => exact Meets.throw (h herror)
  | false => exact Meets.pure fun _ hs => ⟨hs, rfl⟩

theorem meets_throwIfError {P : Called σ → Prop} {E : Stop → Called σ → Prop} {result : Status}
    {message : String} (h : ∀ s, P s → E (.throws (.nativeError message result)) s) :
    Meets P (result.throwIfError message : M σ Unit) (fun _ => P) E :=
  (meets_throwIfError_of_isError fun _ => h).weaken (fun _ hs => hs) (fun _ _ hs => hs.1)
    fun _ _ hs => hs

/-- A checked call in front of a program. -/
theorem meets_call_bind {P : Called σ → Prop} {rest : M σ α} {Q : α → Called σ → Prop}
    {E : Stop → Called σ → Prop} {message : String}
    (hcall : ∀ s, P s → P { s with calls := s.calls + 1 })
    (hstop : ∀ stop s, P s → E stop s) (hrest : Meets P rest Q E) :
    Meets P (do let result ← call native; result.throwIfError message; rest) Q E :=
  (meets_call hcall).bind fun _ => (meets_throwIfError fun s hs => hstop _ s hs).bind fun _ => hrest

end Dmn.Native
