import Dmn.Library.Run
import Dmn.Model.Cursor

/-! # Bounds of cursor operations

The check of a transfer compares a 64-bit sum of the offset and the low 32 bits of the
size. It agrees with the real bound except where that sum comes round past `2 ^ 64`, or
where the bits cut off the size are the ones that matter. -/

namespace Dmn.Cursor

open Exec

/-! ## Operations of a cursor -/

/-- The public operations. `resetTo` starts to view another block. -/
inductive Op (Obj : Type) where
  | write (buffer : List UInt8)
  | read (n : Nat)
  | writeObject (value : Obj) (typ : Option OdsType)
  | readObject (sizeOf : Nat) (typ : Option OdsType)
  | advanceOffset (amount : UInt64)
  | setOffset (position : UInt64)
  | reset
  | resetTo (block : List UInt8)

variable {Obj : Type} (ods : Ods Obj)

def perform : Op Obj → M Unit
  | .write buffer => write buffer
  | .read n => do let _ ← read n; pure ()
  | .writeObject value typ => writeObject ods value typ
  | .readObject sizeOf typ => do let _ ← readObject ods sizeOf typ; pure ()
  | .advanceOffset amount => advanceOffset amount
  | .setOffset position => setOffset position
  | .reset => reset
  | .resetTo block => resetTo block

/-- The number of bytes that a read or write is asked to copy. -/
def transferSize : Op Obj → Option Nat
  | .write buffer => some buffer.length
  | .read n => some n
  | .writeObject _ (some typ) => some (ods.size typ).toNat
  | .writeObject value none => some (ods.bytes value).length
  | .readObject _ (some typ) => some (ods.size typ).toNat
  | .readObject sizeOf none => some sizeOf
  | _ => none

def step (c : Cursor) (op : Op Obj) : Cursor := (exec (perform ods op) c).2

/-! ## The bound check -/

/-- What `ensure_bounds` compares with the size of the block. -/
def checkedEnd (c : Cursor) (n : Nat) : Nat := (c.offset.toNat + n % 2 ^ 32) % 2 ^ 64

theorem exec_ensureBounds (c : Cursor) (n : Nat) :
    exec (ensureBounds (UInt32.ofNat n)) c =
      if c.buffer.length < checkedEnd c n then
        (.error (.throws (.outOfRange "Memory read out of range")), c)
      else (.ok (), c) := by
  have hsum : (c.offset + (UInt32.ofNat n).toUInt64).toNat = checkedEnd c n := by
    simp [checkedEnd, UInt64.toNat_add]
  simp only [ensureBounds, exec_bind, exec_get, hsum, gt_iff_lt]
  split <;> rfl

theorem exec_load (c : Cursor) (n : Nat) :
    exec (load n) c =
      if n = 0 ∨ c.offset.toNat + n ≤ c.buffer.length then
        (.ok ((c.buffer.drop c.offset.toNat).take n), c)
      else (.error .undefined, c) := by
  simp only [load, exec_bind, exec_get]
  split <;> rfl

theorem exec_store (c : Cursor) (bytes : List UInt8) :
    exec (store bytes) c =
      if bytes.length = 0 ∨ c.offset.toNat + bytes.length ≤ c.buffer.length then
        (.ok (), { c with buffer := c.overwritten bytes })
      else (.error .undefined, c) := by
  simp only [store, exec_bind, exec_get, List.length_eq_zero_iff]
  split <;> rfl

/-- A read that returns has copied the bytes behind the offset. -/
theorem exec_read_eq_ok {c c' : Cursor} {n : Nat} {bytes : List UInt8}
    (h : exec (read n) c = (.ok bytes, c')) :
    bytes = (c.buffer.drop c.offset.toNat).take n ∧ c'.buffer = c.buffer ∧
      (n = 0 ∨ c.offset.toNat + n ≤ c.buffer.length) := by
  obtain ⟨_, t, hcheck, hrest⟩ := exec_bind_eq_ok h
  rw [exec_ensureBounds] at hcheck
  split at hcheck
  · cases hcheck
  · cases hcheck
    obtain ⟨loaded, t, hload, hrest⟩ := exec_bind_eq_ok hrest
    rw [exec_load] at hload
    split at hload
    · rename_i hfit
      cases hload
      cases hrest
      exact ⟨rfl, rfl, hfit⟩
    · cases hload

/-- A write is refused with nothing changed, or puts the bytes into the block. -/
theorem exec_write_cases (c : Cursor) (bytes : List UInt8) :
    (∃ stop, exec (write bytes) c = (.error stop, c)) ∨
      (bytes.length = 0 ∨ c.offset.toNat + bytes.length ≤ c.buffer.length) ∧
        exec (write bytes) c =
          (.ok (), ⟨c.overwritten bytes, c.offset + UInt64.ofNat bytes.length⟩) := by
  rw [write, exec_bind, exec_ensureBounds]
  by_cases hcheck : c.buffer.length < checkedEnd c bytes.length
  · rw [if_pos hcheck]
    exact .inl ⟨_, rfl⟩
  · rw [if_neg hcheck]
    simp only
    rw [exec_bind, exec_store]
    by_cases hfit : bytes.length = 0 ∨ c.offset.toNat + bytes.length ≤ c.buffer.length
    · rw [if_pos hfit]
      exact .inr ⟨hfit, rfl⟩
    · rw [if_neg hfit]
      exact .inl ⟨_, rfl⟩

/-! ## Integers -/

@[simp] theorem length_integerBytes (k n : Nat) : (integerBytes k n).length = k := by
  induction k generalizing n with
  | zero => rfl
  | succ k ih => simp [integerBytes, ih]

theorem littleEndian_integerBytes (k n : Nat) :
    littleEndian (integerBytes k n) = n % 256 ^ k := by
  induction k generalizing n with
  | zero => simp [integerBytes, littleEndian, Nat.mod_one]
  | succ k ih =>
      have hrest : littleEndian (integerBytes (k + 1) n) =
          n % 256 + 256 * littleEndian (integerBytes k (n / 256)) := by
        simp [integerBytes, littleEndian]
      rw [hrest, ih, Nat.pow_succ', Nat.mod_mul]

theorem littleEndian_cons (byte : UInt8) (bytes : List UInt8) :
    littleEndian (byte :: bytes) = byte.toNat + 256 * littleEndian bytes := rfl

theorem littleEndian_lt (bytes : List UInt8) : littleEndian bytes < 256 ^ bytes.length := by
  induction bytes with
  | nil => simp [littleEndian]
  | cons byte bytes ih =>
      have hbyte := byte.toNat_lt
      rw [littleEndian_cons, List.length_cons, Nat.pow_succ]
      omega

theorem integerBytes_littleEndian (bytes : List UInt8) :
    integerBytes bytes.length (littleEndian bytes) = bytes := by
  induction bytes with
  | nil => rfl
  | cons byte bytes ih =>
      have hbyte := byte.toNat_lt
      have hrest : (byte.toNat + 256 * littleEndian bytes) / 256 = littleEndian bytes := by omega
      have hfirst : UInt8.ofNat (byte.toNat + 256 * littleEndian bytes) = byte := by
        rw [← UInt8.toNat_inj, UInt8.toNat_ofNat']
        omega
      rw [littleEndian_cons, List.length_cons, integerBytes, hrest, hfirst, ih]

/-! ## Filling a block -/

/-- A cursor behind the bytes already written, in front of the rest of its block. -/
def filled (written rest : List UInt8) : Cursor :=
  ⟨written ++ rest, UInt64.ofNat written.length⟩

theorem exec_write_filled {written rest bytes : List UInt8} (hfit : bytes.length ≤ rest.length)
    (hsize : written.length + rest.length < 2 ^ 32) :
    exec (write bytes) (filled written rest) =
      (.ok (), filled (written ++ bytes) (rest.drop bytes.length)) := by
  have hoffset : (filled written rest).offset.toNat = written.length := by
    simp only [filled, UInt64.toNat_ofNat']
    omega
  have hlength : (filled written rest).buffer.length = written.length + rest.length := by
    simp [filled]
  have hcheck : ¬ (filled written rest).buffer.length <
      checkedEnd (filled written rest) bytes.length := by
    unfold checkedEnd
    omega
  rw [write, exec_bind, exec_ensureBounds, if_neg hcheck]
  simp only
  rw [exec_bind, exec_store, if_pos (by omega)]
  simp only [advanceOffset, exec_modify, Cursor.overwritten, hoffset]
  simp only [filled, List.take_left', List.drop_append, List.append_assoc, List.length_append]
  rw [List.drop_eq_nil_of_le (by omega), Nat.add_sub_cancel_left, List.nil_append,
    UInt64.ofNat_add]

/-- A write that is not refused had room behind what was written before. -/
theorem exec_write_filled_eq_ok {written rest bytes : List UInt8} {c : Cursor}
    (hsize : written.length + rest.length < 2 ^ 32)
    (h : exec (write bytes) (filled written rest) = (.ok (), c)) :
    bytes.length ≤ rest.length ∧ c = filled (written ++ bytes) (rest.drop bytes.length) := by
  have hfit : bytes.length ≤ rest.length := by
    rcases exec_write_cases (filled written rest) bytes with ⟨stop, herror⟩ | ⟨hfit, _⟩
    · rw [h] at herror
      cases herror
    · simp only [filled, UInt64.toNat_ofNat', List.length_append] at hfit
      omega
  rw [exec_write_filled hfit hsize] at h
  cases h
  exact ⟨hfit, rfl⟩

theorem writeObject_some {Obj : Type} (ods : Ods Obj) (value : Obj) (typ : OdsType) :
    writeObject ods value (some typ) = write (ods.write typ value) := by
  simp only [writeObject, write, ods.length_write]

/-! ## One operation -/

/-- The three ways a transfer can end: refused by the check with nothing changed, all
bytes copied inside the block, or let through although it leaves the block. -/
inductive Transfer {α : Type} (c : Cursor) (n : Nat) : Except Stop α × Cursor → Prop where
  | refused : c.buffer.length < checkedEnd c n →
      Transfer c n (.error (.throws (.outOfRange "Memory read out of range")), c)
  | copied (a : α) (next : Cursor) : checkedEnd c n ≤ c.buffer.length →
      (∀ i < n, c.offset.toNat + i < c.buffer.length) → Transfer c n (.ok a, next)
  | outside : checkedEnd c n ≤ c.buffer.length → c.buffer.length < c.offset.toNat + n →
      Transfer c n (.error .undefined, c)

/-- A copy of `n` bytes between the check and the advance, as all four transfers do it. -/
private theorem transfer_of_copy {α β : Type} (c : Cursor) (n : Nat) (copy : M α)
    (hcopy : ∃ a next, exec copy c =
      if n = 0 ∨ c.offset.toNat + n ≤ c.buffer.length then (.ok a, next)
      else (.error .undefined, c)) (finish : α → M β)
    (hfinish : ∀ a next, ∃ b last, exec (finish a) next = (.ok b, last)) :
    Transfer c n (exec (do ensureBounds (UInt32.ofNat n); let a ← copy; finish a) c) := by
  obtain ⟨a, next, hcopy⟩ := hcopy
  rw [exec_bind, exec_ensureBounds]
  by_cases hcheck : c.buffer.length < checkedEnd c n
  · rw [if_pos hcheck]
    exact .refused hcheck
  · rw [if_neg hcheck]
    simp only
    rw [exec_bind, hcopy]
    have hcheck : checkedEnd c n ≤ c.buffer.length := Nat.le_of_not_gt hcheck
    by_cases hfit : n = 0 ∨ c.offset.toNat + n ≤ c.buffer.length
    · rw [if_pos hfit]
      obtain ⟨b, last, hlast⟩ := hfinish a next
      simp only [hlast]
      exact .copied b last hcheck (by intro i hi; omega)
    · rw [if_neg hfit]
      exact .outside hcheck (by omega)

private theorem Transfer.discard {α : Type} {c : Cursor} {n : Nat} {x : M α}
    (h : Transfer c n (exec x c)) : Transfer c n (exec (do let _ ← x; pure ()) c) := by
  generalize hresult : exec x c = result at h
  rw [exec_bind, hresult]
  cases h with
  | refused hcheck => exact .refused hcheck
  | copied a next hcheck hinside => exact .copied () next hcheck hinside
  | outside hcheck hend => exact .outside hcheck hend

theorem perform_transfer (c : Cursor) (op : Op Obj) {n : Nat}
    (h : transferSize ods op = some n) : Transfer c n (exec (perform ods op) c) := by
  have hadvance : ∀ (amount : UInt64) (next : Cursor),
      ∃ b last, exec (advanceOffset amount) next = (.ok b, last) := fun _ _ => ⟨_, _, rfl⟩
  have hload : ∀ n, ∃ a next, exec (load n) c =
      if n = 0 ∨ c.offset.toNat + n ≤ c.buffer.length then (.ok a, next)
      else (.error .undefined, c) := fun n => ⟨_, _, exec_load c n⟩
  have hstore : ∀ bytes : List UInt8, ∃ a next, exec (store bytes) c =
      if bytes.length = 0 ∨ c.offset.toNat + bytes.length ≤ c.buffer.length then (.ok a, next)
      else (.error .undefined, c) := fun bytes => ⟨_, _, exec_store c bytes⟩
  cases op with
  | write buffer =>
      obtain rfl : buffer.length = n := by simpa [transferSize] using h
      exact transfer_of_copy c _ (store buffer) (hstore buffer) _ fun _ => hadvance _
  | read m =>
      obtain rfl : m = n := by simpa [transferSize] using h
      exact (transfer_of_copy c m (load m) (hload m) _ fun _ _ => ⟨_, _, rfl⟩).discard
  | writeObject value typ =>
      cases typ with
      | none =>
          obtain rfl : (ods.bytes value).length = n := by simpa [transferSize] using h
          exact transfer_of_copy c _ (store _) (hstore _) _ fun _ => hadvance _
      | some typ =>
          obtain rfl : (ods.size typ).toNat = n := by simpa [transferSize] using h
          have hs := hstore (ods.write typ value)
          rw [ods.length_write] at hs
          exact transfer_of_copy c _ (store _) hs _ fun _ => hadvance _
  | readObject sizeOf typ =>
      cases typ with
      | none =>
          obtain rfl : sizeOf = n := by simpa [transferSize] using h
          exact (transfer_of_copy c _ (load _) (hload _) _ fun _ _ => ⟨_, _, rfl⟩).discard
      | some typ =>
          obtain rfl : (ods.size typ).toNat = n := by simpa [transferSize] using h
          exact (transfer_of_copy c _ (load _) (hload _) _ fun _ _ => ⟨_, _, rfl⟩).discard
  | advanceOffset amount => simp [transferSize] at h
  | setOffset position => simp [transferSize] at h
  | reset => simp [transferSize] at h
  | resetTo block => simp [transferSize] at h

/-! ## Safety of runs -/

/-- A transfer throws `out_of_range` and changes neither block nor offset, or it completes
and every byte it copies lies inside the block. -/
def StepSafe (c : Cursor) (op : Op Obj) : Prop :=
  ∀ n, transferSize ods op = some n →
    exec (perform ods op) c = (.error (.throws (.outOfRange "Memory read out of range")), c) ∨
    (exec (perform ods op) c).1 = .ok () ∧ ∀ i < n, c.offset.toNat + i < c.buffer.length

/-- The offset plus the low 32 bits of the size comes round past `2 ^ 64` to a value that
the block can hold, although the transfer ends behind the block. -/
def Wraps (c : Cursor) (n : Nat) : Prop :=
  2 ^ 64 ≤ c.offset.toNat + n % 2 ^ 32 ∧
    c.offset.toNat + n % 2 ^ 32 - 2 ^ 64 ≤ c.buffer.length ∧
    c.buffer.length < c.offset.toNat + n

/-- The size has more than 32 bits, and the block holds only its low 32 bits. -/
def Narrows (c : Cursor) (n : Nat) : Prop :=
  2 ^ 32 ≤ n ∧ c.offset.toNat + n % 2 ^ 32 ≤ c.buffer.length ∧
    c.buffer.length < c.offset.toNat + n

instance (c : Cursor) (n : Nat) : Decidable (Wraps c n) := by unfold Wraps; infer_instance

instance (c : Cursor) (n : Nat) : Decidable (Narrows c n) := by unfold Narrows; infer_instance

/-- The condition on a step: neither defect of the check is reached. -/
def Checkable (c : Cursor) (op : Op Obj) : Prop :=
  ∀ n, transferSize ods op = some n → ¬ Wraps c n ∧ ¬ Narrows c n

theorem wraps_or_narrows_iff (c : Cursor) (n : Nat) :
    Wraps c n ∨ Narrows c n ↔
      checkedEnd c n ≤ c.buffer.length ∧ c.buffer.length < c.offset.toNat + n := by
  have ho := c.offset.toNat_lt
  unfold Wraps Narrows checkedEnd
  omega

theorem stepSafe_iff_checkable (c : Cursor) (op : Op Obj) :
    StepSafe ods c op ↔ Checkable ods c op := by
  refine forall_congr' fun n => imp_congr_right fun hn => ?_
  rw [← not_or, wraps_or_narrows_iff]
  generalize hresult : exec (perform ods op) c = result
  have htransfer := perform_transfer ods c op hn
  rw [hresult] at htransfer
  cases htransfer with
  | refused hcheck =>
      refine iff_of_true (Or.inl rfl) ?_
      omega
  | copied a next hcheck hinside =>
      refine iff_of_true (Or.inr ⟨rfl, hinside⟩) ?_
      rintro ⟨_, hend⟩
      rcases Nat.eq_zero_or_pos n with rfl | hpos
      · have ho := c.offset.toNat_lt
        simp only [checkedEnd] at hcheck
        omega
      · have := hinside (n - 1) (by omega)
        omega
  | outside hcheck hend =>
      refine iff_of_false ?_ (not_not_intro ⟨hcheck, hend⟩)
      simp

/-- Along every run, all transfers are safe exactly when none of them reaches a defect of
the bound check. -/
theorem run_safe_iff_checkable (c : Cursor) (ops : List (Op Obj)) :
    Run.Along (step ods) (StepSafe ods) c ops ↔ Run.Along (step ods) (Checkable ods) c ops :=
  Run.along_congr (stepSafe_iff_checkable ods) c ops

/-- ODS routines without objects. -/
def noObjects : Ods Unit where
  bytes _ := []
  ofBytes _ := ()
  size _ := 0
  write _ _ := []
  read _ _ := ()
  length_write _ _ := rfl

/-- Reading a span of `2 ^ 32` bytes from a block of two bytes passes the check. -/
theorem not_run_safe :
    ¬ Run.Along (step noObjects) (StepSafe noObjects) (make (some [1, 2])) [.read (2 ^ 32)] := by
  rintro ⟨hsafe, _⟩
  rw [stepSafe_iff_checkable] at hsafe
  exact (hsafe (2 ^ 32) rfl).2 (by decide)

end Dmn.Cursor
