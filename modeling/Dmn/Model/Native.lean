import Dmn.Model.Cursor

/-! # Calls into the native library

The calls are numbered in the order in which they are made, so that any of them can be
taken to fail. -/

namespace Dmn

/-- The status word of each native call, and the bytes found in memory that a call hands
out. -/
structure Native where
  status : Nat → Status
  garbage : Nat → Nat → UInt8

/-- A state together with the number of native calls made so far. -/
structure Called (σ : Type) where
  calls : Nat
  value : σ

/-- `checked_cast<uint16_t>`. -/
def checkedCast {m : Type → Type} [Monad m] [MonadExcept Stop m] (value : Nat) : m UInt16 :=
  if value < 2 ^ 16 then pure (UInt16.ofNat value)
  else throw (.throws
    (.overflowError "Value is too large to fit inside the provided type"))

namespace Native

abbrev M (σ α : Type) := Exec Stop (Called σ) α

variable {σ τ α : Type}

/-- The value of the state. -/
def value : M σ σ := do
  let s ← get
  pure s.value

def update (f : σ → σ) : M σ Unit := modify fun s => { s with value := f s.value }

/-- A program on a part of the value. -/
def part (get : σ → τ) (put : τ → σ → σ) (x : M τ α) : M σ α :=
  Exec.focus (fun s => ⟨s.calls, get s.value⟩) (fun t s => ⟨t.calls, put t.value s.value⟩) x

/-- One more local variable, which is lost when the program stops. -/
def withLocal (extra : τ) (x : M (σ × τ) α) : M σ (α × τ) := do
  let s ← get
  match Exec.exec x ⟨s.calls, s.value, extra⟩ with
  | (.ok a, t) => do
      set (⟨t.calls, t.value.1⟩ : Called σ)
      pure (a, t.value.2)
  | (.error stop, t) => do
      set (⟨t.calls, t.value.1⟩ : Called σ)
      throw stop

/-- A program on an object of its own, which the caller does not look at again. -/
def onObject (object : τ) (x : M τ α) : M σ α := do
  let (a, _) ← withLocal object (part Prod.snd (fun t v => (v.1, t)) x)
  pure a

/-- A program on a cursor of its own. -/
def onCursor (cursor : Cursor) (x : Cursor.M α) : M σ α :=
  match Exec.exec x cursor with
  | (.ok a, _) => pure a
  | (.error stop, _) => throw stop

/-- The next call reports its status word. -/
def call (native : Native) : M σ Status := do
  let s ← get
  set { s with calls := s.calls + 1 }
  pure (native.status s.calls)

/-- `OSLockBlock` in the constructor of a `locker`. -/
def lockBlock (native : Native) : M σ Unit := do
  let result ← call native
  if result.isError then throw (.throws (.invalidHandle "Memory pointed to by handle is empty"))
  else pure ()

/-- `locker::allocate`. `OSMemAlloc` takes a 32-bit size, so that the view of a larger block
reaches outside of the memory. -/
def allocate (native : Native) (size : Nat) : M σ Cursor :=
  if size = 0 then throw (.throws (.invalidArgument "Size cannot be zero"))
  else do
    let s ← get
    let result ← call native
    result.throwIfError "Failed to allocate memory"
    lockBlock native
    if 2 ^ 32 ≤ size then throw .undefined
    else pure (Cursor.make (some ((List.range size).map (native.garbage s.calls))))

/-- `locker::allocate` with the bytes to copy. -/
def allocateCopy (native : Native) (buffer : List UInt8) : M σ Cursor := do
  let locker ← allocate native buffer.length
  onCursor locker do
    Cursor.write buffer
    get

end Native

end Dmn
