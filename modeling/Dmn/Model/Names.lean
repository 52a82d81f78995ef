import Dmn.Model.MemoryOwner

/-! # `acl::names`

The texts of a names list lie behind its header, each with a null byte behind it. They are found by
walking through the block with a view of what is left of it. -/

namespace Dmn.Names

/-- `lmbcs_view`: where it starts in the block, and how many bytes it has. -/
structure View where
  offset : ℕ
  size : ℕ
  deriving DecidableEq, Repr

namespace View

variable (bytes : List UInt8)

/-- The byte at a position of the view. Only the bytes of the block may be read. -/
def byteAt (view : View) (pos : ℕ) : Except Stop UInt8 :=
  match bytes[view.offset + pos]? with
  | none => .error .undefined
  | some byte => .ok byte

/-- The search for a null byte from a position on. -/
def findFrom (view : View) (pos : ℕ) : ℕ → Except Stop (Option ℕ)
  | 0 => .ok none
  | remaining + 1 => do
      let byte ← view.byteAt bytes pos
      if byte = 0 then .ok (some pos) else findFrom view (pos + 1) remaining

/-- `find`, where no position is `npos`. -/
def find (view : View) : Except Stop (Option ℕ) := findFrom bytes view 0 view.size

/-- `substr` with a position. The `std::out_of_range` is no exception of this library. -/
def substr (view : View) (pos : ℕ) : Except Stop View :=
  if view.size < pos then .error .undefined else .ok ⟨view.offset + pos, view.size - pos⟩

/-- `substr` with position 0 and a count. -/
def front (view : View) (count : ℕ) : View := ⟨view.offset, min count view.size⟩

/-- The bytes of a view that is translated. -/
def load (view : View) : Except Stop (List UInt8) :=
  if bytes.length < view.offset + view.size then .error .undefined
  else .ok ((bytes.drop view.offset).take view.size)

/-- The loop over the texts that are passed over. -/
def skip (current : View) : ℕ → Except Stop View
  | 0 => .ok current
  | index + 1 => do
      match ← current.find bytes with
      | none => .error (.throws (.runtimeError "Names list is malformed"))
      | some nul =>
          let current ← current.substr (nul + 1)
          skip current index

end View

open Heap Locker

variable (env : MemoryOwner.Env)

/-- The name at `index` in the `size` bytes of a block. -/
def nameAt (bytes : List UInt8) (size index : ℕ) : Except Stop (List UInt8) := do
  let current ← View.substr ⟨0, size⟩ env.sizeofNamesList
  let current ← View.skip bytes current index
  match ← current.find bytes with
  | none => .error (.throws (.runtimeError "Names list is malformed"))
  | some nul =>
      let raw ← (current.front nul).load bytes
      .ok (Lmbcs.toString env.codePage raw)

/-- `size`. The count is in the header. -/
def size (self : MemoryOwner) : Heap.M ℕ :=
  within (MemoryOwner.namesGetCursor env self) fun lock => do
    let block ← block lock.hdl_
    let header ← Exec.ofExcept (View.load block.bytes ⟨0, env.sizeofNamesList⟩)
    pure (env.numNames header)

/-- `at`. -/
def get (self : MemoryOwner) (index : ℕ) : Heap.M (List UInt8) := do
  let count ← size env self
  if count ≤ index then throw (.throws (.outOfRange "Index is out of range"))
  else within (MemoryOwner.namesGetCursor env self) fun lock => do
    let block ← block lock.hdl_
    Exec.ofExcept (nameAt env block.bytes lock.size_ index)

/-- `try_at`. -/
def tryGet (self : MemoryOwner) (index : ℕ) : Heap.M (Option (List UInt8)) :=
  tryCatch (do
    let text ← get env self index
    pure (some text)) fun stop => match stop with
      | .throws (.outOfRange _) => pure none
      | stop => throw stop

/-- Iteration from `index` on, over `count` names. -/
def iterateFrom (self : MemoryOwner) (index : ℕ) : ℕ → Heap.M (List (List UInt8))
  | 0 => pure []
  | count + 1 => do
      let text ← get env self index
      let texts ← iterateFrom self (index + 1) count
      pure (text :: texts)

/-- From `begin()` to `end()`. -/
def iterate (self : MemoryOwner) : Heap.M (List (List UInt8)) := do
  let count ← size env self
  iterateFrom env self 0 count

end Dmn.Names
