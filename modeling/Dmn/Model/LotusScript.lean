import Mathlib.Data.List.TakeWhile
import Dmn.Model.Lmbcs
import Dmn.Model.Native

/-! # `lotusscript`

The formatted text lies in memory of its own, up to its terminator. -/

namespace Dmn

/-- `std::strlen`, in memory that holds a terminator. -/
def strlen (memory : List UInt8) : ℕ := (memory.takeWhile (· ≠ 0)).length

structure LotusScript where
  memory : List UInt8
  /-- `size_`, which does not count the terminator. -/
  size : ℕ
  size_le : size ≤ memory.length

namespace LotusScript

/-- The text in front of the terminator. -/
def text (code : LotusScript) : List UInt8 := code.memory.take code.size

def ofMemory (memory : List UInt8) : LotusScript :=
  ⟨memory, strlen memory, (List.takeWhile_prefix _).length_le⟩

variable {σ : Type} (native : Native) (codePage : CharCode Char UInt8)

/-- The constructor. `AgentLSTextFormat` gives the memory of a text or that of a message. -/
def create (format : List UInt8 → Except (List UInt8) (List UInt8)) (code : List UInt8) :
    Native.M σ LotusScript := do
  let lock ← native.allocateCopy (Lmbcs.fromString codePage code ++ [0])
  let error ← native.call
  error.throwIfError "Failed to format LotusScript code"
  match format lock.buffer with
  | .error message => throw (.throws (.formattingError (message.takeWhile (· ≠ 0))))
  | .ok memory => if 0 ∈ memory then pure (ofMemory memory) else throw .undefined

/-- `get_cursor`. -/
def getCursor (code : LotusScript) : Native.M σ Cursor := do
  let result ← native.call
  if result.isError then throw (.throws (.invalidHandle "Memory pointed to by handle is empty"))
  else pure (Cursor.make (some code.text))

end LotusScript

end Dmn
