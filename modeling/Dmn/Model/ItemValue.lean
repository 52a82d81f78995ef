import Dmn.Library.Run
import Dmn.Model.Note

/-! # `item_value`

An item value is on one of the items of its name. It can go to the next one and to the previous one.
The items of the note stay as they are. -/

namespace Dmn

namespace ItemValue

abbrev ObjectId := ℕ

/-- The items of a note in their order, each under the number of its block. -/
structure Items where
  rows : List (ℕ × Item)
  nodup : (rows.map Prod.fst).Nodup

/-- What the native calls write. The block of a value is known by that of its item. -/
structure Handles where
  item : ℕ
  value : ℕ
  size : ℕ
  deriving DecidableEq

/-- `handles hdls{}`. -/
def Handles.empty : Handles := ⟨0, 0, 0⟩

/-- Of an item, with the size of its type and its value as a 32-bit word. -/
def Handles.of (row : ℕ × Item) : Handles := ⟨row.1, row.1, (2 + row.2.value.length) % 2 ^ 32⟩

end ItemValue

/-- The members. An item value that was made by default has no note. -/
structure ItemValue where
  note_ : Bool
  item_ : List UInt8
  itemBid_ : ℕ
  valueBid_ : ℕ
  size_ : ℕ
  deriving DecidableEq

namespace ItemValue

/-- `item_value()`. -/
def byDefault : ItemValue := ⟨false, [], 0, 0, 0⟩

structure World where
  items : Items
  values : ObjectId → Option ItemValue

abbrev M (α : Type) := Native.M World α

variable (native : Native)

/-! ## Native calls -/

/-- The result of a search. A call that finds nothing writes nothing. -/
def answer : Option (ℕ × Item) → M (Status × Handles)
  | none => pure (.itemNotFound, Handles.empty)
  | some row => do
      let result ← Native.call native
      pure (result, if result.isError then Handles.empty else Handles.of row)

/-- The length of the name is passed as a 16-bit word. -/
def nsfItemInfo (name : List UInt8) : M (Status × Handles) := do
  let w ← Native.value
  answer native (w.items.rows.find? fun row => row.2.name = name.take (name.length % 2 ^ 16))

/-- The search starts behind the item, which has to be one of the note. -/
def nsfItemInfoNext (bid : ℕ) (name : List UInt8) : M (Status × Handles) := do
  let w ← Native.value
  match w.items.rows.dropWhile fun row => row.1 ≠ bid with
  | [] => throw .undefined
  | _ :: back => answer native (back.find? fun row => row.2.name = name)

/-- The search goes back from the item, which has to be one of the note. -/
def nsfItemInfoPrev (bid : ℕ) (name : List UInt8) : M (Status × Handles) := do
  let w ← Native.value
  match w.items.rows.dropWhile fun row => row.1 ≠ bid with
  | [] => throw .undefined
  | _ :: _ => answer native ((w.items.rows.takeWhile fun row => row.1 ≠ bid).reverse.find?
      fun row => row.2.name = name)

/-! ## Methods -/

def this (id : ObjectId) : M ItemValue := do
  let w ← Native.value
  match w.values id with
  | none => throw .undefined
  | some self => pure self

def write (id : ObjectId) (self : Option ItemValue) : M Unit :=
  Native.update fun w => { w with values := Function.update w.values id self }

/-- `apply_handles`. -/
def applyHandles (self : ItemValue) (hdls : Handles) : ItemValue :=
  { self with itemBid_ := hdls.item, valueBid_ := hdls.value, size_ := hdls.size }

/-- The constructor. An object whose constructor throws is not there. -/
def construct (id : ObjectId) (item : List UInt8) : M Unit := do
  let (result, hdls) ← nsfItemInfo native item
  result.throwIfError "Failed to obtain item information"
  write id (some (applyHandles ⟨true, item, 0, 0, 0⟩ hdls))

/-- `move_impl`. -/
def moveImpl (id : ObjectId) (forward : Bool) : M Bool := do
  let self ← this id
  if !self.note_ then pure false
  else do
    let _ ← checkedCast self.item_.length
    let (result, hdls) ←
      if forward then nsfItemInfoNext native self.itemBid_ self.item_
      else nsfItemInfoPrev native self.itemBid_ self.item_
    if result.isNotFound then pure false
    else do
      result.throwIfError "Failed to obtain next item information"
      write id (some (applyHandles self hdls))
      pure true

def next (id : ObjectId) : M Bool := moveImpl native id true

def previous (id : ObjectId) : M Bool := moveImpl native id false

/-- The copies share the note. -/
def copy (dst src : ObjectId) : M Unit := do
  let self ← this src
  write dst (some self)

/-! ## Runs -/

inductive Op where
  | byDefault (id : ObjectId)
  | construct (id : ObjectId) (item : List UInt8)
  | copy (dst src : ObjectId)
  | next (id : ObjectId)
  | previous (id : ObjectId)
  | destroy (id : ObjectId)

/-- Only objects that are there are used. A copy can be assigned to one that is there. -/
def Op.able (w : World) : Op → Bool
  | byDefault id | construct id _ => (w.values id).isNone
  | copy _ src => (w.values src).isSome
  | next id | previous id | destroy id => (w.values id).isSome

def Op.perform : Op → M (Option Bool)
  | byDefault id => do
      write id (some ItemValue.byDefault)
      pure none
  | construct id item => do
      ItemValue.construct native id item
      pure none
  | copy dst src => do
      ItemValue.copy dst src
      pure none
  | next id => do
      let found ← ItemValue.next native id
      pure (some found)
  | previous id => do
      let found ← ItemValue.previous native id
      pure (some found)
  | destroy id => do
      write id none
      pure none

/-- Exceptions are caught, and the program goes on. -/
def step (s : Called World) (op : Op) : Called World :=
  if op.able s.value then (Exec.exec (op.perform native) s).2 else s

end ItemValue

end Dmn
