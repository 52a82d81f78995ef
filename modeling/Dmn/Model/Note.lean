import Dmn.Model.Lmbcs
import Dmn.Model.Native

/-! # Items of a `note`

The items in their order on the note. Names are compared byte by byte. -/

namespace Dmn

structure Item where
  name : List UInt8
  flags : UInt16
  type : UInt16
  value : List UInt8
  deriving DecidableEq, Repr

namespace Note

abbrev M (α : Type) := Native.M (List Item) α

def itemSummary : UInt16 := 0x0004

/-- `MAXONESEGSIZE`. -/
def maxOneSegSize : Nat := 0xFFFF - 1 - 128

def getFlags (size : Nat) : UInt16 := if size < maxOneSegSize / 4 then itemSummary else 0

variable (codePage : CharCode Char UInt8) (native : Native)

def has (key : List UInt8) : M Bool := do
  let items ← Native.value
  pure (items.any fun item => item.name = Lmbcs.fromString codePage key)

/-- `NSFItemInfo`, called by the constructor of `item_value`, which takes the key without
a conversion. The name's length is passed as a 16-bit word. -/
def itemInfo (key : List UInt8) : M Item := do
  let items ← Native.value
  match items.find? fun item => item.name = key.take (key.length % 2 ^ 16) with
  | none => throw (.throws (.nativeError "Failed to obtain item information" .itemNotFound))
  | some item => do
      let result ← native.call
      result.throwIfError "Failed to obtain item information"
      pure item

/-- `dmn::type::invalid_or_unknown`. -/
def invalidOrUnknown : UInt16 := 0

/-- `get_type`. The status of `NSFItemInfo` is not looked at; it writes the type where it finds
the item. -/
def getType (key : List UInt8) : M UInt16 := do
  let items ← Native.value
  match items.find? fun item => item.name = Lmbcs.fromString codePage key with
  | none => pure invalidOrUnknown
  | some item => do
      let result ← native.call
      pure (if result.isError then invalidOrUnknown else item.type)

def appendImpl (key : List UInt8) (type : UInt16) (buffer : List UInt8) (flags : UInt16) :
    M Unit := do
  let result ← native.call
  result.throwIfError "Failed to append item value"
  Native.update fun items => items ++
    [⟨Lmbcs.fromString codePage key, flags ||| getFlags buffer.length, type, buffer⟩]

/-- Replace the first item of this name. -/
def replaceFirst (name : List UInt8) (item : Item) : List Item → List Item
  | [] => []
  | first :: rest =>
      if first.name = name then item :: rest else first :: replaceFirst name item rest

def modifyImpl (key : List UInt8) (type : UInt16) (buffer : List UInt8) (flags : UInt16) :
    M Unit := do
  let present ← has codePage key
  if present then do
    let item ← itemInfo native key
    let result ← native.call
    result.throwIfError "Failed to modify note item value"
    Native.update (replaceFirst item.name
      ⟨item.name, flags ||| getFlags buffer.length, type, buffer⟩)
  else throw (.throws (.invalidArgument "Provided key doesn't exist on note"))

/-- `set`, after `note_value::apply` has taken the value apart. -/
def set (key : List UInt8) (type : UInt16) (buffer : List UInt8) (flags : UInt16) : M Unit := do
  let present ← has codePage key
  if present then modifyImpl codePage native key type buffer flags
  else appendImpl codePage native key type buffer flags

/-- `erase`; all items of the name are deleted. -/
def erase (key : List UInt8) : M Unit := do
  let result ← native.call
  result.throwIfError "Failed to remove key"
  let items ← Native.value
  if items.any fun item => item.name = Lmbcs.fromString codePage key then
    Native.update fun items =>
      items.filter fun item => item.name ≠ Lmbcs.fromString codePage key
  else throw (.throws (.nativeError "Failed to remove key" .itemNotFound))

/-! ## `items` -/

/-- The bytes that `NSFItemQuery` has room for. -/
def maxFieldNameLen : Nat := 64

/-- `value_map_t`. The order of the entries has no meaning. -/
abbrev ValueMap := List (List UInt8 × Item)

/-- An entry with this key stays. -/
def emplace (key : List UInt8) (item : Item) (output : ValueMap) : ValueMap :=
  if output.any fun entry => entry.1 = key then output else output ++ [(key, item)]

/-- `std::regex_match`, if there is a pattern. -/
def isMatch (pattern : Option (List UInt8 → Bool)) (text : List UInt8) : Bool :=
  pattern.all fun matching => matching text

/-- `NSFItemInfo` without a name, or `NSFItemInfoNext`, in front of the remaining items. -/
def nextItem : List Item → M Status
  | [] => pure .itemNotFound
  | _ :: _ => native.call

/-- The item at `item_bid`, looked up by what `NSFItemQuery` gives of its name. -/
def visit (pattern : Option (List UInt8 → Bool)) (item : Item) (output : ValueMap) :
    M ValueMap :=
  let name := item.name.take maxFieldNameLen
  let converted := Lmbcs.toString codePage name
  if isMatch pattern converted then do
    let val ← itemInfo native name
    pure (emplace converted val output)
  else pure output

/-- The loop of `items`, with the items from `item_bid` on. -/
def itemsFrom (pattern : Option (List UInt8 → Bool)) : List Item → ValueMap → M ValueMap
  | [], output => pure output
  | item :: rest, output => do
      let output ← visit codePage native pattern item output
      let result ← nextItem native rest
      if result.isError && !result.isNotFound then
        result.throwIfError "Failed to iterate over note items"
      if result.isNotFound then pure output else itemsFrom pattern rest output

def items (pattern : Option (List UInt8 → Bool)) : M ValueMap := do
  let items ← Native.value
  let result ← nextItem native items
  result.throwIfError "Failed to iterate over note items"
  itemsFrom codePage native pattern items []

/-! ## `save` -/

/-- `save`, as far as it concerns the items. -/
def save : M Unit := do
  let result ← native.call
  result.throwIfError "Failed to save note"

end Note

end Dmn
