import Dmn.Verification.SharedNote

/-! # Which item a key means

A key is looked up under its name in LMBCS by some operations, and by others under the bytes that
it has in UTF-8. The operations agree on an item exactly when that is one name. -/

namespace Dmn.Note

open Exec Native
open SharedNote (contents convertedName plainName)

variable {env : NoteValue.Env} {key : List UInt8} {item : Item} {items : List Item}

/-- As long as the native calls report no error, each operation with the key is about this item:
`has` and `get` see it, `get_type` knows its type, `set` replaces it and `erase` removes it. -/
structure Means (env : NoteValue.Env) (key : List UInt8) (item : Item) (items : List Item) :
    Prop where
  present : Yields env.native (has env.codePage key) items true items
  found : Yields env.native (itemInfo env.native key) items item items
  got : Yields env.native (NoteValue.getItemValue env key) items
    (some (item.type, item.value)) items
  typed : Yields env.native (getType env.codePage env.native key) items item.type items
  replaced : ∀ type buffer flags, Yields env.native
    (set env.codePage env.native key type buffer flags) items ()
      (Table.put Item.name (stored item.name type buffer flags) items)
  erased : Yields env.native (erase env.codePage env.native key) items ()
    (Table.erase Item.name item.name items)

/-- `set` stores a value in an item, and all operations with the key are about that item. -/
def Agrees (env : NoteValue.Env) (items : List Item) (key : List UInt8) (type : UInt16)
    (buffer : List UInt8) (flags : UInt16) : Prop :=
  ∃ item : Item, item.type = type ∧ item.value = buffer ∧
    Yields env.native (set env.codePage env.native key type buffer flags) items ()
      (Table.put Item.name item items) ∧
    Means env key item (Table.put Item.name item items)

/-! ## One name -/

theorem yields_getType {name : List UInt8} (hname : Lmbcs.fromString env.codePage key = name)
    (hitem : Table.lookup Item.name name items = some item) :
    Yields env.native (getType env.codePage env.native key) items item.type items := by
  refine (Delivers.value items).yields.bind ?_
  rw [hname, ← Table.lookup, hitem]
  exact (Yields.call items).bind (Delivers.pure items _).yields

theorem means_of_lookup (hname : convertedName env key = plainName key)
    (hitem : Table.lookup Item.name (plainName key) items = some item) :
    Means env key item items := by
  have hitemName : item.name = plainName key := Table.key_of_lookup Item.name hitem
  have hsome : (Table.lookup Item.name (plainName key) items).isSome = true :=
    Option.isSome_of_eq_some hitem
  have hpresent : Delivers env.native (has env.codePage key) items true items := by
    rw [← hsome]
    exact delivers_has hname items
  have hfound : Delivers env.native (itemInfo env.native key) items item items :=
    delivers_itemInfo rfl hitem
  have hgot := NoteValue.yields_getItemValue hname rfl hitem
  refine ⟨hpresent.yields, hfound.yields, hgot, yields_getType hname hitem, ?_, ?_⟩
  · intro type buffer flags
    rw [hitemName]
    exact (delivers_set hname rfl type buffer flags items).yields
  · rw [hitemName]
    exact (delivers_erase env.native hname hsome).yields

theorem agrees_of_name_eq (hname : convertedName env key = plainName key) (type : UInt16)
    (buffer : List UInt8) (flags : UInt16) : Agrees env items key type buffer flags := by
  refine ⟨stored (plainName key) type buffer flags, rfl, rfl, ?_, ?_⟩
  · exact (delivers_set hname rfl type buffer flags items).yields
  · exact means_of_lookup hname
      (Table.lookup_put_self Item.name (stored (plainName key) type buffer flags) items)

/-! ## Two names -/

/-- Erasing the item that `get` finds leaves the one that `has` sees, if that is another one. -/
theorem Means.name_eq {n : Nat} (h : Means env key item items) (hquiet : Quiet env.native n) :
    convertedName env key = plainName key := by
  obtain ⟨_, _, hpresent⟩ := h.present n hquiet
  obtain ⟨_, _, hfound⟩ := h.found n hquiet
  obtain ⟨_, _, herased⟩ := h.erased n hquiet
  have hsees : true = (contents items (convertedName env key)).isSome :=
    ((SharedNote.meets_has key).of_ok rfl hpresent).2
  have hfinds : contents items (plainName key) = some item :=
    ((meets_itemInfo key items).of_ok rfl hfound).2
  have herases : Table.erase Item.name item.name items =
      Table.erase Item.name (convertedName env key) items :=
    (SharedNote.meets_erase key).of_ok rfl herased
  have hitem : item.name = plainName key := Table.key_of_lookup Item.name hfinds
  by_contra hne
  have hgone := Table.lookup_erase_self Item.name (convertedName env key) items
  rw [← herases, hitem, Table.lookup_erase_of_ne Item.name items hne] at hgone
  rw [contents, hgone] at hsees
  cases hsees

/-- The operations with a key agree on an item exactly when the LMBCS name of the key is made of
the bytes that are passed for the key itself, as it is for ASCII. -/
theorem agrees_iff {n : Nat} (hquiet : Quiet env.native n) (items : List Item)
    (key : List UInt8) (type : UInt16) (buffer : List UInt8) (flags : UInt16) :
    Agrees env items key type buffer flags ↔
      Lmbcs.fromString env.codePage key = key.take (key.length % 2 ^ 16) := by
  constructor
  · rintro ⟨item, -, -, -, hmeans⟩
    exact hmeans.name_eq hquiet
  · intro hname
    exact agrees_of_name_eq hname type buffer flags

theorem agrees_iff_sample :
    Agrees NoteValue.sampleEnv [] [0x4E] typeText [0x61] 0 ↔
      Lmbcs.fromString NoteValue.sampleEnv.codePage [0x4E] =
        ([0x4E] : List UInt8).take (([0x4E] : List UInt8).length % 2 ^ 16) :=
  have hquiet : Quiet NoteValue.sampleEnv.native 0 := fun _ _ => rfl
  agrees_iff hquiet [] [0x4E] typeText [0x61] 0

/-- A runtime whose code page has `─` at `C4`. -/
def codePageEnv : NoteValue.Env := { NoteValue.sampleEnv with codePage := Lmbcs.codePage850 }

/-- The item that `set` appends for the key `─` is not the one that `get` looks for. -/
theorem not_agrees_of_box_drawing : ¬ ∀ (env : NoteValue.Env) (n : Nat), Quiet env.native n →
    ∀ items key type buffer flags, Agrees env items key type buffer flags := by
  intro h
  have hquiet : Quiet codePageEnv.native 0 := fun _ _ => rfl
  obtain ⟨item, -, -, -, hmeans⟩ :=
    h codePageEnv 0 hquiet [] (utf8.encodeAll ['─']) typeText [0x61] 0
  exact absurd (hmeans.name_eq hquiet) (by decide)

end Dmn.Note
