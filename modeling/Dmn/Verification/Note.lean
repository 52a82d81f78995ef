import Dmn.Library.Table
import Dmn.Model.Note
import Dmn.Verification.Native

/-! # Items of a note as a table

Where the conversion of the key and the key itself are one name, `note::set` puts an item into
the table of the items. -/

namespace Dmn.Note

open Exec Native

variable {codePage : CharCode Char UInt8} {native : Native} {key name : List UInt8}

/-- The item that `note::set` stores. -/
def stored (key : List UInt8) (type : UInt16) (buffer : List UInt8) (flags : UInt16) : Item :=
  ⟨key, flags ||| getFlags buffer.length, type, buffer⟩

/-! ## Presence -/

theorem any_name_eq (name : List UInt8) (items : List Item) :
    (items.any fun item => item.name = name) = (Table.lookup Item.name name items).isSome := by
  rw [Bool.eq_iff_iff, Table.lookup, List.find?_isSome, List.any_eq_true]

theorem delivers_has (hname : Lmbcs.fromString codePage key = name) (items : List Item) :
    Delivers native (has codePage key) items (Table.lookup Item.name name items).isSome items := by
  rw [← any_name_eq, has, hname]
  exact (Delivers.value items).bind (.pure items _)

/-! ## Replacing an item -/

theorem replaceFirst_eq_put (item : Item) {items : List Item}
    (h : (Table.lookup Item.name item.name items).isSome) :
    replaceFirst item.name item items = Table.put Item.name item items := by
  induction items with
  | nil => cases h
  | cons first rest ih =>
      by_cases hname : first.name = item.name
      · simp [replaceFirst, Table.put, hname]
      · rw [Table.lookup_cons_of_ne Item.name rest hname] at h
        simp only [replaceFirst, Table.put, if_neg hname]
        rw [ih h]

theorem take_length_mod (h : key.length < 2 ^ 16) : key.take (key.length % 2 ^ 16) = key := by
  rw [Nat.mod_eq_of_lt h, List.take_length]

theorem delivers_itemInfo (hplain : key.take (key.length % 2 ^ 16) = name) {items : List Item}
    {item : Item} (h : Table.lookup Item.name name items = some item) :
    Delivers native (itemInfo native key) items item items := by
  rw [itemInfo, hplain]
  refine (Delivers.value items).bind ?_
  rw [← Table.lookup, h]
  exact .call_bind (.pure items item)

variable (key) in
theorem meets_itemInfo (items : List Item) : Meets (fun s => s.value = items)
    (itemInfo native key) (fun item s => s.value = items ∧
      Table.lookup Item.name (key.take (key.length % 2 ^ 16)) items = some item)
    (fun _ s => s.value = items) := by
  refine meets_value_bind fun found => ?_
  split
  · exact Meets.throw fun _ hs => hs.1
  · next item hitem =>
    refine meets_call_bind (fun _ hs => hs) (fun _ _ hs => hs.1)
      (Meets.pure fun _ hs => ⟨hs.1, ?_⟩)
    rw [← hs.1, hs.2]
    exact hitem

theorem exec_itemInfo_eq_ok {s t : Called (List Item)} {item : Item}
    (h : exec (itemInfo native key) s = (.ok item, t)) :
    Table.lookup Item.name (key.take (key.length % 2 ^ 16)) s.value = some item ∧
      t.value = s.value :=
  ((meets_itemInfo key s.value).of_ok rfl h).symm

/-- Setting a value puts its item into the table. -/
theorem delivers_set (hname : Lmbcs.fromString codePage key = name)
    (hplain : key.take (key.length % 2 ^ 16) = name) (type : UInt16) (buffer : List UInt8)
    (flags : UInt16) (items : List Item) :
    Delivers native (set codePage native key type buffer flags) items ()
      (Table.put Item.name (stored name type buffer flags) items) := by
  refine (delivers_has hname items).bind ?_
  cases h : Table.lookup Item.name name items with
  | none =>
      have hput := Table.put_of_lookup_none Item.name (x := stored name type buffer flags) h
      rw [hput]
      simp only [Option.isSome_none, Bool.false_eq_true, if_false]
      rw [appendImpl, hname]
      exact .call_bind (.update _ items)
  | some item =>
      have hitem := Table.key_of_lookup Item.name h
      have hpresent : (Table.lookup Item.name name items).isSome := by
        rw [h]
        rfl
      have hput := replaceFirst_eq_put (stored name type buffer flags) hpresent
      rw [← hput]
      simp only [Option.isSome_some, if_true]
      refine (delivers_has hname items).bind ?_
      simp only [h, Option.isSome_some, if_true]
      refine (delivers_itemInfo hplain h).bind (.call_bind ?_)
      rw [hitem]
      exact .update _ items

variable (native) in
theorem delivers_erase (hname : Lmbcs.fromString codePage key = name)
    {items : List Item} (h : (Table.lookup Item.name name items).isSome) :
    Delivers native (erase codePage native key) items () (Table.erase Item.name name items) := by
  refine .call_bind ((Delivers.value items).bind ?_)
  rw [hname, any_name_eq, if_pos h]
  exact .update _ items

theorem delivers_save (items : List Item) : Delivers native (save native) items () items :=
  .checkedCall _ items

/-! ## Stops

An operation that stops has not changed the items. -/

theorem reads_has (key : List UInt8) : Reads (has codePage key) :=
  .bind .value fun _ => .pure _

theorem reads_itemInfo (key : List UInt8) : Reads (itemInfo native key) := by
  refine .bind .value fun items => ?_
  split
  · exact .throw _
  · exact .bind .call fun _ => .bind (.throwIfError _ _) fun _ => .pure _

theorem atomic_set (key : List UInt8) (type : UInt16) (buffer : List UInt8) (flags : UInt16) :
    Atomic (set codePage native key type buffer flags) := by
  refine .bind (reads_has key) fun present => ?_
  split
  · refine .bind (reads_has key) fun present => ?_
    split
    · exact .bind (reads_itemInfo key) fun item => .bind .call fun _ =>
        .bind (.throwIfError _ _) fun _ => .update _
    · exact (Reads.throw _).atomic
  · exact .bind .call fun _ => .bind (.throwIfError _ _) fun _ => .update _

theorem atomic_erase (key : List UInt8) : Atomic (erase codePage native key) := by
  refine .bind .call fun _ => .bind (.throwIfError _ _) fun _ => .bind .value fun items => ?_
  split
  · exact .update _
  · exact (Reads.throw _).atomic

theorem reads_save : Reads (save native) := .bind .call fun _ => .throwIfError _ _

end Dmn.Note
