import Dmn.Verification.Lmbcs.RoundTrip
import Dmn.Verification.Note

/-! # Collecting the items of a note

`note::items` walks the items and looks each name up a second time, by at most 64 of its bytes.
Where the native calls succeed, that is a walk over a list. -/

namespace Dmn.Note

open Exec Native

variable {codePage : CharCode Char UInt8} {native : Native}
  {pattern : Option (List UInt8 → Bool)} {all : List Item}

/-- One entry for each name whose text matches, with the first item of that name. -/
structure IsListing (codePage : CharCode Char UInt8) (pattern : Option (List UInt8 → Bool))
    (all : List Item) (output : ValueMap) : Prop where
  nodup : (output.map Prod.fst).Nodup
  mem_iff : ∀ text item, (text, item) ∈ output ↔
    Table.lookup Item.name item.name all = some item ∧
      Lmbcs.toString codePage item.name = text ∧ isMatch pattern text = true

/-- As long as the native calls report no error, `items` returns the map of the names. -/
def ListsItems (codePage : CharCode Char UInt8) (native : Native)
    (pattern : Option (List UInt8 → Bool)) (all : List Item) : Prop :=
  ∃ output, Yields native (items codePage native pattern) all output all ∧
    IsListing codePage pattern all output

/-! ## The walk -/

def shortName (item : Item) : List UInt8 := item.name.take maxFieldNameLen

def shortText (codePage : CharCode Char UInt8) (item : Item) : List UInt8 :=
  Lmbcs.toString codePage (shortName item)

/-- What an item adds to the map, if its name is found. -/
def addItem (codePage : CharCode Char UInt8) (pattern : Option (List UInt8 → Bool))
    (all : List Item) (output : ValueMap) (item : Item) : Option ValueMap :=
  if isMatch pattern (shortText codePage item) then
    (Table.lookup Item.name (shortName item) all).map fun val =>
      emplace (shortText codePage item) val output
  else some output

/-- A walk ends with its map, or with the name that was not found. -/
def outcome (output : Option ValueMap) (s : Called (List Item)) :
    Except Stop ValueMap × Called (List Item) :=
  match output with
  | some output => (.ok output, s)
  | none =>
      (.error (.throws (.nativeError "Failed to obtain item information" .itemNotFound)), s)

theorem outcome_eq_ok {result : Option ValueMap} {output : ValueMap} {s t : Called (List Item)}
    (h : outcome result s = (.ok output, t)) : result = some output := by
  cases result with
  | none => cases h
  | some _ =>
      cases h
      rfl

theorem length_shortName_le (item : Item) : (shortName item).length ≤ maxFieldNameLen :=
  List.length_take_le _ _

theorem shortName_of_length_le {item : Item} (h : item.name.length ≤ maxFieldNameLen) :
    shortName item = item.name := List.take_of_length_le h

theorem plain_shortName (item : Item) :
    (shortName item).take ((shortName item).length % 2 ^ 16) = shortName item :=
  take_length_mod (Nat.lt_of_le_of_lt (length_shortName_le item) (by decide))

theorem exec_itemInfo_of_none {name : List UInt8}
    (hplain : name.take (name.length % 2 ^ 16) = name)
    (hnone : Table.lookup Item.name name all = none) (n : Nat) :
    exec (itemInfo native name) ⟨n, all⟩ =
      (.error (.throws (.nativeError "Failed to obtain item information" .itemNotFound)),
        ⟨n, all⟩) := by
  rw [itemInfo, exec_bind_of_ok (Native.exec_value _), hplain, ← Table.lookup, hnone]
  rfl

variable (codePage pattern all) in
theorem exec_visit {n : Nat} (hquiet : Quiet native n) (item : Item) (output : ValueMap) :
    ∃ k, n ≤ k ∧ exec (visit codePage native pattern item output) ⟨n, all⟩ =
      outcome (addItem codePage pattern all output item) ⟨k, all⟩ := by
  unfold addItem visit
  rw [← shortName]
  change ∃ k, n ≤ k ∧ exec (if isMatch pattern (shortText codePage item) then _ else _) _ = _
  split
  · cases hlookup : Table.lookup Item.name (shortName item) all with
    | none =>
        refine ⟨n, Nat.le_refl n, ?_⟩
        rw [exec_bind_of_error (exec_itemInfo_of_none (plain_shortName item) hlookup n)]
        rfl
    | some val =>
        have hfound : Delivers native (itemInfo native (shortName item)) all val all :=
          delivers_itemInfo (plain_shortName item) hlookup
        obtain ⟨k, hk, hexec⟩ := hfound.of_quiet hquiet
        refine ⟨k, hk, ?_⟩
        rw [exec_bind_of_ok hexec]
        rfl
  · exact ⟨n, Nat.le_refl n, rfl⟩

theorem exec_nextItem_of_cons {n : Nat} (hquiet : Quiet native n) (item : Item)
    (rest : List Item) : exec (nextItem native (item :: rest)) (⟨n, all⟩ : Called (List Item)) =
      (.ok .noError, ⟨n + 1, all⟩) := by
  rw [nextItem, exec_call, hquiet n (Nat.le_refl n)]

/-- The loop is a walk over the list of the items. -/
theorem exec_itemsFrom {n : Nat} (hquiet : Quiet native n) (rest : List Item)
    (output : ValueMap) :
    ∃ k, n ≤ k ∧ exec (itemsFrom codePage native pattern rest output) ⟨n, all⟩ =
      outcome (rest.foldlM (addItem codePage pattern all) output) ⟨k, all⟩ := by
  induction rest generalizing n output with
  | nil => exact ⟨n, Nat.le_refl n, rfl⟩
  | cons item rest ih =>
      obtain ⟨k, hk, hadd⟩ := exec_visit codePage pattern all hquiet item output
      rw [List.foldlM_cons, itemsFrom]
      cases haddItem : addItem codePage pattern all output item with
      | none =>
          rw [haddItem] at hadd
          exact ⟨k, hk, exec_bind_of_error hadd⟩
      | some output' =>
          rw [haddItem] at hadd
          rw [exec_bind_of_ok hadd]
          cases rest with
          | nil => exact ⟨k, hk, rfl⟩
          | cons next rest =>
              obtain ⟨m, hm, hrest⟩ := ih (hquiet.mono (Nat.le_succ_of_le hk)) output'
              refine ⟨m, Nat.le_of_succ_le (Nat.le_trans (Nat.succ_le_succ hk) hm), ?_⟩
              rw [exec_bind_of_ok (exec_nextItem_of_cons (hquiet.mono hk) next rest)]
              exact hrest

/-! ## What the walk collects -/

/-- Behind the items that were walked, the map has an entry for each text that they were given,
with the first item of the name that was looked up. -/
structure Walked (codePage : CharCode Char UInt8) (pattern : Option (List UInt8 → Bool))
    (all walked : List Item) (output : ValueMap) : Prop where
  nodup : (output.map Prod.fst).Nodup
  entries : ∀ entry ∈ output, ∃ item ∈ walked, shortText codePage item = entry.1 ∧
    isMatch pattern entry.1 = true ∧
      Table.lookup Item.name (shortName item) all = some entry.2
  keys : ∀ item ∈ walked, isMatch pattern (shortText codePage item) = true →
    (Table.lookup Item.name (shortName item) all).isSome = true ∧
      shortText codePage item ∈ output.map Prod.fst

theorem any_key_iff (key : List UInt8) (output : ValueMap) :
    (output.any fun entry => entry.1 = key) = true ↔ key ∈ output.map Prod.fst := by
  simp only [List.any_eq_true, decide_eq_true_eq, List.mem_map]

theorem nodup_emplace {output : ValueMap} (h : (output.map Prod.fst).Nodup) (key : List UInt8)
    (item : Item) : ((emplace key item output).map Prod.fst).Nodup := by
  unfold emplace
  split
  · exact h
  · next hnone =>
    rw [any_key_iff] at hnone
    rw [List.map_append, List.nodup_append]
    refine ⟨h, List.nodup_cons.mpr ⟨List.not_mem_nil, List.nodup_nil⟩, ?_⟩
    rintro other hother _ hkey rfl
    rw [List.mem_singleton.mp hkey] at hother
    exact hnone hother

theorem mem_of_mem_emplace {output : ValueMap} {key : List UInt8} {item : Item}
    {entry : List UInt8 × Item} (h : entry ∈ emplace key item output) :
    entry ∈ output ∨ entry = (key, item) := by
  unfold emplace at h
  split at h
  · exact .inl h
  · simpa using h

theorem mem_keys_emplace {key other : List UInt8} {item : Item} {output : ValueMap}
    (h : other = key ∨ other ∈ output.map Prod.fst) :
    other ∈ (emplace key item output).map Prod.fst := by
  unfold emplace
  split
  · next hsome =>
    rw [any_key_iff] at hsome
    rcases h with rfl | h
    · exact hsome
    · exact h
  · rw [List.map_append, List.mem_append]
    rcases h with rfl | h
    · exact .inr (by simp)
    · exact .inl h

theorem Walked.step {walked : List Item} {output output' : ValueMap} {item : Item}
    (h : Walked codePage pattern all walked output)
    (hadd : addItem codePage pattern all output item = some output') :
    Walked codePage pattern all (walked ++ [item]) output' := by
  unfold addItem at hadd
  split at hadd
  · next hmatch =>
    obtain ⟨val, hval, rfl⟩ := Option.map_eq_some_iff.mp hadd
    refine ⟨nodup_emplace h.nodup _ _, ?_, ?_⟩
    · intro entry hentry
      rcases mem_of_mem_emplace hentry with hold | rfl
      · obtain ⟨other, hother, hrest⟩ := h.entries entry hold
        exact ⟨other, List.mem_append_left _ hother, hrest⟩
      · exact ⟨item, by simp, rfl, hmatch, hval⟩
    · intro other hother hmatches
      rcases List.mem_append.mp hother with hold | hnew
      · obtain ⟨hfound, hkey⟩ := h.keys other hold hmatches
        exact ⟨hfound, mem_keys_emplace (.inr hkey)⟩
      · rw [List.mem_singleton.mp hnew]
        exact ⟨Option.isSome_of_eq_some hval, mem_keys_emplace (.inl rfl)⟩
  · next hmatch =>
    cases hadd
    refine ⟨h.nodup, ?_, ?_⟩
    · intro entry hentry
      obtain ⟨other, hother, hrest⟩ := h.entries entry hentry
      exact ⟨other, List.mem_append_left _ hother, hrest⟩
    · intro other hother hmatches
      rcases List.mem_append.mp hother with hold | hnew
      · exact h.keys other hold hmatches
      · rw [List.mem_singleton.mp hnew] at hmatches
        exact absurd hmatches hmatch

theorem Walked.run {walked rest : List Item} {output output' : ValueMap}
    (h : Walked codePage pattern all walked output)
    (hrest : rest.foldlM (addItem codePage pattern all) output = some output') :
    Walked codePage pattern all (walked ++ rest) output' := by
  induction rest generalizing walked output with
  | nil =>
      cases hrest
      rwa [List.append_nil]
  | cons item rest ih =>
      rw [List.foldlM_cons, Option.bind_eq_bind, Option.bind_eq_some_iff] at hrest
      obtain ⟨output₁, hadd, hrest⟩ := hrest
      rw [List.append_cons]
      exact ih (h.step hadd) hrest

theorem Walked.of_walk {output : ValueMap}
    (h : all.foldlM (addItem codePage pattern all) [] = some output) :
    Walked codePage pattern all all output := by
  have hstart : Walked codePage pattern all [] [] := ⟨List.nodup_nil, nofun, nofun⟩
  exact hstart.run h

/-- The walk ends with a map if the names that it looks up are found. -/
theorem exists_walk {rest : List Item}
    (h : ∀ item ∈ rest, isMatch pattern (shortText codePage item) = true →
      (Table.lookup Item.name (shortName item) all).isSome = true) (output : ValueMap) :
    ∃ output', rest.foldlM (addItem codePage pattern all) output = some output' := by
  induction rest generalizing output with
  | nil => exact ⟨output, rfl⟩
  | cons item rest ih =>
      obtain ⟨hitem, hrest⟩ := List.forall_mem_cons.mp h
      have hadd : ∃ output₁, addItem codePage pattern all output item = some output₁ := by
        unfold addItem
        split
        · next hmatch =>
          obtain ⟨val, hval⟩ := Option.isSome_iff_exists.mp (hitem hmatch)
          exact ⟨_, by rw [hval, Option.map_some]⟩
        · exact ⟨output, rfl⟩
      obtain ⟨output₁, hadd⟩ := hadd
      rw [List.foldlM_cons, hadd]
      exact ih hrest output₁

/-! ## Notes that are listed -/

variable (codePage pattern) in
/-- The walk of a note that is not empty. -/
theorem exec_items {n : Nat} (hquiet : Quiet native n) (hne : all ≠ []) :
    ∃ k, n ≤ k ∧ exec (items codePage native pattern) ⟨n, all⟩ =
      outcome (all.foldlM (addItem codePage pattern all) []) ⟨k, all⟩ := by
  obtain ⟨k, hk, hwalk⟩ := exec_itemsFrom (hquiet.mono (Nat.le_succ n)) all []
  refine ⟨k, Nat.le_of_succ_le hk, ?_⟩
  rw [items, exec_bind_of_ok (Native.exec_value _), ← hwalk]
  obtain ⟨first, rest, rfl⟩ := List.exists_cons_of_ne_nil hne
  rw [exec_bind_of_ok (exec_nextItem_of_cons hquiet first rest)]
  rfl

theorem not_lists_nil {n : Nat} (hquiet : Quiet native n) :
    ¬ ListsItems codePage native pattern [] := by
  rintro ⟨output, hyields, -⟩
  obtain ⟨k, -, hexec⟩ := hyields n hquiet
  cases hexec

/-- A name that `NSFItemQuery` cuts off must not match, and what is left of it must not match
either, or be the name of another item. -/
def LongNames (codePage : CharCode Char UInt8) (pattern : Option (List UInt8 → Bool))
    (all : List Item) : Prop :=
  ∀ item ∈ all, maxFieldNameLen < item.name.length →
    isMatch pattern (Lmbcs.toString codePage item.name) = false ∧
      (isMatch pattern (Lmbcs.toString codePage (item.name.take maxFieldNameLen)) = true →
        ∃ other ∈ all, other.name = item.name.take maxFieldNameLen)

/-- Names that match have texts of their own. -/
def DistinctTexts (codePage : CharCode Char UInt8) (pattern : Option (List UInt8 → Bool))
    (all : List Item) : Prop :=
  ∀ item ∈ all, ∀ other ∈ all, isMatch pattern (Lmbcs.toString codePage item.name) = true →
    Lmbcs.toString codePage item.name = Lmbcs.toString codePage other.name →
      item.name = other.name

theorem exists_first {item : Item} (h : item ∈ all) :
    ∃ first, Table.lookup Item.name item.name all = some first ∧ first ∈ all ∧
      first.name = item.name ∧ Table.lookup Item.name first.name all = some first := by
  cases hlookup : Table.lookup Item.name item.name all with
  | none => exact absurd rfl ((Table.lookup_eq_none_iff Item.name).mp hlookup item h)
  | some first =>
      have hname : first.name = item.name := Table.key_of_lookup Item.name hlookup
      refine ⟨first, rfl, Table.mem_of_lookup Item.name hlookup, hname, ?_⟩
      rw [hname, hlookup]

/-- Whatever the map holds is the first item of its name. -/
theorem Walked.first_of_mem {output : ValueMap} (h : Walked codePage pattern all all output)
    {text : List UInt8} {item : Item} (hentry : (text, item) ∈ output) :
    Table.lookup Item.name item.name all = some item ∧
      Lmbcs.toString codePage item.name = text ∧ isMatch pattern text = true := by
  obtain ⟨walked, -, htext, hmatch, hlookup⟩ := h.entries (text, item) hentry
  have hname : item.name = shortName walked := Table.key_of_lookup Item.name hlookup
  refine ⟨?_, ?_, hmatch⟩
  · rw [hname]
    exact hlookup
  · rw [hname]
    exact htext

theorem Walked.isListing {output : ValueMap} (h : Walked codePage pattern all all output)
    (hlong : LongNames codePage pattern all) (htexts : DistinctTexts codePage pattern all) :
    IsListing codePage pattern all output := by
  refine ⟨h.nodup, fun text item => ⟨h.first_of_mem, ?_⟩⟩
  rintro ⟨hlookup, rfl, hmatch⟩
  have hmem : item ∈ all := Table.mem_of_lookup Item.name hlookup
  have hshort : shortName item = item.name := by
    refine shortName_of_length_le (Nat.le_of_not_lt fun hlt => ?_)
    rw [(hlong item hmem hlt).1] at hmatch
    cases hmatch
  have htext : shortText codePage item = Lmbcs.toString codePage item.name := by
    rw [shortText, hshort]
  obtain ⟨-, hkey⟩ := h.keys item hmem (by rwa [htext])
  rw [htext] at hkey
  obtain ⟨⟨text, other⟩, hentry, rfl⟩ := List.mem_map.mp hkey
  -- The entry with this text is that of another item only if the other one has the same name.
  obtain ⟨hother, hotherText, -⟩ := h.first_of_mem hentry
  have hname : item.name = other.name :=
    htexts item hmem other (Table.mem_of_lookup Item.name hother) hmatch hotherText.symm
  rw [← hname, hlookup] at hother
  cases hother
  exact hentry

theorem listsItems_of_names (hne : all ≠ []) (hlong : LongNames codePage pattern all)
    (htexts : DistinctTexts codePage pattern all) : ListsItems codePage native pattern all := by
  have hfound : ∀ item ∈ all, isMatch pattern (shortText codePage item) = true →
      (Table.lookup Item.name (shortName item) all).isSome = true := by
    intro item hitem hmatch
    by_cases hlength : item.name.length ≤ maxFieldNameLen
    · obtain ⟨first, hfirst, -⟩ := exists_first hitem
      rw [shortName_of_length_le hlength, hfirst, Option.isSome_some]
    · obtain ⟨other, hother, hname⟩ := (hlong item hitem (Nat.lt_of_not_le hlength)).2 hmatch
      obtain ⟨first, hfirst, -⟩ := exists_first hother
      rw [shortName, ← hname, hfirst, Option.isSome_some]
  obtain ⟨output, hwalk⟩ := exists_walk hfound []
  refine ⟨output, ?_, (Walked.of_walk hwalk).isListing hlong htexts⟩
  intro n hquiet
  obtain ⟨k, hk, hexec⟩ := exec_items codePage pattern hquiet hne
  rw [hwalk] at hexec
  exact ⟨k, hk, hexec⟩

/-- A listing has no room for a name that was cut off, nor for two names with one text. -/
theorem names_of_isListing {output : ValueMap} (hlisting : IsListing codePage pattern all output)
    (hwalked : Walked codePage pattern all all output) :
    LongNames codePage pattern all ∧ DistinctTexts codePage pattern all := by
  have hentry : ∀ item ∈ all, isMatch pattern (Lmbcs.toString codePage item.name) = true →
      ∃ first, first.name = item.name ∧
        (Lmbcs.toString codePage item.name, first) ∈ output := by
    intro item hitem hmatch
    obtain ⟨first, -, -, hname, hfirst⟩ := exists_first hitem
    rw [← hname] at hmatch ⊢
    exact ⟨first, rfl, (hlisting.mem_iff _ first).mpr ⟨hfirst, rfl, hmatch⟩⟩
  constructor
  · intro item hitem hlt
    constructor
    · rw [← Bool.not_eq_true]
      intro hmatch
      obtain ⟨first, hname, hmem⟩ := hentry item hitem hmatch
      obtain ⟨walked, -, -, -, hlookup⟩ := hwalked.entries _ hmem
      have hshort : first.name = shortName walked := Table.key_of_lookup Item.name hlookup
      have hle := length_shortName_le walked
      rw [← hshort, hname] at hle
      exact absurd hlt (Nat.not_lt_of_le hle)
    · intro hmatch
      obtain ⟨hsome, -⟩ := hwalked.keys item hitem hmatch
      obtain ⟨other, hother⟩ := Option.isSome_iff_exists.mp hsome
      exact ⟨other, Table.mem_of_lookup Item.name hother, Table.key_of_lookup Item.name hother⟩
  · intro item hitem other hother hmatch htext
    obtain ⟨first, hname, hmem⟩ := hentry item hitem hmatch
    obtain ⟨first', hname', hmem'⟩ := hentry other hother (by rwa [← htext])
    rw [htext] at hmem
    have heq := Table.eq_of_key_eq Prod.fst hmem hmem' hlisting.nodup rfl
    cases heq
    rw [← hname, hname']

theorem names_of_listsItems {n : Nat} (hquiet : Quiet native n)
    (h : ListsItems codePage native pattern all) :
    all ≠ [] ∧ LongNames codePage pattern all ∧ DistinctTexts codePage pattern all := by
  have hne : all ≠ [] := by
    rintro rfl
    exact not_lists_nil hquiet h
  obtain ⟨output, hyields, hlisting⟩ := h
  obtain ⟨_, -, hexec⟩ := exec_items codePage pattern hquiet hne
  obtain ⟨_, -, hok⟩ := hyields n hquiet
  rw [hok] at hexec
  exact ⟨hne, names_of_isListing hlisting (.of_walk (outcome_eq_ok hexec.symm))⟩

/-- The map is what it should be exactly when the note has an item, the names that match fit the
buffer and have texts of their own, and a name that is cut off leaves nothing that matches and is
not a name. -/
theorem listsItems_iff {n : Nat} (hquiet : Quiet native n)
    (pattern : Option (List UInt8 → Bool)) (all : List Item) :
    ListsItems codePage native pattern all ↔
      all ≠ [] ∧ LongNames codePage pattern all ∧ DistinctTexts codePage pattern all := by
  constructor
  · exact names_of_listsItems hquiet
  · rintro ⟨hne, hlong, htexts⟩
    exact listsItems_of_names hne hlong htexts

def sampleNative : Native := ⟨fun _ => .noError, fun _ _ => 0⟩

theorem listsItems_iff_sample :
    let all : List Item := [⟨[0x4E], 0, 0, [1]⟩, ⟨[0x4D], 0, 0, []⟩, ⟨[0x4E], 0, 0, [2]⟩]
    ListsItems utf8 sampleNative none all ↔
      all ≠ [] ∧ LongNames utf8 none all ∧ DistinctTexts utf8 none all :=
  have hquiet : Quiet sampleNative 0 := fun _ _ => rfl
  listsItems_iff hquiet none _

/-- A key of 65 letters. -/
def longKey : List UInt8 := Lmbcs.asciiBytes (List.replicate 65 'N')

/-- A new note has no items, and the only item of another one has a name that does not fit. -/
theorem not_listsItems : ¬ ListsItems utf8 sampleNative none [] ∧
    ∀ t, exec (set utf8 sampleNative longKey 0 [] 0) ⟨0, []⟩ = (.ok (), t) →
      ¬ ListsItems utf8 sampleNative none t.value := by
  have hquiet : Quiet sampleNative 0 := fun _ _ => rfl
  refine ⟨not_lists_nil hquiet, ?_⟩
  rintro t hset hlists
  have hprintable : ∀ c ∈ List.replicate 65 'N', Lmbcs.Printable c := by
    intro c hc
    rw [List.eq_of_mem_replicate hc]
    decide
  have hname : Lmbcs.fromString utf8 longKey = longKey :=
    Lmbcs.keepsAscii_utf8.fromString_asciiBytes hprintable (by decide)
  have hplain : longKey.take (longKey.length % 2 ^ 16) = longKey := take_length_mod (by decide)
  obtain ⟨-, hitems, -⟩ := (delivers_set hname hplain 0 [] 0 []).of_ok hset
  obtain ⟨-, hlong, -⟩ := names_of_listsItems hquiet hlists
  have hmem : stored longKey 0 [] 0 ∈ t.value := by
    rw [hitems]
    exact List.mem_singleton_self _
  have hmatch := (hlong _ hmem (by decide)).1
  cases hmatch

end Dmn.Note
