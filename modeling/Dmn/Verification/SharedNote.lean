import Dmn.Library.Run
import Dmn.Model.SharedNote
import Dmn.Verification.Note
import Dmn.Verification.NoteValue

/-! # What threads see of a shared note

One note, with the changes that each thread has not saved. The handles of the threads show it,
except for the items that another thread has saved since a handle was opened. -/

namespace Dmn.SharedNote

open Exec Native

variable {Thread : Type} [DecidableEq Thread] {env : NoteValue.Env} {α : Type}

/-! ## Items under their names -/

abbrev Name := List UInt8

abbrev Contents := Name → Option Item

def contents (items : List Item) : Contents := fun name => Table.lookup Item.name name items

theorem contents_put (item : Item) (items : List Item) :
    contents (Table.put Item.name item items) =
      Function.update (contents items) item.name (some item) := by
  funext name
  by_cases h : name = item.name
  · subst h
    simp [contents, Table.lookup_put_self]
  · simp [contents, h, Table.lookup_put_of_ne Item.name items (Ne.symm h)]

theorem contents_erase (name : Name) (items : List Item) :
    contents (Table.erase Item.name name items) = Function.update (contents items) name none := by
  funext other
  by_cases h : other = name
  · subst h
    simp [contents, Table.lookup_erase_self]
  · simp [contents, h, Table.lookup_erase_of_ne Item.name items h]

/-- The name that is looked up for a key, in LMBCS or as it is. -/
def convertedName (env : NoteValue.Env) (key : List UInt8) : Name :=
  Lmbcs.fromString env.codePage key

def plainName (key : List UInt8) : Name := key.take (key.length % 2 ^ 16)

/-- What `get` reads from a note. -/
def valueAt (env : NoteValue.Env) (key : List UInt8) (note : Contents) :
    Option (UInt16 × List UInt8) :=
  if (note (convertedName env key)).isSome then
    (note (plainName key)).map fun item => (item.type, item.value)
  else none

/-- The name of the item that `set` changes. -/
def target (env : NoteValue.Env) (key : List UInt8) (note : Contents) : Name :=
  if (note (convertedName env key)).isSome then plainName key else convertedName env key

/-! ## Methods on a handle -/

variable {items : List Item}

theorem meets_has (key : List UInt8) : Meets (fun s => s.value = items)
    (Note.has env.codePage key) (fun present s => s.value = items ∧
      present = (contents items (convertedName env key)).isSome) (fun _ s => s.value = items) := by
  intro s hs
  subst hs
  exact ⟨rfl, Note.any_name_eq _ _⟩

theorem meets_getItemValue (key : List UInt8) : Meets (fun s => s.value = items)
    (NoteValue.getItemValue env key) (fun result s => s.value = items ∧
      result = valueAt env key (contents items)) (fun _ s => s.value = items) := by
  refine (meets_has key).bind fun present => Meets.of_and fun hpresent => ?_
  split
  · next htrue =>
    refine (Note.meets_itemInfo key items).bind fun item => Meets.pure fun _ hs => ⟨hs.1, ?_⟩
    have hitem : contents items (plainName key) = some item := hs.2
    rw [valueAt, ← hpresent, if_pos htrue, hitem]
    rfl
  · next hfalse =>
    refine Meets.pure fun _ hs => ⟨hs, ?_⟩
    rw [valueAt, ← hpresent, if_neg hfalse]

/-- `set` puts one item, or fails and leaves the items. -/
theorem meets_set (key : List UInt8) (type : UInt16) (buffer : List UInt8) (flags : UInt16) :
    Meets (fun s => s.value = items) (Note.set env.codePage env.native key type buffer flags)
      (fun _ s => s.value = Table.put Item.name
        (Note.stored (target env key (contents items)) type buffer flags) items)
      (fun _ s => s.value = items) := by
  refine (meets_has key).bind fun present => Meets.of_and fun hpresent => ?_
  cases present with
  | true =>
      rw [target, ← hpresent, if_pos rfl, if_pos rfl]
      refine (meets_has key).bind fun present' => Meets.of_and fun hpresent' => ?_
      rw [hpresent', ← hpresent, if_pos rfl]
      refine (Note.meets_itemInfo key items).bind fun item => Meets.of_and fun hitem => ?_
      have hname : item.name = plainName key := Table.key_of_lookup Item.name hitem
      have hsome : (Table.lookup Item.name (plainName key) items).isSome :=
        Option.isSome_of_eq_some hitem
      have hput : Note.replaceFirst (plainName key) (Note.stored (plainName key) type buffer flags)
          items = Table.put Item.name (Note.stored (plainName key) type buffer flags) items :=
        Note.replaceFirst_eq_put (Note.stored (plainName key) type buffer flags) hsome
      rw [← hput, hname]
      refine meets_call_bind (fun _ hs => hs) (fun _ _ hs => hs) (meets_update fun _ hs => ?_)
      rw [hs]
      rfl
  | false =>
      rw [target, ← hpresent, if_neg Bool.false_ne_true, if_neg Bool.false_ne_true]
      have hnone : contents items (convertedName env key) = none :=
        Option.isNone_iff_eq_none.mp (by rw [← Option.not_isSome, ← hpresent]; rfl)
      have hput := Table.put_of_lookup_none Item.name
        (x := Note.stored (convertedName env key) type buffer flags) hnone
      rw [hput]
      refine meets_call_bind (fun _ hs => hs) (fun _ _ hs => hs) (meets_update fun _ hs => ?_)
      rw [hs]
      rfl

theorem meets_erase (key : List UInt8) : Meets (fun s => s.value = items)
    (Note.erase env.codePage env.native key)
    (fun _ s => s.value = Table.erase Item.name (convertedName env key) items)
    (fun _ s => s.value = items) := by
  refine meets_call_bind (fun _ hs => hs) (fun _ _ hs => hs) (meets_value_bind fun found => ?_)
  split
  · refine meets_update fun _ hs => ?_
    rw [hs.1]
    rfl
  · exact Meets.throw fun _ hs => hs.1

/-! ## Handles -/

variable {note : SharedNote Thread} {thread : Thread}

/-- The items that a thread works on. -/
def handle (note : SharedNote Thread) (thread : Thread) : List Item :=
  (note.handles thread).getD note.stored

/-- The thread has its handle. -/
def opened (note : SharedNote Thread) (thread : Thread) : SharedNote Thread :=
  note.withHandle thread (note.handle thread)

theorem meets_getHandle : Meets (fun s => s.value = note) (getHandle env thread)
    (fun items s => s.value = note.opened thread ∧ items = note.handle thread)
    (fun _ s => s.value = note) := by
  refine meets_value_bind fun found => ?_
  cases hhandle : found.handles thread with
  | some items =>
      refine Meets.pure fun s hs => ?_
      obtain ⟨hnote, hfound⟩ := hs
      have hitems : note.handles thread = some items := by rw [← hnote, hfound, hhandle]
      rw [opened, handle, hitems, Option.getD_some, withHandle, ← hitems,
        Function.update_eq_self]
      exact ⟨hnote, rfl⟩
  | none =>
      refine meets_call_bind (fun _ hs => hs) (fun _ _ hs => hs.1)
        ((meets_update (Q := fun _ s => s.value = note.opened thread ∧ found = note)
          fun s hs => ?_).bind fun _ => Meets.pure fun s hs => ⟨hs.1, ?_⟩)
      · obtain ⟨hnote, hfound⟩ := hs
        subst hnote
        subst hfound
        simp [opened, handle, hhandle]
      · obtain ⟨_, rfl⟩ := hs
        simp [handle, hhandle]

/-- What a method does to the items of a handle. -/
theorem meets_onHandle {x : Note.M α} {Q : α → List Item → Prop}
    (hx : Meets (fun s => s.value = note.handle thread) x (fun a s => Q a s.value)
      (fun _ s => s.value = note.handle thread)) :
    Meets (fun s => s.value = note) (onHandle env thread x)
      (fun a s => ∃ items, Q a items ∧ s.value = note.withHandle thread items)
      (fun _ s => s.value = note ∨ s.value = note.opened thread) := by
  refine (meets_getHandle.weaken (fun _ hs => hs) (fun _ _ hs => hs)
    fun _ _ hs => .inl hs).bind fun items => Meets.of_and fun hitems => ?_
  subst hitems
  intro s hs
  have hagain : ∀ items, (note.opened thread).withHandle thread items =
      note.withHandle thread items := by
    intro items
    simp [opened, withHandle]
  have hresult := hx ⟨s.calls, note.handle thread⟩ rfl
  rw [Native.part, exec_focus]
  rcases hexec : exec x ⟨s.calls, note.handle thread⟩ with ⟨_ | a, t⟩ <;> rw [hexec] at hresult
  · right
    simp only [hs, hagain]
    rw [show t.value = note.handle thread from hresult]
    rfl
  · exact ⟨t.value, hresult, by simp only [hs, hagain]⟩

theorem meets_save : Meets (fun s => s.value = note) (save env thread)
    (fun _ s => s.value = { note.opened thread with stored := note.handle thread })
    (fun _ s => s.value = note ∨ s.value = note.opened thread) := by
  refine (meets_getHandle.weaken (fun _ hs => hs) (fun _ _ hs => hs)
    fun _ _ hs => .inl hs).bind fun items => Meets.of_and fun hitems => ?_
  subst hitems
  refine meets_call_bind (fun _ hs => hs) (fun _ _ hs => .inr hs) (meets_update fun s hs => ?_)
  rw [hs]

/-! ## What the threads share -/

/-- The note as it was last saved, the changes of each thread since it opened or saved it, and the
items of which a thread's handle has another value than the one saved by another thread. -/
structure Ideal (Thread : Type) where
  saved : Contents
  changes : Thread → Name → Option (Option Item)
  overtaken : Thread → Name → Bool

namespace Ideal

/-- The note with the thread's own changes. -/
def view (ideal : Ideal Thread) (thread : Thread) : Contents := fun name =>
  (ideal.changes thread name).getD (ideal.saved name)

def change (thread : Thread) (name : Name) (item : Option Item) (ideal : Ideal Thread) :
    Ideal Thread :=
  { ideal with
    changes := Function.update ideal.changes thread
      (Function.update (ideal.changes thread) name (some item))
    overtaken := Function.update ideal.overtaken thread
      (Function.update (ideal.overtaken thread) name false) }

def save (thread : Thread) (hasHandle : Thread → Bool) (ideal : Ideal Thread) :
    Ideal Thread where
  saved := ideal.view thread
  changes := Function.update ideal.changes thread fun _ => none
  overtaken := Function.update (fun other name => ideal.overtaken other name ||
    (hasHandle other && (ideal.changes thread name).isSome)) thread fun _ => false

def forget (thread : Thread) (ideal : Ideal Thread) : Ideal Thread :=
  { ideal with
    changes := Function.update ideal.changes thread fun _ => none
    overtaken := Function.update ideal.overtaken thread fun _ => false }

end Ideal

/-- The handles show what the threads share, except for the items that were overtaken. -/
structure Follows (note : SharedNote Thread) (ideal : Ideal Thread) : Prop where
  stored : contents note.stored = ideal.saved
  shows : ∀ thread items, note.handles thread = some items → ∀ name,
    ideal.overtaken thread name = false → contents items name = ideal.view thread name
  closed : ∀ thread, note.handles thread = none → ∀ name,
    ideal.changes thread name = none ∧ ideal.overtaken thread name = false

namespace Follows

variable {ideal : Ideal Thread}

omit [DecidableEq Thread] in
theorem handle (h : Follows note ideal) {name : Name}
    (hname : ideal.overtaken thread name = false) :
    contents (note.handle thread) name = ideal.view thread name := by
  cases hhandle : note.handles thread with
  | some items => simpa [SharedNote.handle, hhandle] using h.shows thread items hhandle name hname
  | none =>
      simp [SharedNote.handle, hhandle, h.stored, Ideal.view, (h.closed thread hhandle name).1]

/-- One thread's handle is replaced, and what is shared about that thread with it. -/
theorem replaced (h : Follows note ideal) {found : Option (List Item)}
    {changes : Name → Option (Option Item)} {overtaken : Name → Bool}
    (hshows : ∀ items, found = some items → ∀ name, overtaken name = false →
      contents items name = (changes name).getD (ideal.saved name))
    (hclosed : found = none → ∀ name, changes name = none ∧ overtaken name = false) :
    Follows { note with handles := Function.update note.handles thread found }
      { ideal with
        changes := Function.update ideal.changes thread changes
        overtaken := Function.update ideal.overtaken thread overtaken } where
  stored := h.stored
  shows other items hitems name hname := by
    by_cases hother : other = thread
    · subst hother
      simp only [Function.update_self] at hitems hname
      simpa [Ideal.view] using hshows items hitems name hname
    · simp only [Function.update_of_ne hother] at hitems hname
      simpa [Ideal.view, hother] using h.shows other items hitems name hname
  closed other hnone name := by
    by_cases hother : other = thread
    · subst hother
      simp only [Function.update_self] at hnone
      simpa using hclosed hnone name
    · simp only [Function.update_of_ne hother] at hnone
      simpa [hother] using h.closed other hnone name

theorem opened (h : Follows note ideal) : Follows (note.opened thread) ideal := by
  have hopened : Follows (note.opened thread)
      { ideal with
        changes := Function.update ideal.changes thread (ideal.changes thread)
        overtaken := Function.update ideal.overtaken thread (ideal.overtaken thread) } := by
    refine h.replaced ?_ nofun
    rintro items hitems name hname
    cases hitems
    exact h.handle hname
  simpa using hopened

theorem changed (h : Follows note ideal) {items : List Item} {name : Name} {item : Option Item}
    (hitems : contents items =
      Function.update (contents (note.handle thread)) name item) :
    Follows (note.withHandle thread items) (ideal.change thread name item) := by
  refine h.replaced ?_ nofun
  rintro found hfound name' hname
  cases hfound
  rw [hitems]
  by_cases heq : name' = name
  · simp [heq]
  · simp only [Function.update_of_ne heq] at hname ⊢
    exact h.handle hname

theorem forgotten (h : Follows note ideal) :
    Follows { note with handles := Function.update note.handles thread none }
      (ideal.forget thread) :=
  h.replaced nofun fun _ _ => ⟨rfl, rfl⟩

/-- What is stored is the note with the changes of the thread that saves it. -/
theorem saved (h : Follows note ideal) (hthread : ∀ name, ideal.overtaken thread name = false) :
    Follows { note.opened thread with stored := note.handle thread }
      (ideal.save thread fun other => (note.handles other).isSome) := by
  have hstored : Follows { note with stored := note.handle thread }
      { ideal with
        saved := ideal.view thread
        overtaken := fun other name => ideal.overtaken other name ||
          ((note.handles other).isSome && (ideal.changes thread name).isSome) } :=
    { stored := funext fun name => h.handle (hthread name)
      shows := by
        intro other items hitems name hname
        have hitems' : note.handles other = some items := hitems
        simp only [hitems', Option.isSome_some, Bool.true_and, Bool.or_eq_false_iff,
          Option.isSome_eq_false_iff, Option.isNone_iff_eq_none] at hname
        simpa [Ideal.view, hname.2] using h.shows other items hitems name hname.1
      closed := by
        intro other hnone name
        have hnone' : note.handles other = none := hnone
        simpa [hnone'] using h.closed other hnone' name }
  refine hstored.replaced ?_ nofun
  rintro items hitems name -
  cases hitems
  exact h.handle (hthread name)

end Follows

/-! ## Runs -/

/-- What is shared changes with a method that returns. -/
def tracked (result : Except Stop Unit × Called (SharedNote Thread))
    (before after : Ideal Thread) : Called (SharedNote Thread) × Ideal Thread :=
  match result with
  | (.ok _, t) => (t, after)
  | (.error _, t) => (t, before)

def track (env : NoteValue.Env) (s : Called (SharedNote Thread) × Ideal Thread) :
    Op Thread → Called (SharedNote Thread) × Ideal Thread
  | .get thread key => ((exec (get env thread key) s.1).2, s.2)
  | .set thread key type buffer flags =>
      let name := target env key (contents (s.1.value.handle thread))
      tracked (exec (set env thread key type buffer flags) s.1) s.2
        (s.2.change thread name (some (Note.stored name type buffer flags)))
  | .erase thread key =>
      tracked (exec (erase env thread key) s.1) s.2
        (s.2.change thread (convertedName env key) none)
  | .save thread =>
      tracked (exec (save env thread) s.1) s.2
        (s.2.save thread fun other => (s.1.value.handles other).isSome)
  | .endContext thread => tracked (exec (endContext thread) s.1) s.2 (s.2.forget thread)

/-- No other thread has saved what the thread gets, or anything before it saves, since its handle
was opened. -/
def InTime (env : NoteValue.Env) (s : Called (SharedNote Thread) × Ideal Thread) :
    Op Thread → Prop
  | .get thread key => s.2.overtaken thread (convertedName env key) = false ∧
      s.2.overtaken thread (plainName key) = false
  | .save thread => ∀ name, s.2.overtaken thread name = false
  | _ => True

/-- What is stored is what was saved last, and `get` returns it, or the thread's own change. Under a
key that means one item, it returns unless a native call reports an error. -/
structure Shown (env : NoteValue.Env) (s : Called (SharedNote Thread) × Ideal Thread)
    (op : Op Thread) : Prop where
  stored : contents s.1.value.stored = s.2.saved
  get : ∀ thread key, op = .get thread key → ∀ result t,
    exec (get env thread key) s.1 = (.ok result, t) → result = valueAt env key (s.2.view thread)
  returns : ∀ thread key, op = .get thread key → convertedName env key = plainName key →
    Quiet env.native s.1.calls → ∃ result t, exec (SharedNote.get env thread key) s.1 = (.ok result, t)

/-- No thread has opened the note. -/
def start (n : Nat) (items : List Item) : Called (SharedNote Thread) × Ideal Thread :=
  (⟨n, items, fun _ => none⟩, ⟨contents items, fun _ _ => none, fun _ _ => false⟩)

variable {s : Called (SharedNote Thread) × Ideal Thread}

theorem follows_tracked {x : M Thread Unit} {after : Ideal Thread} (h : Follows s.1.value s.2)
    (hx : Meets (fun t => t.value = s.1.value) x (fun _ t => Follows t.value after)
      (fun _ t => t.value = s.1.value ∨ t.value = s.1.value.opened thread)) :
    Follows (tracked (exec x s.1) s.2 after).1.value (tracked (exec x s.1) s.2 after).2 := by
  replace hx := hx s.1 rfl
  rcases hexec : exec x s.1 with ⟨_ | _, t⟩ <;> rw [hexec] at hx
  · rcases hx with hnote | hopened
    · simpa only [tracked, hnote] using h
    · simpa only [tracked, hopened] using h.opened
  · exact hx

theorem follows_onHandle {x : Note.M Unit} {name : Name} {item : Option Item}
    {items : List Item} (h : Follows s.1.value s.2)
    (hitems : contents items =
      Function.update (contents (s.1.value.handle thread)) name item)
    (hx : Meets (fun t => t.value = s.1.value.handle thread) x (fun _ t => t.value = items)
      (fun _ t => t.value = s.1.value.handle thread)) :
    Follows (tracked (exec (onHandle env thread x) s.1) s.2 (s.2.change thread name item)).1.value
      (tracked (exec (onHandle env thread x) s.1) s.2 (s.2.change thread name item)).2 := by
  have hmeets : Meets (fun t => t.value = s.1.value) (onHandle env thread x)
      (fun _ t => ∃ found, found = items ∧ t.value = s.1.value.withHandle thread found)
      (fun _ t => t.value = s.1.value ∨ t.value = s.1.value.opened thread) :=
    meets_onHandle hx
  refine follows_tracked h (hmeets.weaken (fun _ ht => ht) ?_ fun _ _ ht => ht)
  rintro _ t ⟨found, rfl, hnote⟩
  rw [hnote]
  exact h.changed hitems

theorem follows_save (h : Follows s.1.value s.2)
    (hthread : ∀ name, s.2.overtaken thread name = false) :
    Follows (track env s (.save thread)).1.value (track env s (.save thread)).2 := by
  refine follows_tracked h (meets_save.weaken (fun _ ht => ht) ?_ fun _ _ ht => ht)
  rintro _ t hnote
  rw [hnote]
  exact h.saved hthread

theorem meets_get (note : SharedNote Thread) (thread : Thread) (key : List UInt8) :
    Meets (fun t => t.value = note) (get env thread key)
      (fun result t => t.value = note.opened thread ∧
        result = valueAt env key (contents (note.handle thread)))
      (fun _ t => t.value = note ∨ t.value = note.opened thread) := by
  have hget : Meets (fun t => t.value = note) (get env thread key)
      (fun result t => ∃ items, (items = note.handle thread ∧
        result = valueAt env key (contents (note.handle thread))) ∧
          t.value = note.withHandle thread items)
      (fun _ t => t.value = note ∨ t.value = note.opened thread) :=
    meets_onHandle (meets_getItemValue key)
  refine hget.weaken (fun _ h => h) ?_ fun _ _ h => h
  rintro result t ⟨items, ⟨rfl, hresult⟩, ht⟩
  exact ⟨ht, hresult⟩

theorem delivers_getHandle (note : SharedNote Thread) (thread : Thread) :
    ∃ after, Delivers env.native (getHandle env thread) note (note.handle thread) after := by
  cases hhandle : note.handles thread with
  | some items =>
      refine ⟨note, (Delivers.value note).bind ?_⟩
      rw [handle, hhandle]
      exact .pure _ _
  | none =>
      refine ⟨note.withHandle thread note.stored, (Delivers.value note).bind ?_⟩
      rw [handle, hhandle]
      exact .call_bind ((Delivers.update _ _).bind (.pure _ _))

/-- Under a key that means one item, its value is read. -/
theorem delivers_getItemValue {key : List UInt8} (hkey : convertedName env key = plainName key)
    (items : List Item) : Delivers env.native (NoteValue.getItemValue env key) items
      (valueAt env key (contents items)) items := by
  have hname : Lmbcs.fromString env.codePage key = plainName key := hkey
  refine (Note.delivers_has hname items).bind ?_
  rw [valueAt, hkey]
  cases hitem : Table.lookup Item.name (plainName key) items with
  | some item =>
      rw [contents, hitem]
      exact (Note.delivers_itemInfo rfl hitem).bind (.pure _ _)
  | none =>
      rw [contents, hitem]
      exact .pure _ _

theorem delivers_get {key : List UInt8} (hkey : convertedName env key = plainName key)
    (note : SharedNote Thread) (thread : Thread) : ∃ after, Delivers env.native (get env thread key)
      note (valueAt env key (contents (note.handle thread))) after := by
  obtain ⟨after, hhandle⟩ : ∃ after, Delivers env.native (getHandle env thread) note _ after :=
    delivers_getHandle note thread
  exact ⟨_, hhandle.bind (Delivers.part (delivers_getItemValue hkey _))⟩

theorem follows_track {op : Op Thread} (h : Follows s.1.value s.2) (htime : InTime env s op) :
    Follows (track env s op).1.value (track env s op).2 := by
  cases op with
  | get thread key =>
      have hget : Meets (fun t => t.value = s.1.value) (get env thread key)
          (fun result t => t.value = s.1.value.opened thread ∧
            result = valueAt env key (contents (s.1.value.handle thread)))
          (fun _ t => t.value = s.1.value ∨ t.value = s.1.value.opened thread) :=
        meets_get s.1.value thread key
      replace hget := hget s.1 rfl
      show Follows (exec (get env thread key) s.1).2.value s.2
      rcases hexec : exec (get env thread key) s.1 with ⟨_ | result, t⟩ <;> rw [hexec] at hget
      · rcases hget with hnote | hopened
        · simpa only [hnote] using h
        · simpa only [hopened] using h.opened
      · simpa only [hget.1] using h.opened
  | set thread key type buffer flags =>
      exact follows_onHandle h (contents_put _ _) (meets_set key type buffer flags)
  | erase thread key => exact follows_onHandle h (contents_erase _ _) (meets_erase key)
  | save thread => exact follows_save h htime
  | endContext thread => exact h.forgotten

theorem shown_of_follows {op : Op Thread} (h : Follows s.1.value s.2)
    (htime : InTime env s op) : Shown env s op := by
  refine ⟨h.stored, ?_, ?_⟩
  · rintro thread key rfl result t hexec
    have hresult := ((meets_get s.1.value thread key).of_ok rfl hexec).2
    rw [hresult, valueAt, valueAt, h.handle htime.1, h.handle htime.2]
  · rintro thread key rfl hkey hquiet
    obtain ⟨after, hget⟩ := delivers_get hkey s.1.value thread
    obtain ⟨_, -, hexec⟩ := hget.of_quiet hquiet
    exact ⟨_, _, hexec⟩

/-- In a run where no thread gets or saves through a handle that was overtaken, each `get` returns
what was saved last, and no `save` puts an older value back. -/
theorem shown_run (items : List Item) (n : Nat) {ops : List (Op Thread)}
    (h : Run.Along (track env) (InTime env) (start n items) ops) :
    Run.Along (track env) (Shown env) (start n items) ops ∧
      contents (Run.after (track env) (start n items) ops).1.value.stored =
        (Run.after (track env) (start n items) ops).2.saved := by
  have hstart : Follows (start n items : Called (SharedNote Thread) × Ideal Thread).1.value
      (start n items : Called (SharedNote Thread) × Ideal Thread).2 :=
    ⟨rfl, nofun, fun _ _ _ => ⟨rfl, rfl⟩⟩
  generalize (start n items : Called (SharedNote Thread) × Ideal Thread) = s at h hstart ⊢
  induction ops generalizing s with
  | nil => exact ⟨trivial, hstart.stored⟩
  | cons op ops ih =>
      obtain ⟨hrest, hlast⟩ := ih _ h.2 (follows_track hstart h.1)
      exact ⟨⟨shown_of_follows hstart h.1, hrest⟩, hlast⟩

def sampleItem (letter : UInt8) : Item := ⟨[0x4E], Note.itemSummary, typeText, [letter]⟩

/-- The first thread saves an item that the second one has read. -/
def sampleOps : List (Op Bool) :=
  [.get false [0x4E], .set true [0x4E] typeText [0x62] 0, .save true]

/-- The second thread sets the item again before it saves. -/
theorem shown_run_sample :
    let ops := sampleOps ++ [.set false [0x4E] typeText [0x63] 0, .get false [0x4E], .save false]
    Run.Along (track NoteValue.sampleEnv) (Shown NoteValue.sampleEnv)
        (start 0 [sampleItem 0x61]) ops ∧
      contents (Run.after (track NoteValue.sampleEnv)
          (start 0 [sampleItem 0x61]) ops).1.value.stored =
        (Run.after (track NoteValue.sampleEnv) (start 0 [sampleItem 0x61]) ops).2.saved := by
  have hsaved : ∀ name : Name, Function.update
      (fun _ => false : Name → Bool) [0x4E] false name = false := by
    intro name
    simp
  have hset : ∀ (item : Option Item) (name : Name), Function.update (fun other =>
      (Function.update (fun _ => none : Name → Option (Option Item)) [0x4E] (some item)
        other).isSome) [0x4E] false name = false := by
    intro item name
    by_cases h : name = [0x4E] <;> simp [h]
  exact shown_run [sampleItem 0x61] 0
    ⟨⟨rfl, rfl⟩, trivial, hsaved, trivial, ⟨rfl, rfl⟩, hset _, trivial⟩

/-- The second thread still gets the old item, and puts it back when it saves. -/
theorem not_shown_of_overtaken :
    (¬ ∀ (env : NoteValue.Env) (items : List Item) (n : Nat) (ops : List (Op Bool)),
      Run.Along (track env) (Shown env) (start n items) ops) ∧
    ¬ ∀ (env : NoteValue.Env) (items : List Item) (n : Nat) (ops : List (Op Bool)),
      contents (Run.after (track env) (start n items) ops).1.value.stored =
        (Run.after (track env) (start n items) ops).2.saved := by
  constructor
  · intro h
    obtain ⟨_, _, _, ⟨_, hget, _⟩, _⟩ :=
      h NoteValue.sampleEnv [sampleItem 0x61] 0 (sampleOps ++ [.get false [0x4E]])
    exact absurd (hget false [0x4E] rfl _ _ rfl) (by decide)
  · intro h
    have hput := congrFun (h NoteValue.sampleEnv [sampleItem 0x61] 0
      (sampleOps ++ [.set false [0x4D] typeText [] 0, .save false])) [0x4E]
    exact absurd hput (by decide)

end Dmn.SharedNote
