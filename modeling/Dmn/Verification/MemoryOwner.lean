import Dmn.Library.Run
import Dmn.Model.MemoryRuns
import Dmn.Verification.Locker
import Dmn.Verification.NoteValue

/-! # Locks of objects that own memory

No method changes how often the memory of its object is locked. An object that takes its handle
from a locker keeps the locker's lock, every other one is built without a lock. -/

namespace Dmn.MemoryOwner

open Exec Native Heap Locker

variable {env : Env} {self : MemoryOwner} {α : Type} {hdl : Nat}

/-! ## Cursors -/

theorem gives_getHandle : Gives hdl self.getHandle (fun found => found = self.hdl_) := by
  unfold getHandle
  split
  · exact .throw _
  · exact .pure rfl

theorem steady_getHandle : Steady hdl self.getHandle := gives_getHandle.steady

/-- A locker on the object's handle. -/
theorem borrowing_handle {f : Nat → Heap.M Locker} (hf : Borrowing self.hdl_ (f self.hdl_)) :
    Borrowing self.hdl_ (self.getHandle >>= f) := fun k =>
  (gives_getHandle k).bind fun found => Meets.of_and fun hfound => by
    subst hfound
    exact hf k

theorem borrowing_steady {x : Heap.M α} {f : α → Heap.M Locker} (hx : Steady hdl x)
    (hf : ∀ a, Borrowing hdl (f a)) : Borrowing hdl (x >>= f) := fun k =>
  (hx.gives (fun _ => trivial) k).bind fun a => Meets.of_and fun _ => hf a k

theorem borrowing_borrowed : Borrowing self.hdl_ (borrowed env self) :=
  borrowing_handle (borrowing_make _)

/-- A scope with such a locker, on this block or another one. -/
theorem steady_borrowed_scope {body : Locker → Heap.M α}
    (hbody : ∀ locker, Steady hdl (body locker)) :
    Steady hdl (within (borrowed env self) body) := by
  by_cases hself : hdl = self.hdl_
  · subst hself
    exact steady_borrowed borrowing_borrowed fun locker _ => hbody locker
  · have hborrowed : Gives hdl (borrowed env self) (fun locker => hdl ≠ locker.hdl_) :=
      gives_getHandle.bind fun found hfound =>
        gives_make (fun heq => hself (heq.trans hfound)) _ .borrow
    exact steady_within hborrowed fun locker _ => hbody locker

theorem steady_formulaSize : Steady hdl (formulaSize env self) :=
  .bind steady_getHandle fun _ => .bind .call fun _ => .bind (.throwIfError _ _) fun _ =>
    .bind (.block _) fun _ => .pure _

theorem borrowing_formulaGetCursor : Borrowing self.hdl_ (formulaGetCursor env self) :=
  borrowing_handle (borrowing_steady steady_formulaSize fun _ => borrowing_make _)

theorem borrowing_namesGetCursor : Borrowing self.hdl_ (namesGetCursor env self) :=
  borrowing_handle borrowing_ofHandle

theorem steady_entries (other : Nat) : Steady hdl (entries other) := by
  refine .bind (.block other) fun block => ?_
  split
  · exact .throw _
  · exact .pure _

theorem steady_bufferSize : Steady hdl (bufferSize env self) :=
  steady_borrowed_scope fun _ => .bind (steady_entries _) fun _ => .pure _

theorem borrowing_listGetCursor : Borrowing self.hdl_ (listGetCursor env self) :=
  borrowing_handle (borrowing_steady steady_bufferSize fun _ => borrowing_make _)

variable (env self) in
theorem borrowing_getCursor (c : Class) : Borrowing self.hdl_ (getCursor env c self) := by
  cases c with
  | value => exact borrowing_borrowed
  | formula => exact borrowing_formulaGetCursor
  | names => exact borrowing_namesGetCursor
  | list => exact borrowing_listGetCursor
  | lotusscript => exact borrowing_borrowed

/-! ## Reading through a cursor -/

theorem exec_getHandle_of_ne (h : self.hdl_ ≠ 0) (s : Called Heap) :
    exec self.getHandle s = (.ok self.hdl_, s) := by
  rw [getHandle, if_neg h]
  rfl

theorem exec_getHandle_of_eq (h : self.hdl_ = 0) (s : Called Heap) :
    exec self.getHandle s = (.error (.throws (.invalidHandle "Empty handle accessed")), s) := by
  rw [getHandle, if_pos h]
  rfl

/-- What is read of the entries of a list, or the exception of the lock. -/
theorem exec_borrowed_entries (f : TextList.Entries → α) {s : Called Heap} {block : Block}
    {entries : TextList.Entries} (hne : self.hdl_ ≠ 0)
    (hblock : s.value.get? self.hdl_ = some block)
    (hentries : TextList.ofBytes block.bytes = some entries) :
    exec (within (borrowed env self) fun list => do
      let entries ← MemoryOwner.entries list.hdl_
      pure (f entries)) s =
      (if (env.native.status s.calls).isError then
        .error (.throws (.invalidHandle "Memory pointed to by handle is empty"))
      else .ok (f entries), ⟨s.calls + 1, s.value⟩) := by
  have hmake := exec_make_borrow env.native hne hblock self.size_
  have hborrowed : exec (borrowed env self) s =
      exec (make env.native self.hdl_ self.size_ .borrow) s := by
    rw [borrowed, exec_bind_of_ok (exec_getHandle_of_ne hne s)]
  rw [← hborrowed] at hmake
  cases hstatus : (env.native.status s.calls).isError with
  | true =>
      rw [hstatus, if_pos rfl] at hmake
      rw [within, exec_bind_of_error hmake]
      rfl
  | false =>
      rw [hstatus, if_neg Bool.false_ne_true] at hmake
      apply exec_within_relocked hmake ⟨rfl, hne, rfl⟩ hblock
      rw [MemoryOwner.entries, bind_assoc,
        exec_bind_of_ok (exec_block (get?_modify_self hblock relocked))]
      simp only [relocked, hentries]
      rfl

theorem exec_borrowed_of_eq (h : self.hdl_ = 0) (s : Called Heap) (body : Locker → Heap.M α) :
    exec (within (borrowed env self) body) s =
      (.error (.throws (.invalidHandle "Empty handle accessed")), s) := by
  have hborrowed : exec (borrowed env self) s =
      (.error (.throws (.invalidHandle "Empty handle accessed")), s) := by
    rw [borrowed, exec_bind_of_error (exec_getHandle_of_eq h s)]
  rw [within, exec_bind_of_error hborrowed]

/-! ## New objects -/

/-- A released locker has nothing to destroy. -/
theorem exec_takeFrom (locker : Locker) (size : Nat) (s : Called Heap) :
    exec (takeFrom locker size) s = (.ok ⟨locker.hdl_, size⟩, s) := rfl

theorem steady_takeFrom (locker : Locker) (size : Nat) : Steady hdl (takeFrom locker size) :=
  .reads fun _ => rfl

theorem steady_formulaOfSpan (buffer : List UInt8) : Steady hdl (formulaOfSpan env buffer) :=
  .bind (gives_allocate buffer .take).steady fun obj => steady_takeFrom obj 0

theorem gives_listOf (entries : TextList.Entries) (size : Nat) :
    Gives hdl (listOf entries size) (fun list => hdl ≠ list.hdl_) :=
  (gives_obtain _ 1).bind fun _ hne => (Steady.osUnlock hne).bind_gives fun _ => .pure hne

theorem gives_list : Gives hdl (list env) (fun list => hdl ≠ list.hdl_) :=
  Steady.call.bind_gives fun _ => (Steady.throwIfError _ _).bind_gives fun _ => gives_listOf _ _

theorem steady_listOfSpan (buffer : List UInt8) : Steady hdl (listOfSpan env buffer) := by
  unfold listOfSpan
  split
  · exact .throw _
  · split
    · exact .throw _
    · refine .bind .call fun _ => .bind (.throwIfError _ _) fun _ => ?_
      split
      · exact .throw _
      · exact (gives_listOf _ 0).steady

/-! ## Methods of a list -/

theorem steady_listSize : Steady hdl (listSize env self) :=
  steady_borrowed_scope fun _ => .bind (steady_entries _) fun _ => .pure _

theorem steady_listAt (index : Nat) : Steady hdl (listAt env self index) := by
  refine .bind steady_listSize fun count => ?_
  split
  · exact .throw _
  · refine steady_borrowed_scope fun _ => .bind (steady_entries _) fun _ => .bind .call fun _ =>
      .bind (.throwIfError _ _) fun _ => ?_
    split
    · exact .throw _
    · exact .pure _

theorem steady_listChange (f : TextList.Entries → TextList.Entries) (message : String) :
    Steady hdl (listChange env self f message) := by
  refine .bind steady_getHandle fun found => .bind (steady_entries found) fun entries => ?_
  split
  · exact .throw _
  · refine .bind .call fun _ => .bind (.throwIfError _ _) fun _ => ?_
    split
    · exact .bind (.modify found fun _ => rfl) fun _ => .pure _
    · exact .throw _

theorem steady_listPushBack (value : List UInt8) : Steady hdl (listPushBack env self value) := by
  dsimp only [listPushBack]
  split
  · exact .throw _
  · refine .bind steady_listSize fun count => ?_
    split
    · exact .throw _
    · exact steady_listChange _ _

theorem steady_listErase (index : Nat) : Steady hdl (listErase env self index) := by
  refine .bind steady_listSize fun count => ?_
  split
  · exact .throw _
  · exact steady_listChange _ _

theorem steady_listPopBack : Steady hdl (listPopBack env self) := by
  refine .bind steady_listSize fun count => ?_
  split
  · exact .throw _
  · exact steady_listErase _

/-! ## Methods of a formula -/

/-- The text is unlocked and freed, and it is another block. -/
theorem steady_decompile (isSelectionFormula : Bool) :
    Steady self.hdl_ (decompile env self isSelectionFormula) :=
  steady_borrowed borrowing_formulaGetCursor fun input _ =>
    .bind (steady_through input _) fun _ => .bind .call fun _ =>
      .bind (.throwIfError _ _) fun _ => (gives_obtain _ 0).bind_steady fun _ hne =>
        steady_within (gives_make hne _ .take) fun output _ =>
          .bind (steady_through output _) fun _ => .pure _

theorem steady_merge (other : MemoryOwner) : Steady hdl (merge env self other) :=
  .bind steady_getHandle fun _ => .bind steady_getHandle fun found => .bind (.block _) fun _ =>
    .bind .call fun _ => .bind (.throwIfError _ _) fun _ => .modify found fun _ => rfl

theorem steady_addSummary (itemName : List UInt8) : Steady hdl (addSummary env self itemName) :=
  .bind steady_getHandle fun _ => .onBytes _ _

theorem steady_checkedCast (n : Nat) : Steady hdl (checkedCast n : Heap.M UInt16) :=
  .reads (.checkedCast n)

/-- The program does not return while the block is locked. -/
def Refuses (hdl : Nat) (x : Heap.M α) : Prop :=
  ∀ k, Meets (fun s => Locked hdl (k + 1) s.value) x (fun _ _ => False) (fun _ _ => True)

theorem Refuses.bind {β : Type} {x : Heap.M α} {f : α → Heap.M β} (hx : Refuses hdl x) :
    Refuses hdl (x >>= f) := fun k => (hx k).bind fun _ _ hs => hs.elim

theorem Refuses.of_bind {β : Type} {x : Heap.M α} {f : α → Heap.M β} (hx : Steady hdl x)
    (hf : ∀ a, Refuses hdl (f a)) : Refuses hdl (x >>= f) := fun k =>
  ((hx.gives (fun _ => trivial) (k + 1)).weaken (fun _ hs => hs) (fun _ _ hs => hs.1)
    fun _ _ _ => trivial).bind fun a => hf a k

theorem refuses_osMemRealloc (newSize : Nat) :
    Refuses hdl (osMemRealloc env.native hdl newSize) := by
  intro k s hs
  obtain ⟨block, hblock, hk⟩ := hs
  have hlocked : block.locks ≠ 0 := by omega
  rw [osMemRealloc, exec_bind_of_ok (exec_block hblock), exec_bind_of_ok (exec_get s),
    if_pos hlocked]
  trivial

/-- An item name takes more memory, and memory that is locked cannot be resized. -/
theorem refuses_addItemName (itemName : List UInt8) :
    Refuses self.hdl_ (addItemName env self itemName) := by
  refine .of_bind (steady_borrowed borrowing_formulaGetCursor fun cursor _ =>
    .bind (steady_through cursor _) fun _ => .pure _) fun hdr => ?_
  split
  · exact fun k => Meets.throw fun _ _ => trivial
  · refine .of_bind (steady_checkedCast _) fun nameSize => .of_bind (steady_checkedCast _)
      fun paddedSize => .of_bind (steady_checkedCast _) fun newLength =>
      .of_bind (steady_checkedCast _) fun newOffset => ?_
    intro k
    refine ((gives_getHandle (k + 1)).weaken (fun _ hs => hs) (fun _ _ hs => hs)
      fun _ _ _ => trivial).bind fun found => Meets.of_and fun hfound => ?_
    subst hfound
    exact (refuses_osMemRealloc _).bind k

theorem steady_addItemName (itemName : List UInt8) :
    Steady self.hdl_ (addItemName env self itemName) := by
  refine .bind (steady_borrowed borrowing_formulaGetCursor fun cursor _ =>
    .bind (steady_through cursor _) fun _ => .pure _) fun hdr => ?_
  split
  · exact .throw _
  · refine .bind (steady_checkedCast _) fun nameSize => .bind (steady_checkedCast _) fun paddedSize =>
      .bind (steady_checkedCast _) fun newLength => .bind (steady_checkedCast _) fun newOffset =>
      .bind steady_getHandle fun found => .bind (.osMemRealloc found _) fun _ =>
      .bind (.throwIfError _ _) fun _ => steady_borrowed borrowing_formulaGetCursor fun cursor _ => ?_
    split
    · exact .throw _
    · exact .bind (.onBytes found _) fun _ => steady_through cursor _

/-! ## Methods of a names list -/

theorem steady_setAuthentication (state : AuthenticationState) :
    Steady self.hdl_ (setAuthentication env self state) :=
  steady_borrowed borrowing_namesGetCursor fun _ _ => .onBytes _ _

theorem steady_ofExcept (result : Except Stop α) :
    Steady hdl (Exec.ofExcept result : Heap.M α) :=
  .reads fun s => by rw [exec_ofExcept]

theorem steady_namesSize : Steady self.hdl_ (Names.size env self) :=
  steady_borrowed borrowing_namesGetCursor fun _ _ =>
    .bind (.block _) fun _ => .bind (steady_ofExcept _) fun _ => .pure _

theorem steady_namesGet (index : Nat) : Steady self.hdl_ (Names.get env self index) := by
  refine .bind steady_namesSize fun count => ?_
  split
  · exact .throw _
  · exact steady_borrowed borrowing_namesGetCursor fun _ _ =>
      .bind (.block _) fun _ => steady_ofExcept _

theorem steady_namesTryGet (index : Nat) : Steady self.hdl_ (Names.tryGet env self index) := by
  refine .tryCatch (.bind (steady_namesGet index) fun _ => .pure _) fun stop => ?_
  split
  · exact .pure _
  · exact .throw _

theorem steady_namesClone : Steady self.hdl_ (namesClone env self) :=
  .bind (steady_borrowed borrowing_namesGetCursor fun lock _ => (gives_clone lock).steady)
    fun copy => steady_takeFrom copy 0

/-! ## Methods of a value -/

theorem steady_valueTryAs {convert : Locker → Heap.M (Option α)}
    (hconvert : ∀ cursor, Steady hdl (convert cursor)) :
    Steady hdl (valueTryAs env self convert) := by
  unfold valueTryAs
  split
  · exact .pure _
  · refine .tryCatch (steady_borrowed_scope hconvert) fun stop => ?_
    split
    · exact .pure _
    · exact .throw _

/-- A list that is thrown away is another block. -/
theorem steady_convertList (cursor : Locker) : Steady hdl (convertList env cursor) := by
  refine .bind (steady_through cursor _) fun type => ?_
  split
  · refine .bind (steady_through cursor _) fun text => gives_list.bind_steady fun list hne => ?_
    have hdestroy : Steady hdl list.destroy := by
      unfold destroy
      split
      · exact .pure _
      · exact .osMemFree hne
    refine .bind (.tryCatch (steady_listPushBack _) fun _ => .bind hdestroy fun _ => .throw _)
      fun _ => .pure _
  · split
    · exact .bind (steady_through cursor _) fun _ =>
        .bind (steady_listOfSpan _) fun _ => .pure _
    · exact .pure _

theorem steady_convertFormula (cursor : Locker) : Steady hdl (convertFormula env cursor) := by
  refine .bind (steady_through cursor _) fun span => ?_
  split
  · exact .pure _
  · exact .bind (steady_formulaOfSpan _) fun _ => .pure _

theorem steady_calling {x : Heap.M α} (hx : Steady hdl x) : Steady hdl (self.calling x) :=
  .bind hx fun _ => .pure _

variable (env) in
/-- No method changes the number of locks. -/
theorem Method.steady {c : Class} (method : Method c) : Steady self.hdl_ (method.perform env self) := by
  cases method with
  | read x => exact steady_calling (steady_borrowed_scope fun cursor => steady_through cursor x)
  | tryAs x => exact steady_calling (steady_valueTryAs fun cursor => steady_through cursor x)
  | tryAsList => exact steady_calling (steady_valueTryAs steady_convertList)
  | tryAsFormula => exact steady_calling (steady_valueTryAs steady_convertFormula)
  | formulaSize => exact steady_calling steady_formulaSize
  | decompile isSelectionFormula => exact steady_calling (steady_decompile isSelectionFormula)
  | merge other => exact steady_calling (steady_merge other)
  | addSummary itemName => exact steady_calling (steady_addSummary itemName)
  | addItemName itemName => exact steady_calling (steady_addItemName itemName)
  | setAuthentication state => exact steady_calling (steady_setAuthentication state)
  | namesSize => exact steady_calling steady_namesSize
  | namesAt index => exact steady_calling (steady_namesGet index)
  | namesTryAt index => exact steady_calling (steady_namesTryGet index)
  | clone => exact steady_calling steady_namesClone
  | listSize => exact steady_calling steady_listSize
  | bufferSize => exact steady_calling steady_bufferSize
  | listAt index => exact steady_calling (steady_listAt index)
  | pushBack value => exact steady_listPushBack value
  | popBack => exact steady_listPopBack
  | erase index => exact steady_listErase index
  | clear => exact steady_listChange _ _

/-! ## Construction -/

variable {s t : Called Heap} {object : MemoryOwner}

theorem locked_obtain {bytes : List UInt8} {locks : Nat}
    (h : exec (obtain bytes locks) s = (.ok hdl, t)) : Locked hdl locks t.value := by
  cases h
  exact ⟨⟨locks, bytes⟩, get?_add_self _ _, rfl⟩

theorem LockerOrigin.holds_of_acquire {origin : LockerOrigin} {locker : Locker}
    (h : exec (origin.acquire env) s = (.ok locker, t)) : Holds locker t.value := by
  induction origin generalizing s t locker with
  | allocated size own x => exact (holds_of_allocated h).1
  | copied buffer own => exact (holds_of_allocated h).1
  | ofHandle hdl own => exact (holds_of_ofHandle h).1
  | ofSize hdl size own => exact (holds_of_make h).1
  | cloned source ih => exact (holds_of_within_clone (fun _ _ _ => ih) h).1

/-- An object that takes the handle of a locker keeps its lock. -/
theorem locked_of_takeFrom {locker : Locker} {size : Nat} (hlocker : Holds locker s.value)
    (hown : locker.own_ = .take) (h : exec (takeFrom locker size) s = (.ok object, t)) :
    ∃ k, Locked object.hdl_ (k + 1) t.value := by
  rw [exec_takeFrom] at h
  cases h
  rcases hlocker with hfree | hlocked
  · rw [hown] at hfree
    cases hfree
  · exact hlocked

theorem locked_of_value {origin : LockerOrigin}
    (h : exec ((Origin.value origin).construct env) s = (.ok object, t)) :
    ∃ k, Locked object.hdl_ (k + 1) t.value := by
  obtain ⟨locker, u, hacquire, h⟩ := exec_bind_eq_ok h
  unfold value at h
  split at h
  · obtain ⟨_, _, _, hthrow⟩ := exec_bind_eq_ok h
    cases hthrow
  · next hown =>
    exact locked_of_takeFrom (LockerOrigin.holds_of_acquire hacquire) (not_not.mp hown) h

theorem locked_of_formulaOfSpan {buffer : List UInt8}
    (h : exec (formulaOfSpan env buffer) s = (.ok object, t)) :
    ∃ k, Locked object.hdl_ (k + 1) t.value := by
  obtain ⟨locker, u, hallocate, h⟩ := exec_bind_eq_ok h
  obtain ⟨hholds, hown⟩ := holds_of_allocated hallocate
  exact locked_of_takeFrom hholds hown h

theorem locked_of_namesClone {source : MemoryOwner}
    (h : exec (namesClone env source) s = (.ok object, t)) :
    ∃ k, Locked object.hdl_ (k + 1) t.value := by
  obtain ⟨copy, u, hclone, h⟩ := exec_bind_eq_ok h
  have hcursor : ∀ s t locker, exec (namesGetCursor env source) s = (.ok locker, t) →
      Holds locker t.value := by
    intro s t locker hlocker
    obtain ⟨_, _, _, hlocker⟩ := exec_bind_eq_ok hlocker
    exact (holds_of_ofHandle hlocker).1
  obtain ⟨hholds, hown⟩ := holds_of_within_clone hcursor hclone
  exact locked_of_takeFrom hholds hown h

theorem steady_cString (locker : Locker) : Steady hdl (cString locker) := by
  refine .bind (steady_through locker _) fun bytes => ?_
  split
  · exact .pure _
  · exact .throw _

theorem locked_of_lotusscript {code : List UInt8}
    (h : exec (lotusscript env code) s = (.ok object, t)) :
    ∃ k, Locked object.hdl_ (k + 1) t.value := by
  obtain ⟨⟨destHdl, errorHdl⟩, u, _, h⟩ := exec_bind_eq_ok h
  simp only at h
  split at h
  · -- an error text ends in an exception
    obtain ⟨_, _, _, _, herror, _⟩ := exec_within_eq_ok h
    obtain ⟨_, _, _, hthrow⟩ := exec_bind_eq_ok herror
    cases hthrow
  · obtain ⟨lock, v, hlock, h⟩ := exec_bind_eq_ok h
    obtain ⟨hholds, hown⟩ := holds_of_ofHandle hlock
    obtain ⟨text, w, htext, h⟩ := exec_bind_eq_ok h
    have hheld := hholds.steady (steady_cString lock) (exec_guarded_eq_ok htext)
    exact locked_of_takeFrom hheld hown h

theorem locked_of_formulaOfCode {code : List UInt8}
    (h : exec (formulaOfCode env code) s = (.ok object, t)) : Locked object.hdl_ 0 t.value := by
  obtain ⟨_, _, _, h⟩ := exec_bind_eq_ok h
  obtain ⟨_, _, _, h⟩ := exec_bind_eq_ok h
  obtain ⟨_, _, _, h⟩ := exec_bind_eq_ok h
  obtain ⟨_, _, _, h⟩ := exec_bind_eq_ok h
  obtain ⟨_, _, hobtain, h⟩ := exec_bind_eq_ok h
  cases h
  exact locked_obtain hobtain

theorem locked_of_fromUsername {name : List UInt8}
    (h : exec (fromUsername env name) s = (.ok object, t)) : Locked object.hdl_ 0 t.value := by
  obtain ⟨_, _, _, h⟩ := exec_bind_eq_ok h
  obtain ⟨_, _, _, h⟩ := exec_bind_eq_ok h
  obtain ⟨_, _, hobtain, h⟩ := exec_bind_eq_ok h
  cases h
  exact locked_obtain hobtain

theorem locked_of_listOf {entries : TextList.Entries} {size : Nat}
    (h : exec (listOf entries size) s = (.ok object, t)) : Locked object.hdl_ 0 t.value := by
  obtain ⟨hdl, u, hobtain, h⟩ := exec_bind_eq_ok h
  obtain ⟨_, _, hunlock, h⟩ := exec_bind_eq_ok h
  cases h
  exact meets_osUnlock.of_ok (locked_obtain hobtain) hunlock

theorem locked_of_list (h : exec (list env) s = (.ok object, t)) :
    Locked object.hdl_ 0 t.value := by
  obtain ⟨_, _, _, h⟩ := exec_bind_eq_ok h
  obtain ⟨_, _, _, h⟩ := exec_bind_eq_ok h
  exact locked_of_listOf h

theorem locked_of_listOfSpan {buffer : List UInt8}
    (h : exec (listOfSpan env buffer) s = (.ok object, t)) : Locked object.hdl_ 0 t.value := by
  unfold listOfSpan at h
  split at h
  · cases h
  · split at h
    · cases h
    · obtain ⟨_, _, _, h⟩ := exec_bind_eq_ok h
      obtain ⟨_, _, _, h⟩ := exec_bind_eq_ok h
      split at h
      · cases h
      · exact locked_of_listOf h

/-- The object takes its handle from a locker. -/
def Origin.HandsOver {c : Class} : Origin c → Prop
  | value _ | formulaOfSpan _ | cloned _ | lotusscript _ => True
  | formulaOfCode _ | fromUsername _ | list | listOfSpan _ => False

/-- What the locks of a new object are. -/
theorem Origin.locked_of_construct {c : Class} {origin : Origin c}
    (h : exec (origin.construct env) s = (.ok object, t)) :
    ∃ k, Locked object.hdl_ k t.value ∧ (k = 0 ↔ ¬ origin.HandsOver) := by
  have hover : (∃ k, Locked object.hdl_ (k + 1) t.value) → origin.HandsOver →
      ∃ k, Locked object.hdl_ k t.value ∧ (k = 0 ↔ ¬ origin.HandsOver) := by
    rintro ⟨k, hk⟩ hover
    exact ⟨k + 1, hk, by simp [hover]⟩
  have hfree : Locked object.hdl_ 0 t.value → ¬ origin.HandsOver →
      ∃ k, Locked object.hdl_ k t.value ∧ (k = 0 ↔ ¬ origin.HandsOver) :=
    fun hk hnot => ⟨0, hk, by simp [hnot]⟩
  cases origin with
  | value locker => exact hover (locked_of_value h) trivial
  | formulaOfCode code => exact hfree (locked_of_formulaOfCode h) id
  | formulaOfSpan buffer => exact hover (locked_of_formulaOfSpan h) trivial
  | fromUsername name => exact hfree (locked_of_fromUsername h) id
  | cloned source => exact hover (locked_of_namesClone h) trivial
  | list => exact hfree (locked_of_list h) id
  | listOfSpan buffer => exact hfree (locked_of_listOfSpan h) id
  | lotusscript code => exact hover (locked_of_lotusscript h) trivial

/-! ## Runs -/

/-- While no cursor is alive, the object's memory is not locked. -/
def Unlocked (s : State) : Prop :=
  s.object.hdl_ ≠ 0 → s.cursors = [] → Locked s.object.hdl_ 0 s.memory.value

/-- An object that has its handle is locked `k` times, and once more by each cursor. -/
def Balanced (k : Nat) (s : State) : Prop :=
  s.object.hdl_ ≠ 0 → Locked s.object.hdl_ (k + s.cursors.length) s.memory.value ∧
    ∀ cursor ∈ s.cursors, Borrows s.object.hdl_ cursor

theorem balanced_step {c : Class} {k : Nat} (s : State) (op : Op c) (h : Balanced k s) :
    Balanced k (step env s op) := by
  cases op with
  | call method =>
      rcases hexec : exec (method.perform env s.object) s.memory with ⟨_ | size, memory⟩
      all_goals
        simp only [step, hexec]
        intro hne
        obtain ⟨hlocked, hcursors⟩ := h hne
        have hsteady := (method.steady env (k + s.cursors.length)) s.memory hlocked
        rw [hexec] at hsteady
        exact ⟨hsteady, hcursors⟩
  | getCursor =>
      have hborrowing := borrowing_getCursor env s.object c (k + s.cursors.length)
      rcases hexec : exec (MemoryOwner.getCursor env c s.object) s.memory with ⟨_ | cursor, memory⟩ <;>
        simp only [step, hexec]
      · intro hne
        obtain ⟨hlocked, hcursors⟩ := h hne
        exact ⟨hborrowing.of_error hlocked hexec, hcursors⟩
      · intro hne
        obtain ⟨hlocked, hcursors⟩ := h hne
        obtain ⟨hmore, hborrows⟩ := hborrowing.of_ok hlocked hexec
        exact ⟨hmore, List.forall_mem_cons.mpr ⟨hborrows, hcursors⟩⟩
  | drop index =>
      cases hcursor : s.cursors[index]? with
      | none =>
          simp only [step, hcursor]
          exact h
      | some cursor =>
          simp only [step, hcursor]
          intro hne
          obtain ⟨hlocked, hcursors⟩ := h hne
          obtain ⟨hindex, rfl⟩ := List.getElem?_eq_some_iff.mp hcursor
          have hlength : (s.cursors.eraseIdx index).length + 1 = s.cursors.length :=
            List.length_eraseIdx_add_one hindex
          rw [← hlength, ← Nat.add_assoc] at hlocked
          have hdestroy := meets_destroy (hcursors _ (List.getElem_mem hindex)) s.memory hlocked
          refine ⟨?_, fun other hother => hcursors other (List.mem_of_mem_eraseIdx hother)⟩
          rcases hexec : exec s.cursors[index].destroy s.memory with ⟨_ | _, memory⟩ <;>
            rw [hexec] at hdestroy
          · exact hdestroy.elim
          · exact hdestroy
  | release => exact fun hne => absurd rfl hne

/-- An object is unlocked in every run, just if it was not given a locked handle. -/
theorem unlocked_run_iff {c : Class} {origin : Origin c} {s t : Called Heap}
    {object : MemoryOwner} (h : exec (origin.construct env) s = (.ok object, t)) :
    (∀ ops : List (Op c), Unlocked (Run.after (step env) ⟨t, object, []⟩ ops)) ↔
      ¬ origin.HandsOver := by
  obtain ⟨k, hlocked, hk⟩ := origin.locked_of_construct h
  rw [← hk]
  constructor
  · intro hunlocked
    obtain ⟨block, hblock, rfl⟩ := hlocked
    have hne := (valid_of_get? hblock).1
    obtain ⟨other, hother, hzero⟩ := hunlocked [] (Nat.ne_of_gt hne) rfl
    cases hblock.symm.trans hother
    exact hzero
  · rintro rfl ops hne hnone
    have hbalanced : Balanced 0 (Run.after (step env) ⟨t, object, []⟩ ops) :=
      Run.after_of_invariant (fun _ op hs => balanced_step _ op hs)
        (fun _ => ⟨hlocked, List.forall_mem_nil _⟩) ops
    obtain ⟨hfree, _⟩ := hbalanced hne
    rw [hnone] at hfree
    exact hfree

def sampleEnv : Env where
  toNoteValue := NoteValue.sampleEnv
  compile code := code
  decompile _ formula := formula
  textFormat code := (some code, none)
  buildNamesList name := name
  numNames _ := 1
  sizeofNamesList := 0
  authenticate _ names := names

/-- No memory has been handed out. -/
def noMemory : Called Heap := ⟨0, ⟨[], 0, List.forall_mem_nil _⟩⟩

theorem unlocked_run_iff_list :
    let memory := (exec (Origin.list.construct sampleEnv) noMemory).2
    (∀ ops : List (Op .list),
        Unlocked (Run.after (step sampleEnv) ⟨memory, ⟨1, 4⟩, []⟩ ops)) ↔
      ¬ Origin.list.HandsOver :=
  have h : exec (Origin.list.construct sampleEnv) noMemory =
    (.ok ⟨1, 4⟩, (exec (Origin.list.construct sampleEnv) noMemory).2) := rfl
  unlocked_run_iff h

/-- A formula of six bytes, as it is read from an item. -/
theorem not_unlocked_of_formulaOfSpan : ¬ ∀ (env : Env) (c : Class) (origin : Origin c)
    (s t : Called Heap) (object : MemoryOwner),
      exec (origin.construct env) s = (.ok object, t) → ∀ ops : List (Op c),
        Unlocked (Run.after (step env) ⟨t, object, []⟩ ops) := by
  intro h
  let origin := Origin.formulaOfSpan [6, 0, 0, 0, 6, 0]
  obtain ⟨block, hblock, hlocks⟩ := h sampleEnv .formula origin noMemory
    (exec (origin.construct sampleEnv) noMemory).2 ⟨1, 0⟩ rfl [] Nat.one_ne_zero rfl
  have hlocked : block = ⟨1, [6, 0, 0, 0, 6, 0]⟩ := (Option.some.inj hblock).symm
  rw [hlocked] at hlocks
  exact absurd hlocks (by decide)

end Dmn.MemoryOwner
