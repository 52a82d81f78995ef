import Dmn.Model.Locker
import Dmn.Verification.Formula.ItemName
import Dmn.Verification.Native

/-! # Lock counts

What a program does to the locks of one block. A scope of a locker that borrows the block leaves
the number of its locks as it was. -/

namespace Dmn.Heap

open Exec Native

variable {native : Native} {α β : Type} {hdl k : Nat}

/-! ## Blocks -/

theorem valid_of_get? {heap : Heap} {block : Block} (h : heap.get? hdl = some block) :
    0 < hdl ∧ hdl ≤ heap.last := by
  obtain ⟨entry, hentry, _⟩ := Option.map_eq_some_iff.mp h
  rw [← Table.key_of_lookup Prod.fst hentry]
  exact heap.handle_valid entry (Table.mem_of_lookup Prod.fst hentry)

theorem get?_modify_self {heap : Heap} {block : Block} (h : heap.get? hdl = some block)
    (f : Block → Block) : (heap.modify hdl f).get? hdl = some (f block) := by
  obtain ⟨entry, hentry, rfl⟩ := Option.map_eq_some_iff.mp h
  have hkey := Table.key_of_lookup Prod.fst hentry
  rw [get?, modify, Table.lookup_modify Prod.fst hentry hkey (.inl rfl)]
  rfl

theorem get?_modify_of_ne (heap : Heap) {other : Nat} (hne : hdl ≠ other) (f : Block → Block) :
    (heap.modify other f).get? hdl = heap.get? hdl := by
  have hlookup := Table.lookup_modify_of_ne Prod.fst
    (f := fun entry => (entry.1, f entry.2)) (fun _ => rfl) heap.blocks hne
  rw [get?, modify, hlookup, ← get?]

theorem get?_add_self (heap : Heap) (block : Block) :
    (heap.add block).get? (heap.last + 1) = some block := by
  have hnone : Table.lookup Prod.fst (heap.last + 1) heap.blocks = none := by
    rw [Table.lookup_eq_none_iff]
    intro entry hentry heq
    have hle := (heap.handle_valid entry hentry).2
    omega
  rw [get?, add, Table.lookup_append_of_none Prod.fst (heap.last + 1, block) hnone rfl]
  rfl

theorem get?_of_last_lt {heap : Heap} (h : heap.last < hdl) : heap.get? hdl = none := by
  cases hblock : heap.get? hdl with
  | none => rfl
  | some block => exact absurd (valid_of_get? hblock).2 (Nat.not_le.mpr h)

theorem get?_add_of_ne (heap : Heap) (block : Block) (hne : hdl ≠ heap.last + 1) :
    (heap.add block).get? hdl = heap.get? hdl := by
  have hkey : ¬ heap.last + 1 = hdl := Ne.symm hne
  simp [get?, add, Table.lookup, List.find?_append, hkey]

theorem get?_add_of_some {heap : Heap} {block : Block} (h : heap.get? hdl = some block)
    (new : Block) : (heap.add new).get? hdl = some block := by
  obtain ⟨entry, hentry, rfl⟩ := Option.map_eq_some_iff.mp h
  rw [get?, add, Table.lookup, List.find?_append, ← Table.lookup, hentry]
  rfl

theorem get?_erase_of_ne (heap : Heap) {other : Nat} (hne : hdl ≠ other) :
    (heap.erase other).get? hdl = heap.get? hdl := by
  rw [get?, erase, Table.lookup_erase_of_ne Prod.fst heap.blocks hne, ← get?]

theorem get?_erase_self (heap : Heap) : (heap.erase hdl).get? hdl = none := by
  rw [get?, erase, Table.lookup_erase_self]
  rfl

/-- The block is locked `k` times. -/
def Locked (hdl k : Nat) (heap : Heap) : Prop :=
  ∃ block, heap.get? hdl = some block ∧ block.locks = k

theorem Locked.modify {heap : Heap} (h : Locked hdl k heap) {f : Block → Block} {k' : Nat}
    (hf : ∀ block, block.locks = k → (f block).locks = k') :
    Locked hdl k' (heap.modify hdl f) := by
  obtain ⟨block, hblock, hk⟩ := h
  exact ⟨f block, get?_modify_self hblock f, hf block hk⟩

theorem Locked.modify_of_ne {heap : Heap} (h : Locked hdl k heap) {other : Nat}
    (hne : hdl ≠ other) (f : Block → Block) : Locked hdl k (heap.modify other f) := by
  rw [Locked, get?_modify_of_ne heap hne]
  exact h

/-- A change of any block that leaves its locks. -/
theorem Locked.modify_any {heap : Heap} (h : Locked hdl k heap) {f : Block → Block}
    (hf : ∀ block, (f block).locks = block.locks) (other : Nat) :
    Locked hdl k (heap.modify other f) := by
  by_cases heq : hdl = other
  · subst heq
    exact h.modify fun block hk => (hf block).trans hk
  · exact h.modify_of_ne heq f

/-! ## Programs that leave the locks -/

/-- The program leaves the number of locks as it is, however it ends. -/
def Steady (hdl : Nat) (x : M α) : Prop := ∀ k, Preserves (Locked hdl k) x

theorem Steady.reads {x : M α} (hx : Reads x) : Steady hdl x := fun _ => hx.preserves

theorem Steady.bind {x : M α} {f : α → M β} (hx : Steady hdl x) (hf : ∀ a, Steady hdl (f a)) :
    Steady hdl (x >>= f) := fun k => Keeps.bind (hx k) fun a => hf a k

theorem Steady.pure (a : α) : Steady hdl (Pure.pure a : M α) := .reads (.pure a)

theorem Steady.throw (stop : Stop) : Steady hdl (MonadExcept.throw stop : M α) := .reads (.throw stop)

theorem Steady.tryCatch {x : M α} {f : Stop → M α} (hx : Steady hdl x)
    (hf : ∀ stop, Steady hdl (f stop)) : Steady hdl (MonadExcept.tryCatch x f) :=
  fun k => Keeps.tryCatch (hx k) fun stop => hf stop k

theorem Steady.call : Steady hdl (Native.call native : M Status) := .reads .call

theorem Steady.throwIfError (status : Status) (message : String) :
    Steady hdl (status.throwIfError message : M Unit) := .reads (.throwIfError _ _)

theorem reads_block (other : Nat) : Reads (block other) := by
  refine Reads.value.bind fun heap => ?_
  split
  · exact .throw _
  · exact .pure _

theorem Steady.block (other : Nat) : Steady hdl (block other) := .reads (reads_block other)

theorem Steady.modify (other : Nat) {f : Block → Block}
    (hf : ∀ block, (f block).locks = block.locks) : Steady hdl (Native.update (modify other f)) :=
  fun _ => .update fun _ h => h.modify_any hf other

theorem Steady.modify_of_ne {other : Nat} (hne : hdl ≠ other) (f : Block → Block) :
    Steady hdl (Native.update (Heap.modify other f)) :=
  fun _ => .update fun _ h => h.modify_of_ne hne f

theorem Steady.onBytes (other : Nat) (x : Native.M (List UInt8) α) :
    Steady hdl (onBytes other x) :=
  .bind (.block other) fun _ _ => .part_of_put fun bytes _ h =>
    h.modify_any (f := fun block => { block with bytes := bytes }) (fun _ => rfl) other

theorem Steady.osMemGetSize (other : Nat) : Steady hdl (osMemGetSize native other) :=
  .bind (.block other) fun _ => .bind .call fun _ => .pure _

theorem Steady.osMemRealloc (other newSize : Nat) :
    Steady hdl (osMemRealloc native other newSize) := by
  refine .bind (.block other) fun old => .bind (.reads fun _ => rfl) fun s => ?_
  split
  · exact .throw _
  · refine .bind .call fun result => ?_
    split
    · exact .pure _
    · exact .bind (.modify other fun _ => rfl) fun _ => .pure _

/-! ## Other blocks -/

theorem Steady.osLockBlock {other : Nat} (hne : hdl ≠ other) :
    Steady hdl (osLockBlock native other) := by
  refine .bind (.block other) fun _ => .bind .call fun result => ?_
  split
  · exact .pure _
  · exact .bind (.modify_of_ne hne _) fun _ => .pure _

theorem Steady.osUnlock {other : Nat} (hne : hdl ≠ other) : Steady hdl (osUnlock other) := by
  refine .bind (.block other) fun block => ?_
  split
  · exact .throw _
  · exact .modify_of_ne hne _

theorem Steady.osMemFree {other : Nat} (hne : hdl ≠ other) : Steady hdl (osMemFree other) :=
  .bind (.block other) fun _ _ => .update fun heap h => by
    rw [Locked, get?_erase_of_ne heap hne]
    exact h

/-- The program leaves the number of locks, and what it returns has a property. -/
def Gives (hdl : Nat) (x : M α) (p : α → Prop) : Prop :=
  ∀ k, Meets (fun s => Locked hdl k s.value) x (fun a s => Locked hdl k s.value ∧ p a)
    (fun _ s => Locked hdl k s.value)

theorem Gives.steady {x : M α} {p : α → Prop} (hx : Gives hdl x p) : Steady hdl x := by
  intro k s hs
  have hresult := hx k s hs
  rcases hexec : exec x s with ⟨_ | a, t⟩ <;> rw [hexec] at hresult
  · exact hresult
  · exact hresult.1

theorem Steady.gives {x : M α} {p : α → Prop} (hx : Steady hdl x) (hp : ∀ a, p a) :
    Gives hdl x p := by
  intro k s hs
  have hresult := hx k s hs
  rcases hexec : exec x s with ⟨_ | a, t⟩ <;> rw [hexec] at hresult
  · exact hresult
  · exact ⟨hresult, hp a⟩

theorem Gives.bind {x : M α} {f : α → M β} {p : α → Prop} {q : β → Prop} (hx : Gives hdl x p)
    (hf : ∀ a, p a → Gives hdl (f a) q) : Gives hdl (x >>= f) q :=
  fun k => (hx k).bind fun a => Meets.of_and fun ha => hf a ha k

theorem Steady.bind_gives {x : M α} {f : α → M β} {q : β → Prop} (hx : Steady hdl x)
    (hf : ∀ a, Gives hdl (f a) q) : Gives hdl (x >>= f) q :=
  (hx.gives fun _ => trivial).bind fun a _ => hf a

theorem Gives.bind_steady {x : M α} {f : α → M β} {p : α → Prop} (hx : Gives hdl x p)
    (hf : ∀ a, p a → Steady hdl (f a)) : Steady hdl (x >>= f) :=
  (hx.bind fun a ha => (hf a ha).gives fun _ => trivial).steady

theorem Gives.pure {a : α} {p : α → Prop} (h : p a) : Gives hdl (Pure.pure a : M α) p :=
  fun _ => Meets.pure fun _ hs => ⟨hs, h⟩

theorem Gives.throw {p : α → Prop} (stop : Stop) :
    Gives hdl (MonadExcept.throw stop : M α) p := fun _ => Meets.throw fun _ hs => hs

theorem gives_throwIfError (result : Status) (message : String) :
    Gives hdl (result.throwIfError message : M Unit) (fun _ => result.isError = false) :=
  fun _ => meets_throwIfError_of_isError fun _ _ hs => hs

/-- New memory has a new handle. -/
theorem gives_obtain (bytes : List UInt8) (locks : Nat) :
    Gives hdl (obtain bytes locks) (fun other => hdl ≠ other) := by
  intro k s hs
  obtain ⟨block, hblock, hk⟩ := hs
  have hle := (valid_of_get? hblock).2
  exact ⟨⟨block, get?_add_of_some hblock _, hk⟩, by omega⟩

theorem gives_osMemAlloc (size : Nat) :
    Gives hdl (osMemAlloc native size) (fun out => out.1.isError = false → hdl ≠ out.2) := by
  refine Steady.bind_gives (.reads fun _ => rfl) fun s => Steady.bind_gives .call fun result => ?_
  split
  · next herror => exact .pure fun hok => by rw [herror] at hok; cases hok
  · exact (gives_obtain _ 0).bind fun other hne => .pure fun _ => hne

end Dmn.Heap

namespace Dmn.Locker

open Exec Native Heap

variable {native : Native} {α : Type} {hdl k : Nat}

/-! ## Lockers on other blocks -/

theorem gives_make {other : Nat} (hne : hdl ≠ other) (size : Nat) (own : Ownership) :
    Gives hdl (make native other size own) (fun locker => hdl ≠ locker.hdl_) := by
  unfold make
  split
  · exact .throw _
  · split
    · exact .pure hne
    · refine (Steady.osLockBlock hne).bind_gives fun locked => ?_
      split
      · exact .pure hne
      · exact .throw _

theorem steady_destroy {locker : Locker} (hne : hdl ≠ locker.hdl_) :
    Steady hdl locker.destroy := by
  have hfree : Steady hdl (if locker.own_ ≠ .borrow then osMemFree locker.hdl_ else pure ()) := by
    split
    · exact .osMemFree hne
    · exact .pure _
  unfold destroy
  split
  · exact .pure _
  · dsimp only
    split
    · exact .bind (.osUnlock hne) fun _ => hfree
    · exact hfree

theorem gives_guarded {locker : Locker} (hne : hdl ≠ locker.hdl_) {x : M α} {p : α → Prop}
    (hx : Gives hdl x p) : Gives hdl (locker.guarded x) p := fun k =>
  (hx k).tryCatch fun stop => ((steady_destroy hne).bind_gives fun _ => .throw stop) k

theorem steady_within {acquire : M Locker} {body : Locker → M α}
    (hacquire : Gives hdl acquire fun locker => hdl ≠ locker.hdl_)
    (hbody : ∀ locker, hdl ≠ locker.hdl_ → Steady hdl (body locker)) :
    Steady hdl (within acquire body) :=
  hacquire.bind_steady fun locker hne =>
    .bind (gives_guarded hne ((hbody locker hne).gives fun _ => trivial)).steady fun _ =>
      .bind (steady_destroy hne) fun _ => .pure _

theorem steady_through (locker : Locker) (x : Cursor.M α) : Steady hdl (locker.through x) := by
  unfold through
  split
  · exact .throw _
  · exact .onBytes _ _

theorem gives_allocateImpl (size : Nat) (own : Ownership) :
    Gives hdl (allocateImpl native size own) (fun locker => hdl ≠ locker.hdl_) := by
  unfold allocateImpl
  split
  · exact .throw _
  · exact (gives_osMemAlloc size).bind fun out hout =>
      (gives_throwIfError out.1 _).bind fun _ hok => gives_make (hout hok) size own

theorem gives_allocate (buffer : List UInt8) (own : Ownership) :
    Gives hdl (allocate native buffer own) (fun locker => hdl ≠ locker.hdl_) :=
  (gives_allocateImpl buffer.length own).bind fun locker hne =>
    gives_guarded hne ((steady_through locker _).bind_gives fun _ => .pure hne)

theorem gives_clone (locker : Locker) :
    Gives hdl (locker.clone native) (fun copy => hdl ≠ copy.hdl_) :=
  (steady_through locker _).bind_gives fun bytes => gives_allocate bytes .take

/-! ## Lockers that borrow the block -/

theorem exec_block {block : Block} {s : Called Heap} (h : s.value.get? hdl = some block) :
    exec (Heap.block hdl) s = (.ok block, s) := by
  rw [Heap.block, exec_bind_of_ok (Native.exec_value _), h]
  rfl

theorem meets_osLockBlock : Meets (fun s => Locked hdl k s.value) (osLockBlock native hdl)
    (fun locked s => Locked hdl (if locked then k + 1 else k) s.value)
    (fun _ s => Locked hdl k s.value) := by
  intro s hs
  obtain ⟨block, hblock, hk⟩ := hs
  have hcalled : Locked hdl k ({ s with calls := s.calls + 1 } : Called Heap).value :=
    ⟨block, hblock, hk⟩
  rw [osLockBlock, exec_bind_of_ok (exec_block hblock), exec_bind_of_ok (exec_call s)]
  cases (native.status s.calls).isError with
  | true => exact hcalled
  | false => exact hcalled.modify fun _ hk => congrArg (· + 1) hk

theorem meets_osUnlock : Meets (fun s => Locked hdl (k + 1) s.value) (osUnlock hdl)
    (fun _ s => Locked hdl k s.value) (fun _ _ => False) := by
  intro s hs
  obtain ⟨block, hblock, hk⟩ := hs
  have hlocked : ¬ block.locks = 0 := by omega
  rw [osUnlock, exec_bind_of_ok (exec_block hblock), if_neg hlocked]
  exact Locked.modify ⟨block, hblock, hk⟩ fun block hk => by
    show block.locks - 1 = k
    omega

/-- The locker holds a lock on the block, and does not own it. -/
structure Borrows (hdl : Nat) (locker : Locker) : Prop where
  hdl_ : locker.hdl_ = hdl
  ne_zero : hdl ≠ 0
  own_ : locker.own_ = .borrow

/-- The program locks the block once and gives a locker that borrows it, or stops without. -/
def Borrowing (hdl : Nat) (x : M Locker) : Prop :=
  ∀ k, Meets (fun s => Locked hdl k s.value) x
    (fun locker s => Locked hdl (k + 1) s.value ∧ Borrows hdl locker)
    (fun _ s => Locked hdl k s.value)

theorem borrowing_make (size : Nat) : Borrowing hdl (make native hdl size .borrow) := by
  intro k
  unfold make
  split
  · exact Meets.throw fun _ hs => hs
  · next hne =>
    rw [if_neg (by decide)]
    refine meets_osLockBlock.bind fun locked => ?_
    cases locked with
    | true => exact Meets.pure fun _ hs => ⟨hs, rfl, hne, rfl⟩
    | false => exact Meets.throw fun _ hs => hs

theorem meets_destroy {locker : Locker} (h : Borrows hdl locker) :
    Meets (fun s => Locked hdl (k + 1) s.value) locker.destroy
      (fun _ s => Locked hdl k s.value) (fun _ _ => False) := by
  have hne : ¬ locker.hdl_ = 0 := by
    rw [h.hdl_]
    exact h.ne_zero
  unfold destroy
  rw [if_neg hne, h.own_, h.hdl_]
  exact meets_osUnlock.bind fun _ => Meets.pure fun _ hs => hs

theorem meets_guarded {locker : Locker} (h : Borrows hdl locker) {x : M α} {p : α → Prop}
    (hx : Gives hdl x p) : Meets (fun s => Locked hdl (k + 1) s.value) (locker.guarded x)
      (fun a s => Locked hdl (k + 1) s.value ∧ p a) (fun _ s => Locked hdl k s.value) :=
  (hx (k + 1)).tryCatch fun _ => ((meets_destroy h).weaken (fun _ hs => hs) (fun _ _ hs => hs)
    fun _ _ hs => hs.elim).bind fun _ => Meets.throw fun _ hs => hs

/-- A scope with a locker that borrows the block. -/
theorem steady_borrowed {acquire : M Locker} {body : Locker → M α}
    (hacquire : Borrowing hdl acquire)
    (hbody : ∀ locker, Borrows hdl locker → Steady hdl (body locker)) :
    Steady hdl (within acquire body) := by
  have hwithin : Gives hdl (within acquire body) (fun _ => True) := fun k =>
    (hacquire k).bind fun locker => Meets.of_and fun h =>
      (meets_guarded h ((hbody locker h).gives fun _ => trivial)).bind fun a =>
        ((meets_destroy h).weaken (fun _ hs => hs.1) (fun _ _ hs => hs)
          fun _ _ hs => hs.elim).bind fun _ => Meets.pure fun _ hs => ⟨hs, trivial⟩
  exact hwithin.steady

theorem borrowing_ofHandle : Borrowing hdl (ofHandle native hdl .borrow) := by
  intro k
  refine (borrowing_make 0 k).bind fun locker => Meets.of_and fun h => ?_
  refine (meets_guarded h ?_).weaken (fun _ hs => hs) (fun _ _ hs => hs) fun _ _ hs => hs
  exact (Steady.osMemGetSize hdl).bind_gives fun _ => (Steady.throwIfError _ _).bind_gives
    fun _ => .pure ⟨h.hdl_, h.ne_zero, h.own_⟩

/-! ## Scopes that leave the memory as it was -/

/-- A block with one lock more. -/
def relocked (block : Block) : Block := { block with locks := block.locks + 1 }

theorem modify_modify_relocked (heap : Heap) (hdl : Nat) :
    (heap.modify hdl relocked).modify hdl
      (fun block => { block with locks := block.locks - 1 }) = heap := by
  have hblocks := Table.modify_modify_of_inverse Prod.fst (k := hdl)
    (f := fun entry : Nat × Block => (entry.1, { entry.2 with locks := entry.2.locks - 1 }))
    (g := fun entry => (entry.1, relocked entry.2)) (fun _ => rfl) (fun _ => rfl) heap.blocks
  rcases heap with ⟨blocks, last, hvalid⟩
  simp only [Heap.modify, Heap.mk.injEq, and_true]
  exact hblocks

/-- A locker that borrows the block is destroyed. -/
theorem exec_destroy_relocked {locker : Locker} (h : Borrows hdl locker) {heap : Heap}
    {block : Block} (hblock : heap.get? hdl = some block) (n : Nat) :
    exec locker.destroy ⟨n, heap.modify hdl relocked⟩ = (.ok (), ⟨n, heap⟩) := by
  have hne : ¬ locker.hdl_ = 0 := by
    rw [h.hdl_]
    exact h.ne_zero
  unfold destroy
  rw [if_neg hne, h.own_, h.hdl_]
  have hlocked : exec (osUnlock hdl) ⟨n, heap.modify hdl relocked⟩ = (.ok (), ⟨n, heap⟩) := by
    have hlocks : ¬ (relocked block).locks = 0 := Nat.succ_ne_zero block.locks
    rw [osUnlock, exec_bind_of_ok (exec_block (get?_modify_self hblock relocked)), if_neg hlocks]
    show (Except.ok (), Called.mk n _) = _
    rw [modify_modify_relocked]
  exact exec_bind_of_ok hlocked

/-- A program in the scope of such a locker that only reads. -/
theorem exec_within_relocked {acquire : M Locker} {body : Locker → M α} {locker : Locker}
    {block : Block} {s : Called Heap} {n m : Nat} {result : Except Stop α}
    (hacquire : exec acquire s = (.ok locker, ⟨n, s.value.modify hdl relocked⟩))
    (h : Borrows hdl locker) (hblock : s.value.get? hdl = some block)
    (hbody : exec (body locker) ⟨n, s.value.modify hdl relocked⟩ =
      (result, ⟨m, s.value.modify hdl relocked⟩)) :
    exec (within acquire body) s = (result, ⟨m, s.value⟩) := by
  have hdestroy := exec_destroy_relocked h hblock m
  rw [within, exec_bind_of_ok hacquire]
  cases result with
  | ok a =>
      have hguarded : exec (locker.guarded (body locker)) ⟨n, s.value.modify hdl relocked⟩ =
          (.ok a, ⟨m, s.value.modify hdl relocked⟩) := by
        rw [guarded, exec_tryCatch, hbody]
      rw [exec_bind_of_ok hguarded, exec_bind_of_ok hdestroy]
      rfl
  | error stop =>
      have hguarded : exec (locker.guarded (body locker)) ⟨n, s.value.modify hdl relocked⟩ =
          (.error stop, ⟨m, s.value⟩) := by
        rw [guarded, exec_tryCatch, hbody]
        simp only
        rw [exec_bind_of_ok hdestroy]
        rfl
      rw [exec_bind_of_error hguarded]

/-- A handle is locked, or it throws and nothing is changed. -/
theorem exec_make_borrow (native : Native) {block : Block} {s : Called Heap} (hne : hdl ≠ 0)
    (hblock : s.value.get? hdl = some block) (size : Nat) :
    exec (make native hdl size .borrow) s =
      if (native.status s.calls).isError then
        (.error (.throws (.invalidHandle "Memory pointed to by handle is empty")),
          ⟨s.calls + 1, s.value⟩)
      else (.ok ⟨hdl, size, .borrow⟩, ⟨s.calls + 1, s.value.modify hdl relocked⟩) := by
  rw [make, if_neg hne, if_neg (by decide)]
  unfold osLockBlock
  rw [bind_assoc, exec_bind_of_ok (exec_block hblock), bind_assoc, exec_bind_of_ok (exec_call s)]
  cases (native.status s.calls).isError with
  | true => rfl
  | false => rfl

/-- The size of the memory is asked for behind the lock, which is given back when that fails. -/
theorem exec_ofHandle_borrow (native : Native) {block : Block} {s : Called Heap} (hne : hdl ≠ 0)
    (hblock : s.value.get? hdl = some block) :
    exec (ofHandle native hdl .borrow) s =
      if (native.status s.calls).isError then
        (.error (.throws (.invalidHandle "Memory pointed to by handle is empty")),
          ⟨s.calls + 1, s.value⟩)
      else if (native.status (s.calls + 1)).isError then
        (.error (.throws (.nativeError "Failed to determine size of memory"
          (native.status (s.calls + 1)))), ⟨s.calls + 2, s.value⟩)
      else (.ok ⟨hdl, block.bytes.length, .borrow⟩,
        ⟨s.calls + 2, s.value.modify hdl relocked⟩) := by
  have hmake := exec_make_borrow native hne hblock 0
  cases hlock : (native.status s.calls).isError with
  | true =>
      rw [hlock, if_pos rfl] at hmake
      rw [ofHandle, exec_bind_of_error hmake]
      rfl
  | false =>
      rw [hlock, if_neg Bool.false_ne_true] at hmake
      have hsize : exec (osMemGetSize native hdl) ⟨s.calls + 1, s.value.modify hdl relocked⟩ =
          (.ok (native.status (s.calls + 1), block.bytes.length),
            ⟨s.calls + 2, s.value.modify hdl relocked⟩) := by
        rw [osMemGetSize, exec_bind_of_ok (exec_block (get?_modify_self hblock relocked))]
        rfl
      rw [ofHandle, exec_bind_of_ok hmake, if_neg Bool.false_ne_true, guarded, exec_tryCatch,
        exec_bind_of_ok hsize]
      cases hfailed : (native.status (s.calls + 1)).isError with
      | true =>
          have hborrows : Borrows hdl ⟨hdl, 0, .borrow⟩ := ⟨rfl, hne, rfl⟩
          have hdestroy := exec_destroy_relocked hborrows hblock (s.calls + 2)
          simp only [exec_bind, Status.exec_throwIfError, hfailed, if_true, hdestroy, exec_throw]
      | false =>
          simp only [exec_bind, Status.exec_throwIfError, hfailed, Bool.false_eq_true, if_false,
            exec_pure]

/-- A program in the scope of a locker on the whole block, which only reads. -/
theorem answers_within_ofHandle {heap : Heap} {block : Block} (hblock : heap.get? hdl = some block)
    {body : Locker → M α} {result : Except Stop α}
    (hbody : ∀ n, exec (body ⟨hdl, block.bytes.length, .borrow⟩) ⟨n, heap.modify hdl relocked⟩ =
      (result, ⟨n, heap.modify hdl relocked⟩)) :
    Answers native (within (ofHandle native hdl .borrow) body) heap result := by
  intro n
  have hne : hdl ≠ 0 := Nat.ne_of_gt (valid_of_get? hblock).1
  have hcursor := exec_ofHandle_borrow native (s := ⟨n, heap⟩) hne hblock
  have hstatus : ∀ m, (native.status m).isError = true → native.status m ≠ .noError :=
    fun m herror hok => by rw [hok] at herror; cases herror
  cases hlock : (native.status n).isError with
  | true =>
      simp only [hlock, if_true] at hcursor
      exact ⟨n + 1, Nat.le_succ n, .inr ⟨⟨_, exec_bind_of_error hcursor⟩, n, Nat.le_refl n,
        Nat.lt_succ_self n, hstatus n hlock⟩⟩
  | false =>
      cases hsize : (native.status (n + 1)).isError with
      | true =>
          simp only [hlock, hsize, Bool.false_eq_true, if_false, if_true] at hcursor
          exact ⟨n + 2, by omega, .inr ⟨⟨_, exec_bind_of_error hcursor⟩, n + 1, Nat.le_succ n,
            Nat.lt_succ_self _, hstatus _ hsize⟩⟩
      | false =>
          simp only [hlock, hsize, Bool.false_eq_true, if_false] at hcursor
          have hwithin := exec_within_relocked hcursor ⟨rfl, hne, rfl⟩ hblock (hbody (n + 2))
          exact ⟨n + 2, by omega, .inl hwithin⟩

/-! ## Lockers that own their block -/

/-- The locker has a lock on its block, unless it was made without. -/
def Holds (locker : Locker) (heap : Heap) : Prop :=
  locker.own_ = .free ∨ ∃ k, Locked locker.hdl_ (k + 1) heap

theorem meets_make (hdl size : Nat) (own : Ownership) :
    Meets (fun _ => True) (make native hdl size own)
      (fun locker s => Holds locker s.value ∧ locker.own_ = own) (fun _ _ => True) := by
  unfold make
  split
  · exact Meets.throw fun _ _ => trivial
  · split
    · next hown => exact Meets.pure fun _ _ => ⟨.inl hown, rfl⟩
    · refine Meets.bind (Q := fun locked s => locked = true → ∃ k, Locked hdl (k + 1) s.value)
        ?_ fun locked => ?_
      · intro s _
        cases hblock : s.value.get? hdl with
        | none =>
            have hthrow : exec (Heap.block hdl) s = (.error .undefined, s) := by
              rw [Heap.block, exec_bind_of_ok (Native.exec_value _), hblock]
              rfl
            rw [osLockBlock, exec_bind_of_error hthrow]
            trivial
        | some block =>
            have hlocked := @meets_osLockBlock native hdl block.locks s ⟨block, hblock, rfl⟩
            rcases hexec : exec (osLockBlock native hdl) s with ⟨_ | locked, t⟩ <;>
              rw [hexec] at hlocked
            · trivial
            · intro htrue
              rw [htrue] at hlocked
              exact ⟨_, hlocked⟩
      · cases locked with
        | true => exact Meets.pure fun _ hs => ⟨.inr (hs rfl), rfl⟩
        | false => exact Meets.throw fun _ _ => trivial

variable {s t : Called Heap} {locker copy : Locker} {a : α}

theorem exec_guarded_eq_ok {x : M α} (h : exec (locker.guarded x) s = (.ok a, t)) :
    exec x s = (.ok a, t) := by
  unfold guarded at h
  rw [exec_tryCatch] at h
  rcases hx : exec x s with ⟨stop | b, u⟩ <;> rw [hx] at h
  · obtain ⟨_, _, _, hthrow⟩ := exec_bind_eq_ok h
    cases hthrow
  · exact h

theorem exec_within_eq_ok {acquire : M Locker} {body : Locker → M α}
    (h : exec (within acquire body) s = (.ok a, t)) : ∃ locker u v,
      exec acquire s = (.ok locker, u) ∧ exec (body locker) u = (.ok a, v) ∧
        exec locker.destroy v = (.ok (), t) := by
  obtain ⟨locker, u, hacquire, h⟩ := exec_bind_eq_ok h
  obtain ⟨b, v, hbody, h⟩ := exec_bind_eq_ok h
  obtain ⟨_, w, hdestroy, h⟩ := exec_bind_eq_ok h
  cases h
  exact ⟨locker, u, v, hacquire, exec_guarded_eq_ok hbody, hdestroy⟩

theorem Holds.steady (h : Holds locker s.value) {x : M α} (hx : Steady locker.hdl_ x)
    (hexec : exec x s = (.ok a, t)) : Holds locker t.value :=
  h.imp_right fun ⟨k, hk⟩ => ⟨k, Preserves.of_ok hexec hk (hx (k + 1))⟩

theorem holds_of_make {size : Nat} {own : Ownership}
    (h : exec (make native hdl size own) s = (.ok locker, t)) :
    Holds locker t.value ∧ locker.own_ = own :=
  (meets_make hdl size own).of_ok trivial h

theorem holds_of_ofHandle {own : Ownership}
    (h : exec (ofHandle native hdl own) s = (.ok locker, t)) :
    Holds locker t.value ∧ locker.own_ = own := by
  obtain ⟨made, u, hmake, h⟩ := exec_bind_eq_ok h
  obtain ⟨hholds, hown⟩ := holds_of_make hmake
  obtain ⟨size, v, hsize, h⟩ := exec_bind_eq_ok (exec_guarded_eq_ok h)
  obtain ⟨_, w, hthrow, h⟩ := exec_bind_eq_ok h
  cases h
  have hsized := hholds.steady (.osMemGetSize hdl) hsize
  exact ⟨hsized.steady (.throwIfError _ _) hthrow, hown⟩

theorem holds_of_allocateImpl {size : Nat} {own : Ownership}
    (h : exec (allocateImpl native size own) s = (.ok locker, t)) :
    Holds locker t.value ∧ locker.own_ = own := by
  unfold allocateImpl at h
  split at h
  · cases h
  · obtain ⟨⟨result, out⟩, _, _, h⟩ := exec_bind_eq_ok h
    obtain ⟨_, _, _, h⟩ := exec_bind_eq_ok h
    exact holds_of_make h

/-- A new locker through which the memory was filled. -/
theorem holds_of_allocated {size : Nat} {own : Ownership} {x : Cursor.M Unit}
    (h : exec (do
      let locker ← allocateImpl native size own
      locker.guarded do
        locker.through x
        pure locker) s = (.ok locker, t)) : Holds locker t.value ∧ locker.own_ = own := by
  obtain ⟨made, u, himpl, h⟩ := exec_bind_eq_ok h
  obtain ⟨hholds, hown⟩ := holds_of_allocateImpl himpl
  obtain ⟨_, v, hthrough, h⟩ := exec_bind_eq_ok (exec_guarded_eq_ok h)
  cases h
  exact ⟨hholds.steady (steady_through _ x) hthrough, hown⟩

theorem holds_of_clone (h : exec (locker.clone native) s = (.ok copy, t)) :
    Holds copy t.value ∧ copy.own_ = .take ∧ locker.own_ ≠ .free := by
  obtain ⟨_, u, hbytes, h⟩ := exec_bind_eq_ok h
  obtain ⟨hholds, hown⟩ := holds_of_allocated h
  refine ⟨hholds, hown, fun hfree => ?_⟩
  rw [Locker.bytes, through, if_pos hfree] at hbytes
  cases hbytes

/-- The clone of a locker that is destroyed afterwards. -/
theorem holds_of_within_clone {acquire : M Locker}
    (hacquire : ∀ s t locker, exec acquire s = (.ok locker, t) → Holds locker t.value)
    (h : exec (within acquire (Locker.clone native)) s = (.ok copy, t)) :
    Holds copy t.value ∧ copy.own_ = .take := by
  obtain ⟨source, u, v, hsource, hclone, hdestroy⟩ := exec_within_eq_ok h
  obtain ⟨hholds, hown, hsourceOwn⟩ := holds_of_clone hclone
  refine ⟨?_, hown⟩
  rcases hacquire _ _ _ hsource with hfree | ⟨k, hk⟩
  · exact absurd hfree hsourceOwn
  · have hne : source.hdl_ ≠ copy.hdl_ := (((gives_clone source) (k + 1)).of_ok hk hclone).2
    exact hholds.steady (steady_destroy hne.symm) hdestroy

end Dmn.Locker
