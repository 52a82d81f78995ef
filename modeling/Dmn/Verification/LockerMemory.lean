import Dmn.Model.MemoryOwner
import Dmn.Verification.Locker

/-! # Memory of one locker

A locker that allocates owns a new block, which an object can take and lend to another locker. Once the
owner is destroyed the memory is as before. A block that could not be locked is left. -/

namespace Dmn.Locker

open Exec Native Heap

variable {native : Native} {α : Type} {start heap : Heap} {locker : Locker} {bytes : List UInt8}

/-! ## Memory of one locker -/

/-- The blocks are those of the start. -/
structure Settled (start heap : Heap) : Prop where
  get? : ∀ hdl, heap.get? hdl = start.get? hdl
  last : start.last ≤ heap.last

/-- The block is the only new one. -/
structure Has (start : Heap) (block : Block) (hdl : ℕ) (heap : Heap) : Prop where
  block : heap.get? hdl = some block
  other : ∀ hdl' ≠ hdl, heap.get? hdl' = start.get? hdl'
  fresh : start.last < hdl

/-- The locker has the only new block, and has locked it. -/
structure Owns (start : Heap) (bytes : List UInt8) (locker : Locker) (heap : Heap) : Prop extends
    Has start ⟨1, bytes⟩ locker.hdl_ heap where
  own_ : locker.own_ = .take
  size_ : locker.size_ = bytes.length

/-- The locker has memory of this size. -/
def Owned (start : Heap) (size : ℕ) (locker : Locker) (heap : Heap) : Prop :=
  ∃ bytes : List UInt8, Owns start bytes locker heap ∧ bytes.length = size

/-- A block may be left that could not be locked. -/
structure Left (start heap : Heap) : Prop where
  block : ∃ leaked, start.last < leaked ∧ (∀ hdl ≠ leaked, heap.get? hdl = start.get? hdl) ∧
    ∀ block, heap.get? leaked = some block → block.locks = 0
  last : start.last ≤ heap.last

theorem Settled.refl (heap : Heap) : Settled heap heap := ⟨fun _ => rfl, Nat.le_refl _⟩

theorem Settled.left (h : Settled start heap) : Left start heap where
  block := by
    refine ⟨start.last + 1, Nat.lt_succ_self _, fun hdl _ => h.get? hdl, fun block hblock => ?_⟩
    rw [h.get?, get?_of_last_lt (Nat.lt_succ_self _)] at hblock
    cases hblock
  last := h.last

theorem Settled.trans {heap' : Heap} (h : Settled start heap) (h' : Settled heap heap') :
    Settled start heap' := ⟨fun hdl => (h'.get? hdl).trans (h.get? hdl), h.last.trans h'.last⟩

theorem Settled.left_of_left {heap' : Heap} (h : Settled start heap) (h' : Left heap heap') :
    Left start heap' := by
  obtain ⟨⟨leaked, hfresh, hother, hlocks⟩, hlast⟩ := h'
  exact ⟨⟨leaked, h.last.trans_lt hfresh, fun hdl hne => (hother hdl hne).trans (h.get? hdl), hlocks⟩,
    h.last.trans hlast⟩

namespace Has

variable {block : Block} {hdl : ℕ} (h : Has start block hdl heap)
include h

theorem last : start.last ≤ heap.last :=
  (Nat.le_of_lt h.fresh).trans (valid_of_get? h.block).2

theorem ne_zero : hdl ≠ 0 := Nat.ne_of_gt (Nat.zero_lt_of_lt h.fresh)

theorem erase : Settled start (heap.erase hdl) where
  get? other := by
    by_cases heq : other = hdl
    · rw [heq, get?_erase_self, get?_of_last_lt h.fresh]
    · rw [get?_erase_of_ne heap heq, h.other other heq]
  last := h.last

theorem modify (f : Block → Block) : Has start (f block) hdl (heap.modify hdl f) where
  block := get?_modify_self h.block f
  other other hne := (get?_modify_of_ne heap hne f).trans (h.other other hne)
  fresh := h.fresh

end Has

theorem Owns.setBytes (h : Owns start bytes locker heap) {bytes' : List UInt8}
    (hlength : bytes'.length = bytes.length) :
    Owns start bytes' locker
      (heap.modify locker.hdl_ fun block => { block with bytes := bytes' }) where
  toHas := h.modify fun block => { block with bytes := bytes' }
  own_ := h.own_
  size_ := h.size_.trans hlength.symm

/-- A new block that is locked. -/
theorem Settled.owns (h : Settled start heap) (bytes : List UInt8) {size : ℕ}
    (hsize : size = bytes.length) : Owns start bytes ⟨heap.last + 1, size, .take⟩
      ((heap.add ⟨0, bytes⟩).modify (heap.last + 1) relocked) where
  block := get?_modify_self (get?_add_self heap _) relocked
  other hdl hne := by
    rw [get?_modify_of_ne _ hne, get?_add_of_ne _ _ hne, h.get?]
  fresh := Nat.lt_succ_of_le h.last
  own_ := rfl
  size_ := hsize

/-- A new block that could not be locked. -/
theorem Settled.left_add (h : Settled start heap) (bytes : List UInt8) :
    Left start (heap.add ⟨0, bytes⟩) where
  block := by
    refine ⟨heap.last + 1, Nat.lt_succ_of_le h.last, fun hdl hne => ?_, fun block hblock => ?_⟩
    · rw [get?_add_of_ne _ _ hne, h.get?]
    · rw [get?_add_self] at hblock
      cases hblock
      rfl
  last := Nat.le_succ_of_le h.last

/-! ## Contracts of one locker -/

/-- An exception. -/
def Throws (P : Heap → Prop) (stop : Stop) (s : Called Heap) : Prop :=
  stop ≠ .undefined ∧ P s.value

theorem throws {P : Heap → Prop} {s : Called Heap} (h : P s.value) (error : Error) :
    Throws P (.throws error) s := ⟨Stop.noConfusion, h⟩

theorem meets_osMemAlloc {size : ℕ} (hsize : size < 2 ^ 32) :
    Meets (fun s => Settled start s.value) (osMemAlloc native size)
      (fun out s => (out.1.isError = true → Settled start s.value) ∧
        (out.1.isError = false → ∃ heap bytes, Settled start heap ∧ bytes.length = size ∧
          s.value = heap.add ⟨0, bytes⟩ ∧ out.2 = heap.last + 1))
      (fun _ _ => False) := by
  intro s hs
  unfold osMemAlloc
  rw [exec_bind_of_ok (exec_get s), exec_bind_of_ok (exec_call s)]
  cases hstatus : (native.status s.calls).isError with
  | true =>
      refine ⟨fun _ => hs, fun hok => ?_⟩
      rw [hstatus] at hok
      cases hok
  | false =>
      refine ⟨fun herror => ?_, fun _ => ⟨s.value, _, hs, ?_, rfl, rfl⟩⟩
      · rw [hstatus] at herror
        cases herror
      · rw [List.length_map, List.length_range, Nat.mod_eq_of_lt hsize]

/-- `locker::allocate`. -/
theorem meets_allocateImpl {size : ℕ} (hsize : size < 2 ^ 32) :
    Meets (fun s => Settled start s.value) (allocateImpl native size .take)
      (fun locker s => Owned start size locker s.value)
      (Throws (Left start)) := by
  unfold allocateImpl
  split
  · exact Meets.throw fun s hs => throws hs.left _
  · refine ((meets_osMemAlloc hsize).weaken (fun _ hs => hs) (fun _ _ hs => hs)
      fun _ _ hs => hs.elim).bind fun out => ?_
    refine (meets_throwIfError_of_isError (E := Throws (Left start)) ?_).bind fun _ => ?_
    · intro herror s hs
      exact throws (hs.1 herror).left _
    · rintro s ⟨hs, hok⟩
      obtain ⟨heap, bytes, hsettled, hlength, hheap, hout⟩ := hs.2 hok
      have hblock : s.value.get? out.2 = some ⟨0, bytes⟩ := by
        rw [hheap, hout, get?_add_self]
      unfold make
      rw [if_neg (by omega), if_neg (by decide), osLockBlock, bind_assoc,
        exec_bind_of_ok (exec_block hblock), bind_assoc, exec_bind_of_ok (exec_call s)]
      cases (native.status s.calls).isError with
      | true =>
          refine throws ?_ _
          rw [hheap]
          exact hsettled.left_add bytes
      | false =>
          refine ⟨bytes, ?_, hlength⟩
          rw [hheap, hout]
          exact hsettled.owns bytes hlength.symm

/-- Work that fits is done on the bytes of the block. -/
theorem exec_through {locks : ℕ} {x : Cursor.M α} {a : α} {c : Cursor} {s : Called Heap}
    (hblock : s.value.get? locker.hdl_ = some ⟨locks, bytes⟩) (hown : locker.own_ ≠ .free)
    (hsize : locker.size_ = bytes.length)
    (hx : exec x (Cursor.make (some bytes)) = (.ok a, c)) :
    exec (locker.through x) s = (.ok a, ⟨s.calls,
      s.value.modify locker.hdl_ fun block => { block with bytes := c.buffer }⟩) := by
  have hwhole : bytes.take locker.size_ = bytes := by rw [hsize, List.take_length]
  have hwork : exec (Formula.through (Cursor.make (some bytes)) x) ⟨s.calls, bytes⟩ =
      (.ok a, ⟨s.calls, c.buffer⟩) := by
    have hcursor : ({ Cursor.make (some bytes) with buffer := bytes.take bytes.length } : Cursor) =
        Cursor.make (some bytes) := by rw [List.take_length]; rfl
    rw [Formula.exec_through]
    simp only [Cursor.make, Option.getD_some] at hcursor hx ⊢
    simp only [hcursor, hx, List.drop_length, List.append_nil]
  rw [through, if_neg hown, onBytes, exec_bind_of_ok (exec_block hblock), Native.part, exec_focus]
  simp only
  rw [exec_bind_of_ok (Native.exec_value _), if_neg (by rw [hsize]; exact Nat.lt_irrefl _),
    hwhole, hwork]

theorem meets_through {x : Cursor.M α} {a : α} {c : Cursor}
    (hx : exec x (Cursor.make (some bytes)) = (.ok a, c)) (hlength : c.buffer.length = bytes.length)
    {E : Stop → Called Heap → Prop} :
    Meets (fun s => Owns start bytes locker s.value) (locker.through x)
      (fun _ s => Owns start c.buffer locker s.value) E := by
  intro s hs
  rw [exec_through hs.block (by rw [hs.own_]; decide) hs.size_ hx]
  exact hs.setBytes hlength

theorem exec_osUnlock {hdl locks : ℕ} {s : Called Heap}
    (h : s.value.get? hdl = some ⟨locks + 1, bytes⟩) : exec (osUnlock hdl) s =
      (.ok (), ⟨s.calls, s.value.modify hdl fun block => { block with locks := block.locks - 1 }⟩) := by
  rw [osUnlock, exec_bind_of_ok (exec_block h), if_neg (Nat.succ_ne_zero locks)]
  exact exec_update _ _

theorem exec_osMemFree {hdl : ℕ} {block : Block} {s : Called Heap}
    (h : s.value.get? hdl = some block) :
    exec (osMemFree hdl) s = (.ok (), ⟨s.calls, s.value.erase hdl⟩) := by
  rw [osMemFree, exec_bind_of_ok (exec_block h)]
  exact exec_update _ _

theorem meets_destroy_of_owns {E : Stop → Called Heap → Prop} :
    Meets (fun s => Owns start bytes locker s.value) locker.destroy
      (fun _ s => Settled start s.value) E := by
  intro s hs
  have hunlocked := hs.modify fun block => { block with locks := block.locks - 1 }
  unfold destroy
  rw [if_neg hs.ne_zero, hs.own_, if_pos (by decide), exec_bind_of_ok (exec_osUnlock hs.block),
    if_pos (by decide), exec_osMemFree hunlocked.block]
  exact hunlocked.erase

/-! ## Memory that is lent -/

/-- An object takes what the locker owns. -/
theorem exec_value_of_owns {s : Called Heap} (h : Owns start bytes locker s.value) :
    exec (MemoryOwner.value locker) s = (.ok ⟨locker.hdl_, bytes.length⟩, s) := by
  rw [MemoryOwner.value, if_neg (not_not.mpr h.own_), MemoryOwner.takeFrom, h.size_]
  rfl

/-- The constructor of a borrowing locker. -/
theorem meets_borrow {hdl size : ℕ} : Meets (fun s => Has start ⟨1, bytes⟩ hdl s.value)
    (make native hdl size .borrow)
    (fun cursor s => Has start ⟨2, bytes⟩ hdl s.value ∧ cursor = ⟨hdl, size, .borrow⟩)
    (Throws (Has start ⟨1, bytes⟩ hdl)) := by
  intro s hs
  rw [make, if_neg hs.ne_zero, if_neg (by decide), osLockBlock, bind_assoc,
    exec_bind_of_ok (exec_block hs.block), bind_assoc, exec_bind_of_ok (exec_call s)]
  cases (native.status s.calls).isError with
  | true => exact throws hs _
  | false => exact ⟨hs.modify fun block => { block with locks := block.locks + 1 }, rfl⟩

/-- A borrowing locker gives the memory back. -/
theorem meets_giveBack {hdl size : ℕ} {E : Stop → Called Heap → Prop} :
    Meets (fun s => Has start ⟨2, bytes⟩ hdl s.value) (Locker.destroy ⟨hdl, size, .borrow⟩)
      (fun _ s => Has start ⟨1, bytes⟩ hdl s.value) E := by
  intro s hs
  have hfree : Ownership.borrow ≠ .free := by decide
  rw [destroy, if_neg hs.ne_zero, if_pos hfree, exec_bind_of_ok (exec_osUnlock hs.block),
    if_neg (not_not.mpr rfl)]
  exact hs.modify fun block => { block with locks := block.locks - 1 }

/-- The owner frees the memory. -/
theorem meets_destroy_owner {hdl size : ℕ} {block : Block} {E : Stop → Called Heap → Prop} :
    Meets (fun s => Has start block hdl s.value) (MemoryOwner.destroy ⟨hdl, size⟩)
      (fun _ s => Settled start s.value) E := by
  intro s hs
  rw [MemoryOwner.destroy, if_neg hs.ne_zero, exec_osMemFree hs.block]
  exact hs.erase

end Dmn.Locker
