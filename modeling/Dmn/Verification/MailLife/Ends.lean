import Dmn.Verification.MailLife.Sending

/-! # Construction and destruction of a mail

The memory is the same before the construction and behind the destruction, wherever the
construction stops. -/

namespace Dmn.MailLife

open Exec Native MailSend TextList

variable {env : MailSend.Env} {heap : Heap} {w : MailSend.World} {member : Member}
  {built remaining : List Member} {n : ℕ}

/-! ## Destruction -/

/-- Apart from the lists of these members, the memory is what it was. -/
structure Holding (heap : Heap) (remaining : List Member) (w : MailSend.World) : Prop where
  present : ∀ member ∈ remaining, (w.lists member).hdl_ ≠ 0 →
    heap.last < (w.lists member).hdl_ ∧ ∃ block, w.heap.get? (w.lists member).hdl_ = some block
  distinct : ∀ member ∈ remaining, ∀ other ∈ remaining, (w.lists member).hdl_ ≠ 0 →
    (w.lists member).hdl_ = (w.lists other).hdl_ → member = other
  others : ∀ hdl, (∀ member ∈ remaining, (w.lists member).hdl_ ≠ hdl) →
    w.heap.get? hdl = heap.get? hdl

theorem get?_zero (heap : Heap) : heap.get? 0 = none := by
  cases h : heap.get? 0 with
  | none => rfl
  | some block => exact absurd (Heap.valid_of_get? h).1 (Nat.lt_irrefl 0)

/-- The handle that is freed with a list. -/
def ownHandle (w : MailSend.World) (member : Member) : List ℕ :=
  if (w.lists member).hdl_ = 0 then [] else [(w.lists member).hdl_]

/-- The world without the list of a member. -/
def without (member : Member) (w : MailSend.World) : MailSend.World :=
  { w with
    heap := if (w.lists member).hdl_ = 0 then w.heap else w.heap.erase (w.lists member).hdl_
    freed := ownHandle w member ++ w.freed }

theorem exec_destroyList (h : Holding heap (member :: remaining) w) (n : ℕ) :
    exec (destroyList member) ⟨n, w⟩ = (.ok (), ⟨n, without member w⟩) := by
  by_cases hnull : (w.lists member).hdl_ = 0
  · rw [exec_destroyList_of_eq hnull]
    simp [without, ownHandle, hnull]
  · have hblock := (h.present member List.mem_cons_self hnull).2
    rw [MailSend.exec_destroyList hnull hblock]
    simp [without, ownHandle, freedList, hnull]

theorem Holding.without (h : Holding heap (member :: remaining) w) (hmember : member ∉ remaining) :
    Holding heap remaining (without member w) where
  present other hother hne := by
    obtain ⟨hfresh, hblock⟩ := h.present other (List.mem_cons_of_mem _ hother) hne
    refine ⟨hfresh, ?_⟩
    by_cases hnull : (w.lists member).hdl_ = 0
    · simpa [MailLife.without, hnull] using hblock
    · have hdiffers : (w.lists other).hdl_ ≠ (w.lists member).hdl_ := by
        intro heq
        have hsame := h.distinct other (List.mem_cons_of_mem _ hother) member List.mem_cons_self
          hne heq
        exact hmember (hsame ▸ hother)
      simpa [MailLife.without, hnull, Heap.get?_erase_of_ne w.heap hdiffers] using hblock
  distinct first hfirst second hsecond := h.distinct first (List.mem_cons_of_mem _ hfirst) second
    (List.mem_cons_of_mem _ hsecond)
  others hdl hothers := by
    by_cases hnull : (w.lists member).hdl_ = 0
    · have hheap : (MailLife.without member w).heap = w.heap := if_pos hnull
      rw [hheap]
      by_cases hzero : hdl = 0
      · rw [hzero, get?_zero, get?_zero]
      · refine h.others hdl (List.forall_mem_cons.mpr ⟨?_, hothers⟩)
        rw [hnull]
        exact Ne.symm hzero
    · have hheap : (MailLife.without member w).heap = w.heap.erase (w.lists member).hdl_ :=
        if_neg hnull
      rw [hheap]
      by_cases heq : (w.lists member).hdl_ = hdl
      · rw [← heq, Heap.get?_erase_self,
          Heap.get?_of_last_lt (h.present member List.mem_cons_self hnull).1]
      · rw [Heap.get?_erase_of_ne w.heap (Ne.symm heq)]
        exact h.others hdl (List.forall_mem_cons.mpr ⟨heq, hothers⟩)

/-- The members in the order in which they are destroyed. -/
def members : List Member := [.recipients, .blindCopyTo, .copyTo, .sendTo]

/-- The handles that are freed with a mail, the latest first. -/
def freedHandles (w : MailSend.World) : List ℕ :=
  (if w.msgHdl = 0 then [] else w.taken.map Taken.hdl) ++
    (ownHandle w .sendTo ++ (ownHandle w .copyTo ++
      (ownHandle w .blindCopyTo ++ ownHandle w .recipients)))

/-- The world without the lists. -/
def withoutLists (w : MailSend.World) : MailSend.World :=
  without .sendTo (without .copyTo (without .blindCopyTo (without .recipients w)))

/-- The world behind the destruction. -/
def ended (w : MailSend.World) : MailSend.World :=
  { withoutLists w with
    taken := if w.msgHdl = 0 then w.taken else []
    freed := freedHandles w ++ w.freed }

theorem exec_destroy (h : Holding heap members w) (n : ℕ) :
    exec MailSend.destroy ⟨n, w⟩ = (.ok (), ⟨n, ended w⟩) ∧
      ∀ hdl, (ended w).heap.get? hdl = heap.get? hdl := by
  have hblind := h.without (by decide)
  have hcopy := hblind.without (by decide)
  have hsend := hcopy.without (by decide)
  have hlast := hsend.without List.not_mem_nil
  have hclose : exec closeMessage ⟨n, withoutLists w⟩ = (.ok (), ⟨n, ended w⟩) := by
    rw [closeMessage, exec_update]
    by_cases hnull : w.msgHdl = 0
    · have hnull' : (withoutLists w).msgHdl = 0 := hnull
      simp only [if_pos hnull']
      simp [ended, withoutLists, freedHandles, without, ownHandle, hnull]
    · have hne : ¬ (withoutLists w).msgHdl = 0 := hnull
      simp only [if_neg hne]
      simp [ended, withoutLists, freedHandles, without, ownHandle, hnull]
      rfl
  refine ⟨?_, fun hdl => hlast.others hdl (List.forall_mem_nil _)⟩
  rw [MailSend.destroy, exec_bind_of_ok (exec_destroyList h n),
    exec_bind_of_ok (exec_destroyList hblind n), exec_bind_of_ok (exec_destroyList hcopy n),
    exec_bind_of_ok (exec_destroyList hsend n)]
  exact hclose

/-! ## Construction -/

/-- The lists of these members are there, and empty. -/
structure Built (heap : Heap) (built : List Member) (w : MailSend.World) : Prop where
  lists : ∀ member ∈ built, heap.last < (w.lists member).hdl_ ∧
    InMail (w.lists member).hdl_ [] member w
  null : ∀ member ∉ built, (w.lists member).hdl_ = 0
  distinct : ∀ member ∈ built, ∀ other ∈ built,
    (w.lists member).hdl_ = (w.lists other).hdl_ → member = other
  others : ∀ hdl, (∀ member ∈ built, (w.lists member).hdl_ ≠ hdl) →
    w.heap.get? hdl = heap.get? hdl
  last : heap.last ≤ w.heap.last
  unsent : w.taken = [] ∧ w.headers = []
  freed : w.freed = []

theorem built_start (heap : Heap) : Built heap [] (World.start heap).mail where
  lists := nofun
  null _ _ := rfl
  distinct := nofun
  others _ _ := rfl
  last := Nat.le_refl _
  unsent := ⟨rfl, rfl⟩
  freed := rfl

theorem Built.holding (h : Built heap built w) : Holding heap members w where
  present member _ hne := by
    by_cases hmember : member ∈ built
    · obtain ⟨hfresh, hmail⟩ := h.lists member hmember
      obtain ⟨block, hblock, -⟩ := hmail.block
      exact ⟨hfresh, block, hblock⟩
    · exact absurd (h.null member hmember) hne
  distinct member _ other _ hne heq := by
    have hmem : ∀ member, (w.lists member).hdl_ ≠ 0 → member ∈ built := by
      intro member hne
      by_contra hmember
      exact hne (h.null member hmember)
    exact h.distinct member (hmem member hne) other (hmem other (heq ▸ hne)) heq
  others hdl hothers := h.others hdl fun member _ => hothers member (by cases member <;> decide)

/-- The world with a new list. -/
def withList (member : Member) (w : MailSend.World) : MailSend.World :=
  { w with
    heap := (w.heap.add ⟨1, bytes []⟩).modify (w.heap.last + 1) fun block =>
      { block with locks := block.locks - 1 }
    lists := Function.update w.lists member ⟨w.heap.last + 1, byteSize []⟩ }

theorem exec_constructList (env : Env) (member : Member) (n : ℕ) (w : MailSend.World) :
    exec (constructList env member) ⟨n, w⟩ =
      if (env.native.status n).isError then
        (.error (.throws (.nativeError "Failed to allocate list" (env.native.status n))),
          ⟨n + 1, w⟩)
      else (.ok (), ⟨n + 1, withList member w⟩) := by
  have hlist : exec (MemoryOwner.list env.toMemoryOwner) ⟨n, w.heap⟩ =
      if (env.native.status n).isError then
        (.error (.throws (.nativeError "Failed to allocate list" (env.native.status n))),
          ⟨n + 1, w.heap⟩)
      else (.ok ⟨w.heap.last + 1, byteSize []⟩, ⟨n + 1, (withList member w).heap⟩) := by
    rw [MemoryOwner.list, exec_bind_of_ok (exec_call _)]
    cases hresult : (env.native.status n).isError with
    | true =>
        refine exec_bind_of_error ?_
        rw [Status.exec_throwIfError, if_pos hresult]
    | false =>
        have hpass : exec ((env.native.status n).throwIfError "Failed to allocate list" :
            Heap.M Unit) ⟨n + 1, w.heap⟩ = (.ok (), ⟨n + 1, w.heap⟩) := by
          rw [Status.exec_throwIfError, hresult]
          rfl
        have hobtain : exec (Heap.obtain (bytes []) 1) ⟨n + 1, w.heap⟩ =
            (.ok (w.heap.last + 1), ⟨n + 1, w.heap.add ⟨1, bytes []⟩⟩) := rfl
        rw [exec_bind_of_ok hpass, MemoryOwner.listOf, exec_bind_of_ok hobtain, Heap.osUnlock,
          bind_assoc, exec_bind_of_ok (Locker.exec_block (Heap.get?_add_self w.heap _))]
        rfl
  have hheap : exec (onHeap (MemoryOwner.list env.toMemoryOwner)) ⟨n, w⟩ =
      ((exec (MemoryOwner.list env.toMemoryOwner) ⟨n, w.heap⟩).1,
        ⟨(exec (MemoryOwner.list env.toMemoryOwner) ⟨n, w.heap⟩).2.calls,
          { w with heap := (exec (MemoryOwner.list env.toMemoryOwner) ⟨n, w.heap⟩).2.value }⟩) :=
    rfl
  rw [hlist] at hheap
  cases hresult : (env.native.status n).isError with
  | true =>
      rw [hresult, if_pos rfl] at hheap
      rw [constructList, exec_bind_of_error hheap]
      rfl
  | false =>
      rw [hresult, if_neg Bool.false_ne_true] at hheap
      rw [constructList, exec_bind_of_ok hheap, exec_update]
      rfl

theorem Built.withList (h : Built heap built w) (hmember : member ∉ built) :
    Built heap (member :: built) (withList member w) := by
  have hself : (MailLife.withList member w).lists member = ⟨w.heap.last + 1, byteSize []⟩ :=
    Function.update_self ..
  have hne : ∀ other ∈ built, other ≠ member := fun other hmem heq => hmember (heq ▸ hmem)
  have hother : ∀ other ∈ built, (MailLife.withList member w).lists other = w.lists other :=
    fun other hmem => Function.update_of_ne (hne other hmem) _ _
  have hblock : ∀ hdl, hdl ≠ w.heap.last + 1 →
      (MailLife.withList member w).heap.get? hdl = w.heap.get? hdl := fun hdl hdiffers =>
    (Heap.get?_modify_of_ne _ hdiffers _).trans (Heap.get?_add_of_ne w.heap _ hdiffers)
  have hold : ∀ other ∈ built, (w.lists other).hdl_ ≠ w.heap.last + 1 := by
    intro other hmem heq
    obtain ⟨block, hfound, -⟩ := (h.lists other hmem).2.block
    have hvalid := (Heap.valid_of_get? hfound).2
    omega
  constructor
  · intro other hmem
    rcases List.mem_cons.mp hmem with rfl | hmem
    · rw [hself]
      refine ⟨Nat.lt_succ_of_le h.last, hself, ?_, by decide⟩
      exact ⟨_, Heap.get?_modify_self (Heap.get?_add_self w.heap _) _, rfl⟩
    · obtain ⟨hfresh, hmail⟩ := h.lists other hmem
      rw [hother other hmem]
      exact ⟨hfresh, hmail.congr (hother other hmem) (hblock _ (hold other hmem))⟩
  · intro other hmem
    obtain ⟨hdiffers, hmem⟩ := not_or.mp (List.mem_cons.not.mp hmem)
    exact (congrArg MemoryOwner.hdl_ (Function.update_of_ne hdiffers _ _)).trans
      (h.null other hmem)
  · intro first hfirst second hsecond heq
    rcases List.mem_cons.mp hfirst with rfl | hold₁ <;>
      rcases List.mem_cons.mp hsecond with rfl | hold₂
    · rfl
    · rw [hself, hother second hold₂] at heq
      exact absurd heq.symm (hold second hold₂)
    · rw [hself, hother first hold₁] at heq
      exact absurd heq (hold first hold₁)
    · rw [hother first hold₁, hother second hold₂] at heq
      exact h.distinct first hold₁ second hold₂ heq
  · intro hdl hothers
    have hdiffers := hothers member List.mem_cons_self
    rw [hself] at hdiffers
    rw [hblock hdl (Ne.symm hdiffers)]
    refine h.others hdl fun other hmem => ?_
    rw [← hother other hmem]
    exact hothers other (List.mem_cons_of_mem _ hmem)
  · exact Nat.le_succ_of_le h.last
  · exact h.unsent
  · exact h.freed

end Dmn.MailLife
