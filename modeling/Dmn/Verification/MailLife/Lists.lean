import Dmn.Model.MailLife
import Dmn.Verification.MemoryOwner
import Dmn.Verification.TextList

/-! # The lists of a mail in memory

A list that the mail has is a block of its own, with the texts that it has taken. -/

namespace Dmn.MailLife

open Exec Native MailSend TextList

variable {env : MailSend.Env} {w : MailSend.World} {member other : Member} {hdl n : ℕ}
  {texts : Entries} {α : Type}

/-- The texts that a list has taken. -/
def entries (member : Member) (added : List (Member × List UInt8)) : Entries :=
  (added.filter fun text => text.1 = member).map Prod.snd

theorem entries_append (member other : Member) (text : List UInt8)
    (added : List (Member × List UInt8)) : entries member (added ++ [(other, text)]) =
      entries member added ++ (if other = member then [text] else []) := by
  by_cases heq : other = member
  · simp [entries, heq]
  · simp [entries, heq]

/-- The mail has the list, which is a block with these texts. -/
structure InMail (hdl : ℕ) (texts : Entries) (member : Member) (w : MailSend.World) : Prop where
  list : w.lists member = ⟨hdl, byteSize texts⟩
  block : ∃ block, w.heap.get? hdl = some block ∧ block.bytes = bytes texts
  small : byteSize texts < 2 ^ 16

/-- A list with other bytes, and what the object knows of its size. -/
def rewritten (hdl : ℕ) (texts : Entries) (member : Member) (w : MailSend.World) :
    MailSend.World :=
  { w with
    heap := w.heap.modify hdl fun block => { block with bytes := bytes texts }
    lists := Function.update w.lists member { w.lists member with size_ := byteSize texts } }

namespace InMail

theorem pos (h : InMail hdl texts member w) : 0 < hdl := by
  obtain ⟨block, hblock, -⟩ := h.block
  exact (Heap.valid_of_get? hblock).1

theorem hdl_ne_zero (h : InMail hdl texts member w) : (w.lists member).hdl_ ≠ 0 := by
  rw [h.list]
  exact Nat.ne_of_gt h.pos

theorem ofBytes (h : InMail hdl texts member w) :
    ∃ block, w.heap.get? (w.lists member).hdl_ = some block ∧
      TextList.ofBytes block.bytes = some texts := by
  obtain ⟨block, hblock, hbytes⟩ := h.block
  rw [h.list]
  exact ⟨block, hblock, by rw [hbytes, ofBytes_bytes h.small]⟩

/-- Another block changes, or another object. -/
theorem congr (h : InMail hdl texts member w) {w' : MailSend.World}
    (hlist : w'.lists member = w.lists member) (hheap : w'.heap.get? hdl = w.heap.get? hdl) :
    InMail hdl texts member w' :=
  ⟨hlist.trans h.list, by rw [hheap]; exact h.block, h.small⟩

theorem rewritten_self (h : InMail hdl texts member w) {texts' : Entries}
    (hsmall : byteSize texts' < 2 ^ 16) :
    InMail hdl texts' member (rewritten hdl texts' member w) where
  list := by
    refine (Function.update_self ..).trans ?_
    rw [h.list]
  block := by
    obtain ⟨block, hblock, -⟩ := h.block
    exact ⟨_, Heap.get?_modify_self hblock _, rfl⟩
  small := hsmall

theorem rewritten_of_ne {other : ℕ} {texts' : Entries} {member' : Member}
    (h : InMail hdl texts member w) (hne : hdl ≠ other) (hmember : member ≠ member') :
    InMail hdl texts member (rewritten other texts' member' w) :=
  h.congr (Function.update_of_ne hmember _ _) (Heap.get?_modify_of_ne w.heap hne _)

end InMail

/-! ## Programs on a list -/

theorem exec_onList (member : Member) (x : MemoryOwner → Heap.M α) (n : ℕ) (w : MailSend.World) :
    exec (onList member x) ⟨n, w⟩ =
      ((exec (x (w.lists member)) ⟨n, w.heap⟩).1,
        ⟨(exec (x (w.lists member)) ⟨n, w.heap⟩).2.calls,
          { w with heap := (exec (x (w.lists member)) ⟨n, w.heap⟩).2.value }⟩) := by
  rw [onList, exec_bind_of_ok (exec_value _)]
  rfl

/-- The lock of a list that is read can fail. -/
def reading (env : MailSend.Env) (n : ℕ) (a : α) : Except Stop α :=
  if (env.native.status n).isError then
    .error (.throws (.invalidHandle "Memory pointed to by handle is empty"))
  else .ok a

theorem InMail.exec_read (h : InMail hdl texts member w) (f : Entries → α) (n : ℕ) :
    exec (onList member fun self =>
      Locker.within (MemoryOwner.borrowed env.toMemoryOwner self) fun list => do
        let entries ← MemoryOwner.entries list.hdl_
        pure (f entries)) ⟨n, w⟩ = (reading env n (f texts), ⟨n + 1, w⟩) := by
  obtain ⟨block, hblock, htexts⟩ := h.ofBytes
  rw [exec_onList, MemoryOwner.exec_borrowed_entries f h.hdl_ne_zero hblock htexts]
  rfl

theorem exec_read_of_eq (h : (w.lists member).hdl_ = 0) (f : Entries → α) (n : ℕ) :
    exec (onList member fun self =>
      Locker.within (MemoryOwner.borrowed env.toMemoryOwner self) fun list => do
        let entries ← MemoryOwner.entries list.hdl_
        pure (f entries)) ⟨n, w⟩ =
      (.error (.throws (.invalidHandle "Empty handle accessed")), ⟨n, w⟩) := by
  rw [exec_onList, MemoryOwner.exec_borrowed_of_eq h]

theorem InMail.exec_getHandle (h : InMail hdl texts member w) (n : ℕ) :
    exec (onList member MemoryOwner.getHandle) ⟨n, w⟩ = (.ok hdl, ⟨n, w⟩) := by
  rw [exec_onList, MemoryOwner.exec_getHandle_of_ne h.hdl_ne_zero, h.list]

/-- A text is added behind the others, or the list stays as it is. -/
theorem InMail.exec_pushBack (env : MailSend.Env) (h : InMail hdl texts member w)
    (email : List UInt8) (n : ℕ) :
    (∃ error calls, exec (onList member fun self =>
        MemoryOwner.listPushBack env.toMemoryOwner self email) ⟨n, w⟩ =
          (.error (.throws error), ⟨calls, w⟩)) ∨
    ∃ calls, byteSize (texts ++ [Lmbcs.fromString env.codePage email]) < 2 ^ 16 ∧
      exec (onList member fun self =>
        MemoryOwner.listPushBack env.toMemoryOwner self email) ⟨n, w⟩ =
          (.ok (byteSize (texts ++ [Lmbcs.fromString env.codePage email])),
            ⟨calls, { w with heap := w.heap.modify hdl fun block =>
              { block with bytes := bytes (texts ++ [Lmbcs.fromString env.codePage email]) } }⟩) := by
  obtain ⟨block, hblock, htexts⟩ := h.ofBytes
  have hread : exec (MemoryOwner.listSize env.toMemoryOwner (w.lists member)) ⟨n, w.heap⟩ = _ :=
    MemoryOwner.exec_borrowed_entries List.length h.hdl_ne_zero hblock htexts
  rw [exec_onList, MemoryOwner.listPushBack]
  by_cases hlong : (Lmbcs.fromString env.codePage email).length > 2 ^ 16 - 1
  · rw [if_pos hlong]
    exact .inl ⟨_, _, rfl⟩
  rw [if_neg hlong]
  cases hlock : (env.native.status n).isError with
  | true =>
      rw [hlock, if_pos rfl] at hread
      rw [exec_bind_of_error hread]
      exact .inl ⟨_, _, rfl⟩
  | false =>
      rw [hlock, if_neg Bool.false_ne_true] at hread
      rw [exec_bind_of_ok hread]
      by_cases hmany : texts.length > 2 ^ 16 - 1
      · rw [if_pos hmany]
        exact .inl ⟨_, _, rfl⟩
      have hadded : texts.take texts.length ++ Lmbcs.fromString env.codePage email ::
          texts.drop texts.length = texts ++ [Lmbcs.fromString env.codePage email] := by simp
      have hsize : ¬ (w.lists member).size_ ≠ byteSize texts := by simp [h.list]
      have hentries : exec (MemoryOwner.entries (w.lists member).hdl_) ⟨n + 1, w.heap⟩ =
          (.ok texts, ⟨n + 1, w.heap⟩) := by
        rw [MemoryOwner.entries, exec_bind_of_ok (Locker.exec_block hblock)]
        simp only [htexts]
        rfl
      rw [if_neg hmany, MemoryOwner.listChange,
        exec_bind_of_ok (MemoryOwner.exec_getHandle_of_ne h.hdl_ne_zero _),
        exec_bind_of_ok hentries, if_neg hsize, exec_bind_of_ok (exec_call _)]
      cases hresult : (env.native.status (n + 1)).isError with
      | true =>
          have hthrow : exec ((env.native.status (n + 1)).throwIfError "Failed to add list entry" :
              Heap.M Unit) ⟨n + 1 + 1, w.heap⟩ = (.error (.throws (.nativeError
                "Failed to add list entry" (env.native.status (n + 1)))), ⟨n + 1 + 1, w.heap⟩) := by
            rw [Status.exec_throwIfError, if_pos hresult]
          rw [exec_bind_of_error hthrow]
          exact .inl ⟨_, _, rfl⟩
      | false =>
          have hpass : exec ((env.native.status (n + 1)).throwIfError "Failed to add list entry" :
              Heap.M Unit) ⟨n + 1 + 1, w.heap⟩ = (.ok (), ⟨n + 1 + 1, w.heap⟩) := by
            rw [Status.exec_throwIfError, hresult]
            rfl
          rw [exec_bind_of_ok hpass, hadded]
          by_cases hroom : byteSize (texts ++ [Lmbcs.fromString env.codePage email]) < 2 ^ 16
          · rw [if_pos hroom]
            refine .inr ⟨n + 1 + 1, hroom, ?_⟩
            rw [exec_bind_of_ok (exec_update _ _), h.list]
            rfl
          · rw [if_neg hroom]
            exact .inl ⟨_, _, rfl⟩

theorem exec_pushBack_of_eq (env : MailSend.Env) (h : (w.lists member).hdl_ = 0)
    (email : List UInt8) (n : ℕ) :
    ∃ error, exec (onList member fun self =>
      MemoryOwner.listPushBack env.toMemoryOwner self email) ⟨n, w⟩ =
        (.error (.throws error), ⟨n, w⟩) := by
  rw [exec_onList, MemoryOwner.listPushBack]
  by_cases hlong : (Lmbcs.fromString env.codePage email).length > 2 ^ 16 - 1
  · rw [if_pos hlong]
    exact ⟨_, rfl⟩
  · have hread : exec (MemoryOwner.listSize env.toMemoryOwner (w.lists member)) ⟨n, w.heap⟩ =
        (.error (.throws (.invalidHandle "Empty handle accessed")), ⟨n, w.heap⟩) :=
      MemoryOwner.exec_borrowed_of_eq h _ _
    rw [if_neg hlong, exec_bind_of_error hread]
    exact ⟨_, rfl⟩

end Dmn.MailLife
