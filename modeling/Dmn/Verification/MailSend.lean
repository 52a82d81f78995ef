import Dmn.Model.MailSend
import Dmn.Verification.MemoryOwner

/-! # Who owns the lists of a mail

However `send` ends, each list belongs either to the mail or to the message, and is freed once by
its owner. -/

namespace Dmn.MailSend

open Exec Native

variable {env : Env} {handles : Member → ℕ} {member : Member} {w : World} {α β : Type}

/-! ## Owners -/

inductive Owner where
  | mail
  | message
  deriving DecidableEq

/-- The list is a list in memory, whose handle the mail has. Every call that was to hand it over has
failed. -/
structure HeldByMail (hdl : ℕ) (member : Member) (w : World) : Prop where
  hdl_ : (w.lists member).hdl_ = hdl
  block : ∃ block, w.heap.get? hdl = some block ∧ (TextList.ofBytes block.bytes).isSome
  taken : hdl ∉ w.taken.map Taken.hdl
  refused : ∀ result, (hdl, result) ∈ w.transfers → result.isError = true

/-- The message has taken the list over in a call that succeeded, and the mail has no handle for
it. -/
structure HeldByMessage (hdl : ℕ) (member : Member) (w : World) : Prop where
  hdl_ : (w.lists member).hdl_ = 0
  gone : w.heap.get? hdl = none
  taken : (w.taken.map Taken.hdl).count hdl = 1
  opened : w.msgHdl ≠ 0
  accepted : ∃ result, (hdl, result) ∈ w.transfers ∧ result.isError = false

def Owns (hdl : ℕ) (member : Member) (w : World) : Owner → Prop
  | .mail => HeldByMail hdl member w
  | .message => HeldByMessage hdl member w

/-- The list has an owner, and was not freed. -/
def Alive (handles : Member → ℕ) (w : World) (member : Member) : Prop :=
  (∃ owner, Owns (handles member) member w owner) ∧ handles member ∉ w.freed

theorem HeldByMail.ne_zero {hdl : ℕ} (h : HeldByMail hdl member w) : hdl ≠ 0 := by
  obtain ⟨block, hblock, -⟩ := h.block
  exact Nat.pos_iff_ne_zero.mp (Heap.valid_of_get? hblock).1

theorem Owns.unique {hdl : ℕ} {owner other : Owner} (h : Owns hdl member w owner)
    (h' : Owns hdl member w other) : owner = other := by
  have hexclusive : HeldByMail hdl member w → ¬ HeldByMessage hdl member w := by
    intro hmail hmessage
    have hcount := List.count_eq_zero.mpr hmail.taken
    exact absurd (hcount.symm.trans hmessage.taken) (by decide)
  cases owner <;> cases other
  · rfl
  · exact absurd h' (hexclusive h)
  · exact absurd h (hexclusive h')
  · rfl

theorem Alive.heldByMail (h : Alive handles w member) (hne : (w.lists member).hdl_ ≠ 0) :
    HeldByMail (handles member) member w := by
  obtain ⟨⟨owner, howns⟩, -⟩ := h
  cases owner with
  | mail => exact howns
  | message => exact absurd howns.hdl_ hne

/-! ## Contracts -/

/-- However the program ends, every list has an owner, and no list was used that the message had
taken. -/
def Ends (handles : Member → ℕ) (stop : Stop) (s : Called World) : Prop :=
  stop ≠ .undefined ∧ ∀ member, Alive handles s.value member

theorem ends_throws {s : Called World} (hs : ∀ member, Alive handles s.value member)
    (error : Error) : Ends handles (.throws error) s := by
  refine ⟨?_, hs⟩
  intro h
  cases h

def Safe (handles : Member → ℕ) (x : M α) : Prop :=
  Meets (fun s => ∀ member, Alive handles s.value member) x
    (fun _ s => ∀ member, Alive handles s.value member) (Ends handles)

theorem Safe.bind {x : M α} {f : α → M β} (hx : Safe handles x) (hf : ∀ a, Safe handles (f a)) :
    Safe handles (x >>= f) := Meets.bind hx hf

theorem Safe.of_fixed {x : M α} (h : ∀ w, (∀ member, Alive handles w member) →
    Meets (fun s => s.value = w) x (fun _ s => ∀ member, Alive handles s.value member)
      (Ends handles)) : Safe handles x :=
  fun s hs => h s.value hs s rfl

section Fixed

variable (hw : ∀ member, Alive handles w member)
include hw

/-- A list is read, which changes nothing. -/
theorem meets_onList (f : TextList.Entries → α) :
    Meets (fun s => s.value = w) (onList member fun self =>
      Locker.within (MemoryOwner.borrowed env.toMemoryOwner self) fun list => do
        let entries ← MemoryOwner.entries list.hdl_
        pure (f entries)) (fun _ s => s.value = w) (Ends handles) := by
  rintro ⟨n, v⟩ rfl
  rw [onList, exec_bind_of_ok (exec_value _), onHeap, Native.part, exec_focus]
  by_cases hne : (v.lists member).hdl_ = 0
  · rw [MemoryOwner.exec_borrowed_of_eq hne]
    exact ends_throws hw _
  · have hmail := (hw member).heldByMail hne
    obtain ⟨block, hblock, hlist⟩ := hmail.block
    obtain ⟨entries, hentries⟩ := Option.isSome_iff_exists.mp hlist
    rw [← hmail.hdl_] at hblock
    rw [MemoryOwner.exec_borrowed_entries f hne hblock hentries]
    cases (env.native.status n).isError with
    | true => exact ends_throws hw _
    | false => rfl

theorem meets_getHandle : Meets (fun s => s.value = w) (onList member MemoryOwner.getHandle)
    (fun hdl s => s.value = w ∧ hdl = (w.lists member).hdl_ ∧ (w.lists member).hdl_ ≠ 0)
    (Ends handles) := by
  rintro ⟨n, v⟩ rfl
  rw [onList, exec_bind_of_ok (exec_value _), onHeap, Native.part, exec_focus]
  by_cases hne : (v.lists member).hdl_ = 0
  · rw [MemoryOwner.exec_getHandle_of_eq hne]
    exact ends_throws hw _
  · rw [MemoryOwner.exec_getHandle_of_ne hne]
    exact ⟨rfl, rfl, hne⟩

theorem meets_getMessage : Meets (fun s => s.value = w) getMessage
    (fun _ s => s.value = w ∧ w.msgHdl ≠ 0) (Ends handles) := by
  unfold getMessage
  refine meets_value_bind fun v => ?_
  rintro s ⟨hs, rfl⟩
  by_cases hne : s.value.msgHdl = 0
  · rw [if_pos hne]
    exact ends_throws (by rwa [hs]) _
  · rw [if_neg hne]
    exact ⟨hs, by rwa [← hs]⟩

end Fixed

/-! ## Handing over -/

/-- The item that a list is handed over as. -/
def Member.item : Member → ListItem
  | sendTo => .sendTo
  | copyTo => .copyTo
  | blindCopyTo => .blindCopyTo
  | recipients => .recipients

/-- A call that was to hand over the list of a member, with its result. -/
def logged (member : Member) (result : Status) (w : World) : World :=
  { w with transfers := ((w.lists member).hdl_, result) :: w.transfers }

/-- The world behind a successful transfer and the release of the list. -/
def handedOver (item : ListItem) (member : Member) (result : Status) (block : Block) (w : World) :
    World :=
  { logged member result w with
    heap := w.heap.erase (w.lists member).hdl_
    taken := ⟨item, (w.lists member).hdl_, block⟩ :: w.taken
    lists := Function.update w.lists member { w.lists member with hdl_ := 0 } }

/-- A failing call leaves the list with its owner. -/
theorem Alive.logged_of_error {other : Member} (h : Alive handles w other) {result : Status}
    (hresult : result.isError = true) : Alive handles (logged member result w) other := by
  obtain ⟨⟨owner, howns⟩, hfreed⟩ := h
  refine ⟨⟨owner, ?_⟩, hfreed⟩
  cases owner with
  | mail =>
      refine ⟨howns.hdl_, howns.block, howns.taken, fun found hfound => ?_⟩
      rcases List.mem_cons.mp hfound with heq | hfound
      · rwa [(Prod.mk.inj heq).2]
      · exact howns.refused found hfound
  | message =>
      obtain ⟨found, hfound, hok⟩ := howns.accepted
      exact ⟨howns.hdl_, howns.gone, howns.taken, howns.opened, found,
        List.mem_cons_of_mem _ hfound, hok⟩

theorem Alive.handOver_self (h : Alive handles w member) (hne : (w.lists member).hdl_ ≠ 0)
    (hopened : w.msgHdl ≠ 0) {result : Status} (hresult : result.isError = false) (item : ListItem)
    (block : Block) : Alive handles (handedOver item member result block w) member := by
  have hmail := h.heldByMail hne
  refine ⟨⟨.message, ?_, ?_, ?_, hopened, result, ?_, hresult⟩, h.2⟩
  · simp [handedOver]
  · rw [← hmail.hdl_]
    exact Heap.get?_erase_self w.heap
  · show List.count _ ((w.lists member).hdl_ :: w.taken.map Taken.hdl) = 1
    rw [hmail.hdl_, List.count_cons_self, List.count_eq_zero.mpr hmail.taken]
  · rw [← hmail.hdl_]
    exact List.mem_cons_self

theorem Alive.handOver_of_ne {other : Member} (h : Alive handles w other)
    (hne : handles other ≠ (w.lists member).hdl_) (hother : other ≠ member) (item : ListItem)
    (result : Status) (block : Block) :
    Alive handles (handedOver item member result block w) other := by
  have hlists : (handedOver item member result block w).lists other = w.lists other :=
    Function.update_of_ne hother _ _
  have hheap : (handedOver item member result block w).heap.get? (handles other) =
      w.heap.get? (handles other) := Heap.get?_erase_of_ne w.heap hne
  obtain ⟨⟨owner, howns⟩, hfreed⟩ := h
  refine ⟨⟨owner, ?_⟩, hfreed⟩
  cases owner with
  | mail =>
      refine ⟨?_, ?_, ?_, fun found hfound => ?_⟩
      · rw [hlists]
        exact howns.hdl_
      · rw [hheap]
        exact howns.block
      · exact fun hmem => (List.mem_cons.mp hmem).elim hne howns.taken
      · rcases List.mem_cons.mp hfound with heq | hfound
        · exact absurd (Prod.mk.inj heq).1 hne
        · exact howns.refused found hfound
  | message =>
      obtain ⟨found, hfound, hok⟩ := howns.accepted
      refine ⟨?_, ?_, ?_, howns.opened, found, List.mem_cons_of_mem _ hfound, hok⟩
      · rw [hlists]
        exact howns.hdl_
      · rw [hheap]
        exact howns.gone
      · show List.count _ ((w.lists member).hdl_ :: w.taken.map Taken.hdl) = 1
        rw [List.count_cons_of_ne hne.symm, howns.taken]

/-- Header items are added to the message. -/
theorem Alive.addHeader (h : Alive handles w member) (headers : List (HeaderItem × List UInt8)) :
    Alive handles { w with headers := headers } member := by
  obtain ⟨⟨owner, howns⟩, hfreed⟩ := h
  refine ⟨⟨owner, ?_⟩, hfreed⟩
  cases owner with
  | mail => exact ⟨howns.hdl_, howns.block, howns.taken, howns.refused⟩
  | message => exact ⟨howns.hdl_, howns.gone, howns.taken, howns.opened, howns.accepted⟩

section Transfer

variable (hinjective : Function.Injective handles)
include hinjective

/-- The call that takes a list over, its check, and the release of the list. -/
theorem meets_transfer (hw : ∀ member, Alive handles w member)
    (hne : (w.lists member).hdl_ ≠ 0) (hopened : w.msgHdl ≠ 0) (item : ListItem)
    (message : String) :
    Meets (fun s => s.value = w)
      (do
        let result ← takeOver env item (w.lists member).hdl_
        result.throwIfError message
        release member)
      (fun _ s => ∀ member, Alive handles s.value member) (Ends handles) := by
  rintro ⟨n, v⟩ rfl
  have hmail := (hw member).heldByMail hne
  obtain ⟨block, hblock, -⟩ := hmail.block
  have htaken : exec (onHeap (Heap.block (v.lists member).hdl_)) ⟨n, v⟩ = (.ok block, ⟨n, v⟩) := by
    rw [onHeap, Native.part, exec_focus, Locker.exec_block (by rwa [hmail.hdl_])]
  rw [takeOver, bind_assoc, exec_bind_of_ok htaken, bind_assoc, exec_bind_of_ok (exec_call _),
    bind_assoc, exec_bind_of_ok (exec_update _ _)]
  cases hresult : (env.native.status n).isError with
  | true =>
      rw [if_pos rfl, exec_bind_of_ok (exec_pure _ _), Status.throwIfError, hresult]
      exact ends_throws (fun other => (hw other).logged_of_error hresult) _
  | false =>
      have hreleased : ∀ other,
          Alive handles (handedOver item member (env.native.status n) block v) other := by
        intro other
        by_cases hother : other = member
        · subst hother
          exact (hw other).handOver_self hne hopened hresult item block
        · refine (hw other).handOver_of_ne ?_ hother item _ block
          rw [hmail.hdl_]
          exact fun heq => hother (hinjective heq)
      have hchecked : (env.native.status n).throwIfError message = (pure () : M Unit) := by
        rw [Status.throwIfError, hresult]
        rfl
      rw [if_neg Bool.false_ne_true, bind_assoc, exec_bind_of_ok (exec_update _ _), pure_bind,
        hchecked]
      exact hreleased

/-- What is done with a list that is not empty, up to its transfer. -/
theorem meets_handOver (hw : ∀ member, Alive handles w member) (member : Member)
    (message : String) {item : ListItem} {transfer : ℕ → ℕ → M Status} (htransfer : ∀ hdl size,
      transfer hdl size = takeOver env item hdl) :
    Meets (fun s => s.value = w)
      (do
        let _ ← getMessage
        let hdl ← onList member MemoryOwner.getHandle
        let size ← onList member (MemoryOwner.bufferSize env.toMemoryOwner)
        let result ← transfer hdl size
        result.throwIfError message
        release member)
      (fun _ s => ∀ member, Alive handles s.value member) (Ends handles) := by
  refine (meets_getMessage hw).bind fun _ => Meets.of_and fun hopened => ?_
  refine (meets_getHandle hw).bind fun hdl => Meets.of_and fun hhandle => ?_
  refine (meets_onList hw fun entries => TextList.byteSize entries % 2 ^ 16).bind fun size => ?_
  rw [htransfer, hhandle.1]
  exact meets_transfer hinjective hw hhandle.2 hopened item message

theorem safe_addList (item : ListItem) (member : Member) :
    Safe handles (addList env item member) := by
  refine Safe.of_fixed fun w hw => ?_
  rw [addList, empty, bind_assoc]
  refine (meets_onList hw List.length).bind fun count => ?_
  rw [pure_bind]
  split
  · exact Meets.pure fun s hs => by rwa [hs]
  · exact meets_handOver hinjective hw member _ fun _ _ => rfl

omit hinjective in
theorem safe_addHeaderItem (item : HeaderItem) (value : List UInt8) :
    Safe handles (addHeaderItem env item value) := by
  refine Safe.of_fixed fun w hw => ?_
  refine (meets_getMessage hw).bind fun _ => ?_
  rintro ⟨n, v⟩ ⟨rfl, -⟩
  rw [mailAddHeaderItem, bind_assoc, exec_bind_of_ok (exec_call _)]
  cases hresult : (env.native.status n).isError with
  | true =>
      rw [if_pos rfl, pure_bind, Status.throwIfError, hresult]
      exact ends_throws hw _
  | false =>
      rw [if_neg Bool.false_ne_true, bind_assoc, exec_bind_of_ok (exec_update _ _), pure_bind,
        Status.throwIfError, hresult]
      exact fun member => (hw member).addHeader _

theorem safe_addRecipients : Safe handles (addRecipients env) :=
  Safe.of_fixed fun _ hw => meets_handOver hinjective hw .recipients _ fun _ _ => rfl

omit hinjective in
theorem safe_transferMessage : Safe handles (do
    let _ ← getMessage
    let result ← mailTransferMessageLocal env
    result.throwIfError "Failed to transfer mail") := by
  refine Safe.of_fixed fun w hw => ?_
  refine (meets_getMessage hw).bind fun _ => ?_
  rintro ⟨n, v⟩ ⟨rfl, -⟩
  rw [mailTransferMessageLocal, exec_bind_of_ok (exec_call _), Status.throwIfError]
  cases (env.native.status n).isError with
  | true => exact ends_throws hw _
  | false => exact hw

theorem safe_send (from_ subject : List UInt8) : Safe handles (send env from_ subject) := by
  refine Safe.of_fixed fun w hw => ?_
  rw [send, empty, bind_assoc]
  refine (meets_onList hw List.length).bind fun count => ?_
  rw [pure_bind]
  refine meets_value_bind fun v => ?_
  split
  · exact Meets.throw fun s hs => ends_throws (by rwa [hs.1]) _
  · refine Meets.weaken (P := fun s => ∀ member, Alive handles s.value member) ?_
      (fun s hs => by rwa [hs.1]) (fun _ _ h => h) fun _ _ h => h
    apply (safe_addRecipients hinjective).bind
    intro _
    apply (safe_addList hinjective .sendTo .sendTo).bind
    intro _
    apply (safe_addList hinjective .copyTo .copyTo).bind
    intro _
    apply (safe_addList hinjective .blindCopyTo .blindCopyTo).bind
    intro _
    apply (safe_addHeaderItem _ _).bind
    intro _
    apply (safe_addHeaderItem _ _).bind
    intro _
    apply (safe_addHeaderItem _ _).bind
    intro _
    apply (safe_addHeaderItem _ _).bind
    intro _
    apply (safe_addHeaderItem _ _).bind
    intro _
    exact safe_transferMessage

end Transfer

/-! ## Destruction -/

/-- How often the list was freed, or will be when the message is closed. -/
def frees (hdl : ℕ) (w : World) : ℕ := (w.taken.map Taken.hdl).count hdl + w.freed.count hdl

/-- The list is the message's, or was freed. -/
def Done (handles : Member → ℕ) (w : World) (member : Member) : Prop :=
  frees (handles member) w = 1 ∧ (handles member ∈ w.taken.map Taken.hdl → w.msgHdl ≠ 0)

/-- The world behind the destruction of a list that the mail has. -/
def freedList (member : Member) (w : World) : World :=
  { w with
    heap := w.heap.erase (w.lists member).hdl_
    freed := (w.lists member).hdl_ :: w.freed }

theorem exec_destroyList (hne : (w.lists member).hdl_ ≠ 0)
    (hblock : ∃ block, w.heap.get? (w.lists member).hdl_ = some block) (n : ℕ) :
    exec (destroyList member) ⟨n, w⟩ = (.ok (), ⟨n, freedList member w⟩) := by
  obtain ⟨block, hblock⟩ := hblock
  have hfree : exec (onHeap (w.lists member).destroy) ⟨n, w⟩ =
      (.ok (), ⟨n, { w with heap := w.heap.erase (w.lists member).hdl_ }⟩) := by
    rw [onHeap, Native.part, exec_focus, MemoryOwner.destroy, if_neg hne, Heap.osMemFree,
      exec_bind_of_ok (Locker.exec_block hblock)]
    rfl
  rw [destroyList, exec_bind_of_ok (exec_value _), exec_bind_of_ok hfree, if_neg hne]
  rfl

theorem exec_destroyList_of_eq (h : (w.lists member).hdl_ = 0) (n : ℕ) :
    exec (destroyList member) ⟨n, w⟩ = (.ok (), ⟨n, w⟩) := by
  have hnull : exec (onHeap (w.lists member).destroy) ⟨n, w⟩ = (.ok (), ⟨n, w⟩) := by
    rw [onHeap, Native.part, exec_focus, MemoryOwner.destroy, if_pos h]
    rfl
  rw [destroyList, exec_bind_of_ok (exec_value _), exec_bind_of_ok hnull, if_pos h]
  rfl

theorem Alive.freedList_of_ne {other : Member} (h : Alive handles w other)
    (hne : handles other ≠ (w.lists member).hdl_) : Alive handles (freedList member w) other := by
  obtain ⟨⟨owner, howns⟩, hfreed⟩ := h
  have hheap : (freedList member w).heap.get? (handles other) = w.heap.get? (handles other) :=
    Heap.get?_erase_of_ne w.heap hne
  refine ⟨⟨owner, ?_⟩, fun hmem => (List.mem_cons.mp hmem).elim hne hfreed⟩
  cases owner with
  | mail =>
      refine ⟨howns.hdl_, ?_, howns.taken, howns.refused⟩
      rw [hheap]
      exact howns.block
  | message =>
      refine ⟨howns.hdl_, ?_, howns.taken, howns.opened, howns.accepted⟩
      rw [hheap]
      exact howns.gone

theorem Done.freedList_of_ne {other : Member} (h : Done handles w other)
    (hne : handles other ≠ (w.lists member).hdl_) : Done handles (freedList member w) other := by
  refine ⟨?_, h.2⟩
  show List.count _ _ + List.count _ ((w.lists member).hdl_ :: w.freed) = 1
  rw [List.count_cons_of_ne hne.symm]
  exact h.1

/-- A list is destroyed, by its owner, or the other lists stay what they were. -/
theorem exec_destroyList_alive (hinjective : Function.Injective handles)
    (hmember : Alive handles w member) (n : ℕ) :
    ∃ v, exec (destroyList member) ⟨n, w⟩ = (.ok (), ⟨n, v⟩) ∧ Done handles v member ∧
      ∀ other, other ≠ member → (Alive handles w other → Alive handles v other) ∧
        (Done handles w other → Done handles v other) := by
  by_cases hne : (w.lists member).hdl_ = 0
  · refine ⟨w, exec_destroyList_of_eq hne n, ?_, fun _ _ => ⟨id, id⟩⟩
    obtain ⟨⟨owner, howns⟩, hfreed⟩ := hmember
    cases owner with
    | mail => exact absurd (howns.hdl_.symm.trans hne) howns.ne_zero
    | message =>
        refine ⟨?_, fun _ => howns.opened⟩
        rw [frees, howns.taken, List.count_eq_zero.mpr hfreed]
  · have hmail := hmember.heldByMail hne
    obtain ⟨block, hblock, -⟩ := hmail.block
    rw [← hmail.hdl_] at hblock
    refine ⟨_, exec_destroyList hne ⟨block, hblock⟩ n, ⟨?_, ?_⟩, fun other hother => ?_⟩
    · show (w.taken.map Taken.hdl).count _ + List.count _ ((w.lists member).hdl_ :: w.freed) = 1
      rw [hmail.hdl_, List.count_cons_self, List.count_eq_zero.mpr hmail.taken,
        List.count_eq_zero.mpr hmember.2]
    · exact fun hmem => absurd hmem hmail.taken
    · have hhandle : handles other ≠ (w.lists member).hdl_ := by
        rw [hmail.hdl_]
        exact fun heq => hother (hinjective heq)
      exact ⟨fun h => h.freedList_of_ne hhandle, fun h => h.freedList_of_ne hhandle⟩

theorem exec_closeMessage (hdone : Done handles w member) (n : ℕ) :
    (exec closeMessage ⟨n, w⟩).2.value.freed.count (handles member) = 1 := by
  obtain ⟨hcount, hopened⟩ := hdone
  rw [closeMessage, exec_update]
  by_cases hne : w.msgHdl = 0
  · have htaken := List.count_eq_zero.mpr fun hmem => hopened hmem hne
    rw [if_pos hne]
    rw [frees, htaken] at hcount
    exact (Nat.zero_add _).symm.trans hcount
  · rw [if_neg hne]
    exact (List.count_append ..).trans hcount

/-- Every list is freed once, by the mail or with the message. -/
theorem exec_destroy (hinjective : Function.Injective handles)
    (hw : ∀ member, Alive handles w member) (n : ℕ) :
    ∃ t, exec destroy ⟨n, w⟩ = (.ok (), t) ∧
      ∀ member, t.value.freed.count (handles member) = 1 := by
  obtain ⟨w₁, hexec₁, hrecipients, hothers₁⟩ :=
    exec_destroyList_alive hinjective (hw .recipients) n
  have hblind₁ := (hothers₁ .blindCopyTo (by decide)).1 (hw .blindCopyTo)
  have hcopy₁ := (hothers₁ .copyTo (by decide)).1 (hw .copyTo)
  have hsend₁ := (hothers₁ .sendTo (by decide)).1 (hw .sendTo)
  obtain ⟨w₂, hexec₂, hblind, hothers₂⟩ := exec_destroyList_alive hinjective hblind₁ n
  have hrecipients₂ := (hothers₂ .recipients (by decide)).2 hrecipients
  have hcopy₂ := (hothers₂ .copyTo (by decide)).1 hcopy₁
  have hsend₂ := (hothers₂ .sendTo (by decide)).1 hsend₁
  obtain ⟨w₃, hexec₃, hcopy, hothers₃⟩ := exec_destroyList_alive hinjective hcopy₂ n
  have hrecipients₃ := (hothers₃ .recipients (by decide)).2 hrecipients₂
  have hblind₃ := (hothers₃ .blindCopyTo (by decide)).2 hblind
  have hsend₃ := (hothers₃ .sendTo (by decide)).1 hsend₂
  obtain ⟨w₄, hexec₄, hsend, hothers₄⟩ := exec_destroyList_alive hinjective hsend₃ n
  refine ⟨(exec closeMessage ⟨n, w₄⟩).2, ?_, fun member => exec_closeMessage ?_ n⟩
  · rw [destroy, exec_bind_of_ok hexec₁, exec_bind_of_ok hexec₂, exec_bind_of_ok hexec₃,
      exec_bind_of_ok hexec₄]
    rfl
  · cases member with
    | sendTo => exact hsend
    | copyTo => exact (hothers₄ .copyTo (by decide)).2 hcopy
    | blindCopyTo => exact (hothers₄ .blindCopyTo (by decide)).2 hblind₃
    | recipients => exact (hothers₄ .recipients (by decide)).2 hrecipients₃

/-! ## Sending -/

/-- However a mail is sent, each list has one owner afterwards, which frees it once. -/
theorem send_owned (env : Env) (from_ subject : List UInt8) (s : Called World)
    (hinjective : Function.Injective handles) (hlists : ∀ member, Alive handles s.value member) :
    ∃ result t, exec (send env from_ subject) s = (result, t) ∧ result ≠ .error .undefined ∧
      (∀ member, ∃! owner, Owns (handles member) member t.value owner) ∧
      ∃ u, exec destroy t = (.ok (), u) ∧
        ∀ member, u.value.freed.count (handles member) = 1 := by
  have hsend : Safe handles (send env from_ subject) := safe_send hinjective from_ subject
  have hsafe := hsend s hlists
  have hends : ∀ result t, exec (send env from_ subject) s = (result, t) →
      result ≠ .error .undefined ∧ ∀ member, Alive handles t.value member := by
    intro result t hexec
    rw [hexec] at hsafe
    cases result with
    | ok _ => exact ⟨by simp, hsafe⟩
    | error stop => exact ⟨fun heq => hsafe.1 (Except.error.inj heq), hsafe.2⟩
  obtain ⟨hdefined, halive⟩ := hends _ _ rfl
  refine ⟨_, _, rfl, hdefined, fun member => ?_, exec_destroy hinjective halive _⟩
  obtain ⟨owner, howns⟩ := (halive member).1
  exact ⟨owner, howns, fun _ hother => hother.unique howns⟩

/-- The third native call fails, which is the one that is to take the recipients over. -/
def refusingEnv : Env where
  toMemoryOwner := { MemoryOwner.sampleEnv with
    native := ⟨fun n => if n = 2 then .other 1 else .noError, fun _ _ => 0⟩ }
  memoForm := [0x4D]
  now := ⟨0, 0⟩

def sampleHandle : Member → ℕ
  | .sendTo => 1
  | .copyTo => 2
  | .blindCopyTo => 3
  | .recipients => 4

theorem injective_sampleHandle : Function.Injective sampleHandle := by
  intro member other h
  cases member <;> cases other <;> first | rfl | cases h

/-- A mail to `a`. -/
def sampleMail : Called World where
  calls := 0
  value :=
    { heap := ⟨[(1, ⟨0, TextList.bytes [[0x61]]⟩), (2, ⟨0, TextList.bytes []⟩),
        (3, ⟨0, TextList.bytes []⟩), (4, ⟨0, TextList.bytes [[0x61]]⟩)], 4, by decide⟩
      msgHdl := 7
      lists := fun member => ⟨sampleHandle member, 7⟩
      taken := []
      headers := []
      transfers := []
      freed := [] }

theorem alive_sampleMail (member : Member) : Alive sampleHandle sampleMail.value member := by
  refine ⟨⟨.mail, rfl, ?_, List.not_mem_nil, by simp [sampleMail]⟩, List.not_mem_nil⟩
  cases member <;> exact ⟨_, rfl, by decide⟩

theorem send_owned_refused : ∃ result t,
    exec (send refusingEnv [0x62] [0x63]) sampleMail = (result, t) ∧ result ≠ .error .undefined ∧
      (∀ member, ∃! owner, Owns (sampleHandle member) member t.value owner) ∧
      ∃ u, exec destroy t = (.ok (), u) ∧
        ∀ member, u.value.freed.count (sampleHandle member) = 1 :=
  send_owned refusingEnv [0x62] [0x63] sampleMail injective_sampleHandle alive_sampleMail

end Dmn.MailSend
