import Dmn.Verification.MailLife.Lists
import Dmn.Verification.MailSend

/-! # What a message takes of a mail

The lists that were handed over belong to the message as they were, and the others to the mail. -/

namespace Dmn.MailLife

open Exec Native MailSend TextList

/-- What is known of a mail: the memory before it, the message, and the handles that its lists were
given. -/
structure Setting where
  heap : Heap
  message : ℕ
  handles : Member → ℕ
  message_ne : message ≠ 0
  fresh : ∀ member, heap.last < handles member
  distinct : Function.Injective handles

variable {env : MailSend.Env} {setting : Setting} {added : List (Member × List UInt8)}
  {handed : List Member} {headers : List (HeaderItem × List UInt8)} {w : MailSend.World}
  {member : Member} {n : ℕ}

/-- The lists in `handed` were handed over, the latest first. -/
structure Progress (setting : Setting) (added : List (Member × List UInt8))
    (handed : List Member) (headers : List (HeaderItem × List UInt8)) (w : MailSend.World) :
    Prop where
  message : w.msgHdl = setting.message
  mail : ∀ member ∉ handed, InMail (setting.handles member) (entries member added) member w
  gone : ∀ member ∈ handed, (w.lists member).hdl_ = 0 ∧
    w.heap.get? (setting.handles member) = none
  taken : w.taken.map (fun taken => (taken.item, TextList.ofBytes taken.block.bytes)) =
    handed.map fun member => (member.item, some (entries member added))
  headers : w.headers = headers
  others : ∀ hdl, (∀ member, setting.handles member ≠ hdl) →
    w.heap.get? hdl = setting.heap.get? hdl
  freed : w.freed = []

/-- The recipients are handed over first, and the headers are added behind them. -/
def Staged (handed : List Member) (headers : List (HeaderItem × List UInt8)) : Prop :=
  handed = [] ∧ headers = [] ∨ .recipients ∈ handed

/-- How a part of `send` can stop. -/
def Halted (setting : Setting) (added : List (Member × List UInt8)) (stop : Stop)
    (s : Called MailSend.World) : Prop :=
  stop ≠ .undefined ∧ ∃ handed headers, Staged handed headers ∧
    Progress setting added handed headers s.value

theorem halted_throws (hstaged : Staged handed headers)
    (h : Progress setting added handed headers w) (error : Error) :
    Halted setting added (.throws error) ⟨n, w⟩ :=
  ⟨nofun, handed, headers, hstaged, h⟩

namespace Progress

/-- The world behind a call that takes a list over, and its release. -/
theorem handOver (h : Progress setting added handed headers w) (hmember : member ∉ handed)
    {block : Block} (hblock : w.heap.get? (setting.handles member) = some block) (result : Status) :
    Progress setting added (member :: handed) headers
      (handedOver member.item member result block w) := by
  have hmail := h.mail member hmember
  have hhdl : (w.lists member).hdl_ = setting.handles member := by rw [hmail.list]
  have hne : ∀ other, other ≠ member → setting.handles other ≠ (w.lists member).hdl_ := by
    intro other hother heq
    rw [hhdl] at heq
    exact hother (setting.distinct heq)
  constructor
  · exact h.message
  · intro other hother
    obtain ⟨hother, hrest⟩ := not_or.mp (List.mem_cons.not.mp hother)
    exact (h.mail other hrest).congr (Function.update_of_ne hother _ _)
      (Heap.get?_erase_of_ne w.heap (hne other hother))
  · intro other hother
    rcases List.mem_cons.mp hother with rfl | hrest
    · refine ⟨by simp [handedOver], ?_⟩
      rw [← hhdl]
      exact Heap.get?_erase_self w.heap
    · obtain ⟨hnull, hgone⟩ := h.gone other hrest
      have hdiffers : other ≠ member := fun heq => hmember (heq ▸ hrest)
      refine ⟨?_, ?_⟩
      · exact (congrArg MemoryOwner.hdl_ (Function.update_of_ne hdiffers _ _)).trans hnull
      · exact (Heap.get?_erase_of_ne w.heap (hne other hdiffers)).trans hgone
  · obtain ⟨found, hfound, hbytes⟩ := hmail.block
    obtain rfl : found = block := Option.some.inj (hfound.symm.trans hblock)
    have hitem : (member.item, TextList.ofBytes found.bytes) =
        (member.item, some (entries member added)) := by
      rw [hbytes, ofBytes_bytes hmail.small]
    exact congrArg₂ List.cons hitem h.taken
  · exact h.headers
  · intro hdl hother
    have hdiffers : hdl ≠ (w.lists member).hdl_ := by
      rw [hhdl]
      exact Ne.symm (hother member)
    exact (Heap.get?_erase_of_ne w.heap hdiffers).trans (h.others hdl hother)
  · exact h.freed

theorem logged (h : Progress setting added handed headers w) (member : Member)
    (result : Status) : Progress setting added handed headers (logged member result w) :=
  ⟨h.message, fun other hother => (h.mail other hother).congr rfl rfl, h.gone, h.taken, h.headers,
    h.others, h.freed⟩

theorem addHeader (h : Progress setting added handed headers w)
    (item : HeaderItem × List UInt8) :
    Progress setting added handed (item :: headers) { w with headers := item :: w.headers } :=
  ⟨h.message, fun other hother => (h.mail other hother).congr rfl rfl, h.gone, h.taken,
    congrArg (item :: ·) h.headers, h.others, h.freed⟩

/-- A list that the mail has takes one more text. -/
theorem push (h : Progress setting added handed headers w) (hmember : member ∉ handed)
    {text : List UInt8} (hsmall : byteSize (entries member added ++ [text]) < 2 ^ 16) :
    Progress setting (added ++ [(member, text)]) handed headers
      (rewritten (setting.handles member) (entries member added ++ [text]) member w) where
  message := h.message
  mail other hother := by
    rw [entries_append]
    by_cases heq : member = other
    · subst heq
      rw [if_pos rfl]
      exact (h.mail member hmember).rewritten_self hsmall
    · rw [if_neg heq, List.append_nil]
      exact (h.mail other hother).rewritten_of_ne (fun hsame => heq (setting.distinct hsame).symm)
        (Ne.symm heq)
  gone other hother := by
    have hne : other ≠ member := fun heq => hmember (heq ▸ hother)
    obtain ⟨hnull, hgone⟩ := h.gone other hother
    refine ⟨(congrArg MemoryOwner.hdl_ (Function.update_of_ne hne _ _)).trans hnull, ?_⟩
    exact (Heap.get?_modify_of_ne w.heap (fun hsame => hne (setting.distinct hsame)) _).trans hgone
  taken := by
    refine h.taken.trans (List.map_congr_left fun other hother => ?_)
    have hne : member ≠ other := fun heq => hmember (heq ▸ hother)
    rw [entries_append, if_neg hne, List.append_nil]
  headers := h.headers
  others hdl hother :=
    (Heap.get?_modify_of_ne w.heap (Ne.symm (hother member)) _).trans (h.others hdl hother)
  freed := h.freed

end Progress

/-! ## Parts of `send` -/

theorem exec_getMessage (h : Progress setting added handed headers w) (n : ℕ) :
    exec getMessage ⟨n, w⟩ = (.ok setting.message, ⟨n, w⟩) := by
  have hne : w.msgHdl ≠ 0 := by
    rw [h.message]
    exact setting.message_ne
  rw [getMessage, exec_bind_of_ok (exec_value _), if_neg hne, ← h.message]
  rfl

/-- A list is handed over with a call that takes it. -/
theorem meets_transfer (h : Progress setting added handed headers w)
    (hstaged : Staged handed headers) (hmember : member ∉ handed) (message : String)
    {transfer : ℕ → ℕ → MailSend.M Status} (htransfer : ∀ hdl size,
      transfer hdl size = takeOver env member.item hdl) :
    Meets (fun s => s.value = w)
      (do
        let _ ← getMessage
        let hdl ← onList member MemoryOwner.getHandle
        let size ← onList member (MemoryOwner.bufferSize env.toMemoryOwner)
        let result ← transfer hdl size
        result.throwIfError message
        release member)
      (fun _ s => Progress setting added (member :: handed) headers s.value)
      (Halted setting added) := by
  rintro ⟨n, v⟩ rfl
  have hmail := h.mail member hmember
  obtain ⟨block, hblock, -⟩ := hmail.block
  have hsize : exec (onList member (MemoryOwner.bufferSize env.toMemoryOwner)) ⟨n, v⟩ = _ :=
    hmail.exec_read (fun entries => byteSize entries % 2 ^ 16) n
  rw [exec_bind_of_ok (exec_getMessage h n), exec_bind_of_ok (hmail.exec_getHandle n)]
  unfold reading at hsize
  cases hlock : (env.native.status n).isError with
  | true =>
      rw [hlock, if_pos rfl] at hsize
      rw [exec_bind_of_error hsize]
      exact halted_throws hstaged h _
  | false =>
      have htaken : exec (onHeap (Heap.block (setting.handles member))) ⟨n + 1, v⟩ =
          (.ok block, ⟨n + 1, v⟩) := by
        rw [onHeap, Native.part, exec_focus, Locker.exec_block hblock]
      have hhdl : setting.handles member = (v.lists member).hdl_ := by rw [hmail.list]
      rw [hlock, if_neg Bool.false_ne_true] at hsize
      rw [exec_bind_of_ok hsize, htransfer, takeOver, bind_assoc, exec_bind_of_ok htaken,
        bind_assoc, exec_bind_of_ok (exec_call _), bind_assoc, exec_bind_of_ok (exec_update _ _)]
      cases hresult : (env.native.status (n + 1)).isError with
      | true =>
          rw [if_pos rfl, exec_bind_of_ok (exec_pure _ _), Status.throwIfError, hresult]
          rw [hhdl]
          exact halted_throws hstaged (h.logged member _) _
      | false =>
          have hchecked : (env.native.status (n + 1)).throwIfError message =
              (pure () : MailSend.M Unit) := by
            rw [Status.throwIfError, hresult]
            rfl
          rw [if_neg Bool.false_ne_true, bind_assoc, exec_bind_of_ok (exec_update _ _), pure_bind,
            hchecked, hhdl]
          exact h.handOver hmember hblock (env.native.status (n + 1))

theorem exec_empty (env : MailSend.Env) (h : Progress setting added handed headers w)
    (hmember : member ∉ handed) (n : ℕ) : exec (MailSend.empty env member) ⟨n, w⟩ =
      (reading env n (decide ((entries member added).length = 0)), ⟨n + 1, w⟩) := by
  have hsize : exec (onList member (MemoryOwner.listSize env.toMemoryOwner)) ⟨n, w⟩ = _ :=
    (h.mail member hmember).exec_read List.length n
  unfold reading at hsize ⊢
  cases hlock : (env.native.status n).isError with
  | true =>
      rw [hlock, if_pos rfl] at hsize
      rw [MailSend.empty, exec_bind_of_error hsize]
      rfl
  | false =>
      rw [hlock, if_neg Bool.false_ne_true] at hsize
      rw [MailSend.empty, exec_bind_of_ok hsize]
      rfl

/-- The lists that were handed over, with this one if it is not empty. -/
def grown (added : List (Member × List UInt8)) (member : Member) (handed : List Member) :
    List Member := if entries member added = [] then handed else member :: handed

theorem mem_grown (member : Member) {other : Member} (h : other ∈ handed) :
    other ∈ grown added member handed := by
  unfold grown
  split
  · exact h
  · exact List.mem_cons_of_mem _ h

theorem notMem_grown {other : Member} (h : other ∉ handed) (hne : other ≠ member) :
    other ∉ grown added member handed := by
  unfold grown
  split
  · exact h
  · exact List.not_mem_cons_of_ne_of_not_mem hne h

theorem meets_addList (h : Progress setting added handed headers w)
    (hstaged : .recipients ∈ handed) (hmember : member ∉ handed) :
    Meets (fun s => s.value = w) (addList env member.item member)
      (fun _ s => Progress setting added (grown added member handed) headers s.value)
      (Halted setting added) := by
  rintro ⟨n, v⟩ rfl
  have hempty := exec_empty env h hmember n
  unfold reading at hempty
  cases hlock : (env.native.status n).isError with
  | true =>
      rw [hlock, if_pos rfl] at hempty
      rw [addList, exec_bind_of_error hempty]
      exact halted_throws (.inr hstaged) h _
  | false =>
      rw [hlock, if_neg Bool.false_ne_true] at hempty
      rw [addList, exec_bind_of_ok hempty]
      by_cases hnil : entries member added = []
      · simpa [grown, hnil] using h
      · have hcount : ¬ decide ((entries member added).length = 0) = true := by simpa using hnil
        rw [if_neg hcount, grown, if_neg hnil]
        exact meets_transfer h (.inr hstaged) hmember _ (fun _ _ => rfl) ⟨n + 1, v⟩ rfl

theorem meets_addHeaderItem (h : Progress setting added handed headers w)
    (hstaged : .recipients ∈ handed) (item : HeaderItem) (value : List UInt8) :
    Meets (fun s => s.value = w) (addHeaderItem env item value)
      (fun _ s => Progress setting added handed
        ((item, value.take (value.length % 2 ^ 16)) :: headers) s.value)
      (Halted setting added) := by
  rintro ⟨n, v⟩ rfl
  rw [addHeaderItem, exec_bind_of_ok (exec_getMessage h n), mailAddHeaderItem, bind_assoc,
    exec_bind_of_ok (exec_call _)]
  cases hresult : (env.native.status n).isError with
  | true =>
      rw [if_pos rfl, pure_bind, Status.throwIfError, hresult]
      exact halted_throws (.inr hstaged) h _
  | false =>
      rw [if_neg Bool.false_ne_true, bind_assoc, exec_bind_of_ok (exec_update _ _), pure_bind,
        Status.throwIfError, hresult]
      exact h.addHeader _

theorem meets_transferMessage (h : Progress setting added handed headers w)
    (hstaged : .recipients ∈ handed) :
    Meets (fun s => s.value = w)
      (do
        let _ ← getMessage
        let result ← mailTransferMessageLocal env
        result.throwIfError "Failed to transfer mail")
      (fun _ s => Progress setting added handed headers s.value) (Halted setting added) := by
  rintro ⟨n, v⟩ rfl
  rw [exec_bind_of_ok (exec_getMessage h n), mailTransferMessageLocal,
    exec_bind_of_ok (exec_call _), Status.throwIfError]
  cases hresult : (env.native.status n).isError with
  | true => exact halted_throws (.inr hstaged) h _
  | false => exact h

/-! ## `send` -/

/-- The lists that are handed over, the latest first. -/
def sentLists (added : List (Member × List UInt8)) : List Member :=
  [.blindCopyTo, .copyTo, .sendTo, .recipients].filter fun member => entries member added ≠ []

/-- The headers that are added, the latest first. -/
def sentHeaders (env : MailSend.Env) (from_ subject : List UInt8) :
    List (HeaderItem × List UInt8) :=
  ([(.postedDate, env.now.bytes), (.composedDate, env.now.bytes), (.subject, subject),
    (.from_, from_), (.form, env.memoForm)] : List (HeaderItem × List UInt8)).map
      fun item => (item.1, item.2.take (item.2.length % 2 ^ 16))

/-- With the recipients gone, nothing is sent, and nothing changes. -/
theorem exec_send_of_gone (hgone : (w.lists .recipients).hdl_ = 0) (from_ subject : List UInt8)
    (n : ℕ) : exec (MailSend.send env from_ subject) ⟨n, w⟩ =
      (.error (.throws (.invalidHandle "Empty handle accessed")), ⟨n, w⟩) := by
  have hempty : exec (MailSend.empty env .recipients) ⟨n, w⟩ =
      (.error (.throws (.invalidHandle "Empty handle accessed")), ⟨n, w⟩) := by
    have hsize : exec (onList .recipients (MemoryOwner.listSize env.toMemoryOwner)) ⟨n, w⟩ = _ :=
      exec_read_of_eq hgone List.length n
    rw [MailSend.empty, exec_bind_of_error hsize]
  rw [MailSend.send, exec_bind_of_error hempty]

theorem sentLists_eq (h : entries .recipients added ≠ []) : sentLists added =
    grown added .blindCopyTo (grown added .copyTo (grown added .sendTo [.recipients])) := by
  unfold sentLists grown
  by_cases hsend : entries .sendTo added = [] <;> by_cases hcopy : entries .copyTo added = [] <;>
    by_cases hblind : entries .blindCopyTo added = [] <;> simp [h, hsend, hcopy, hblind]

/-- A contract for whatever the world is at the start. -/
theorem meets_of_forall {α : Type} {P : MailSend.World → Prop} {x : MailSend.M α}
    {Q : α → Called MailSend.World → Prop} {E : Stop → Called MailSend.World → Prop}
    (h : ∀ w, P w → Meets (fun s => s.value = w) x Q E) : Meets (fun s => P s.value) x Q E :=
  fun s hs => h s.value hs s rfl

/-- The headers are added behind the recipients. -/
theorem meets_addHeaders (hstaged : .recipients ∈ handed) (from_ subject : List UInt8) :
    Meets (fun s => Progress setting added handed [] s.value)
      (do
        addHeaderItem env .form env.memoForm
        addHeaderItem env .from_ from_
        addHeaderItem env .subject subject
        addHeaderItem env .composedDate env.now.bytes
        addHeaderItem env .postedDate env.now.bytes
        let _ ← getMessage
        let result ← mailTransferMessageLocal env
        result.throwIfError "Failed to transfer mail")
      (fun _ s => Progress setting added handed (sentHeaders env from_ subject) s.value)
      (Halted setting added) := by
  apply (meets_of_forall fun _ hw => meets_addHeaderItem hw hstaged _ _).bind
  intro _
  apply (meets_of_forall fun _ hw => meets_addHeaderItem hw hstaged _ _).bind
  intro _
  apply (meets_of_forall fun _ hw => meets_addHeaderItem hw hstaged _ _).bind
  intro _
  apply (meets_of_forall fun _ hw => meets_addHeaderItem hw hstaged _ _).bind
  intro _
  apply (meets_of_forall fun _ hw => meets_addHeaderItem hw hstaged _ _).bind
  intro _
  exact meets_of_forall fun _ hw => meets_transferMessage hw hstaged

/-- `send` hands over the lists that are not empty and adds the headers, or stops on its way. -/
theorem meets_send (h : Progress setting added [] [] w) (from_ subject : List UInt8) :
    Meets (fun s => s.value = w) (MailSend.send env from_ subject)
      (fun _ s => .recipients ∈ sentLists added ∧
        Progress setting added (sentLists added) (sentHeaders env from_ subject) s.value)
      (Halted setting added) := by
  rintro ⟨n, v⟩ rfl
  have hstart : Staged ([] : List Member) ([] : List (HeaderItem × List UInt8)) := .inl ⟨rfl, rfl⟩
  have hnotHanded : Member.recipients ∉ ([] : List Member) := List.not_mem_nil
  have hempty := exec_empty env h hnotHanded n
  unfold reading at hempty
  cases hlock : (env.native.status n).isError with
  | true =>
      rw [hlock, if_pos rfl] at hempty
      rw [MailSend.send, exec_bind_of_error hempty]
      exact halted_throws hstart h _
  | false =>
      rw [hlock, if_neg Bool.false_ne_true] at hempty
      rw [MailSend.send, exec_bind_of_ok hempty, exec_bind_of_ok (exec_value _)]
      by_cases hnone : (entries .recipients added).length = 0 ∨ v.msgHdl = 0
      · rw [if_pos (by simpa using hnone)]
        exact halted_throws hstart h _
      · rw [if_neg (by simpa using hnone)]
        have hsome : entries .recipients added ≠ [] := by
          rintro hnil
          exact hnone (.inl (by rw [hnil]; rfl))
        have hrecipients : Meets (fun s => s.value = v) (addRecipients env)
            (fun _ s => Progress setting added [.recipients] [] s.value) (Halted setting added) :=
          meets_transfer h hstart List.not_mem_nil _ fun _ _ => rfl
        have hfirst : Member.recipients ∈ [Member.recipients] := List.mem_singleton_self _
        have hsecond : .recipients ∈ grown added .sendTo [.recipients] := mem_grown _ hfirst
        have hthird : .recipients ∈ grown added .copyTo (grown added .sendTo [.recipients]) :=
          mem_grown _ hsecond
        have hlast : .recipients ∈ grown added .blindCopyTo
            (grown added .copyTo (grown added .sendTo [.recipients])) := mem_grown _ hthird
        rw [sentLists_eq hsome]
        refine hrecipients.bind (fun _ => ?_) ⟨n + 1, v⟩ rfl
        apply (meets_of_forall fun _ hw => meets_addList hw hfirst (by decide)).bind
        intro _
        apply (meets_of_forall fun _ hw => meets_addList hw hsecond
          (notMem_grown (by decide) (by decide))).bind
        intro _
        apply (meets_of_forall fun _ hw => meets_addList hw hthird
          (notMem_grown (notMem_grown (by decide) (by decide)) (by decide))).bind
        intro _
        exact (meets_addHeaders hlast from_ subject).weaken (fun _ h => h) (fun _ _ h => ⟨hlast, h⟩)
          fun _ _ h => h

end Dmn.MailLife
