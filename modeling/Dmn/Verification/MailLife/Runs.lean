import Dmn.Verification.MailLife.Ends
import Dmn.Verification.Mime

/-! # The life of a mail

Wherever a call fails, the mail has its file and its message open, and each list belongs to the mail
or to the message. -/

namespace Dmn.MailLife

open Exec Native MailSend Ledger

variable {env : Env} {heap : Heap} {setting : Setting} {file n : ℕ} {w : World} {α : Type}
  {built : List Member} {member : Member}

/-! ## Parts of the world -/

theorem exec_onMail (x : MailSend.M α) (n : ℕ) (w : World) : exec (onMail x) ⟨n, w⟩ =
    ((exec x ⟨n, w.mail⟩).1.mapError Mime.Throw.stop,
      ⟨(exec x ⟨n, w.mail⟩).2.calls, { w with mail := (exec x ⟨n, w.mail⟩).2.value }⟩) := rfl

theorem exec_onMime (x : Mime.M α) (n : ℕ) (w : World) : exec (onMime x) ⟨n, w⟩ =
    ((exec x ⟨n, w.mime⟩).1,
      ⟨(exec x ⟨n, w.mime⟩).2.calls, { w with mime := (exec x ⟨n, w.mime⟩).2.value }⟩) := rfl

theorem meets_onMail {x : MailSend.M α} {Q : α → Called MailSend.World → Prop}
    {E : Stop → Called MailSend.World → Prop} {Q' : α → Called World → Prop}
    {E' : Mime.Throw → Called World → Prop} (hx : Meets (fun s => s.value = w.mail) x Q E)
    (hQ : ∀ a n mail, Q a ⟨n, mail⟩ → Q' a ⟨n, { w with mail := mail }⟩)
    (hE : ∀ stop n mail, E stop ⟨n, mail⟩ → E' (.stop stop) ⟨n, { w with mail := mail }⟩) :
    Meets (fun s => s.value = w) (onMail x) Q' E' := by
  rintro ⟨n, v⟩ rfl
  have hxs := hx ⟨n, v.mail⟩ rfl
  rw [exec_onMail]
  rcases hresult : exec x ⟨n, v.mail⟩ with ⟨stop | a, t⟩ <;> rw [hresult] at hxs
  · exact hE stop t.calls t.value hxs
  · exact hQ a t.calls t.value hxs

/-! ## Destruction -/

/-- The handles that the mail closes, the first one first. -/
def openHandles (w : World) : List ℕ :=
  (if w.mail.msgHdl = 0 then [] else [w.mail.msgHdl]) ++ (if w.file = 0 then [] else [w.file])

/-- The mail can be destroyed. -/
structure Kept (heap : Heap) (w : World) : Prop where
  lists : Holding heap members w.mail
  handles : Book.Open (openHandles w) w.mime.handles
  streams : w.mime.streams = []

/-- Nothing is left of a mail. -/
structure Gone (heap : Heap) (w : World) : Prop where
  memory : ∀ hdl, w.mail.heap.get? hdl = heap.get? hdl
  handles : Book.Open [] w.mime.handles
  streams : w.mime.streams = []

theorem closes_handles {hdl : ℕ} {stack : List ℕ}
    (h : Book.Open ((if hdl = 0 then [] else [hdl]) ++ stack) w.mime.handles) :
    Book.Open stack (w.closes hdl).mime.handles := by
  unfold World.closes
  by_cases hnull : hdl = 0
  · rw [if_pos hnull] at h ⊢
    exact h
  · rw [if_neg hnull] at h ⊢
    exact Book.Open.closes h

theorem closes_other (hdl : ℕ) (w : World) : (w.closes hdl).mail = w.mail ∧
    (w.closes hdl).file = w.file ∧ (w.closes hdl).mime.streams = w.mime.streams := by
  unfold World.closes
  split <;> exact ⟨rfl, rfl, rfl⟩

theorem exec_destroy_life (h : Kept heap w) (n : ℕ) :
    ∃ v, exec destroy ⟨n, w⟩ = (.ok (), ⟨n, v⟩) ∧ Gone heap v := by
  obtain ⟨hlists, hmemory⟩ := exec_destroy h.lists n
  have hmail : exec (onMail MailSend.destroy) ⟨n, w⟩ =
      (.ok (), ⟨n, { w with mail := ended w.mail }⟩) := by
    rw [exec_onMail, hlists]
    rfl
  let w' : World := { w with mail := ended w.mail }
  obtain ⟨hmail₁, -, hstreams₁⟩ := closes_other w.mail.msgHdl w'
  obtain ⟨hmail₂, -, hstreams₂⟩ := closes_other w.file (w'.closes w.mail.msgHdl)
  refine ⟨(w'.closes w.mail.msgHdl).closes w.file, ?_, ?_, ?_, ?_⟩
  · rw [destroy, exec_bind_of_ok hmail]
    rfl
  · rw [hmail₂, hmail₁]
    exact hmemory
  · apply closes_handles
    rw [List.append_nil]
    exact closes_handles h.handles
  · rw [hstreams₂, hstreams₁]
    exact h.streams

/-! ## Construction -/

/-- A mail without a message. -/
structure Opening (heap : Heap) (built : List Member) (stack : List ℕ) (w : World) : Prop where
  lists : Built heap built w.mail
  message : w.mail.msgHdl = 0
  handles : Book.Open stack w.mime.handles
  stack_eq : stack = if w.file = 0 then [] else [w.file]
  streams : w.mime.streams = []
  unsent : w.mime.items = [] ∧ w.added = []

theorem opening_start (heap : Heap) : Opening heap [] [] (World.start heap) where
  lists := built_start heap
  message := rfl
  handles := Book.open_start
  stack_eq := rfl
  streams := rfl
  unsent := ⟨rfl, rfl⟩

/-- A call has thrown, and the mail can be destroyed. -/
def Refused (heap : Heap) (throw : Mime.Throw) (s : Called World) : Prop :=
  throw ≠ .stop .undefined ∧ Kept heap s.value

theorem Opening.kept {stack : List ℕ} (h : Opening heap built stack w) : Kept heap w where
  lists := h.lists.holding
  handles := by
    rw [openHandles, if_pos h.message, List.nil_append, ← h.stack_eq]
    exact h.handles
  streams := h.streams

theorem Opening.refused {stack : List ℕ} (h : Opening heap built stack w) (error : Error) :
    Refused heap (.stop (.throws error)) ⟨n, w⟩ := ⟨nofun, h.kept⟩

theorem meets_constructList (hmember : member ∉ built) :
    Meets (fun s => Opening heap built [] s.value) (onMail (constructList env member))
      (fun _ s => Opening heap (member :: built) [] s.value) (Refused heap) := by
  rintro ⟨n, w⟩ h
  rw [exec_onMail, exec_constructList]
  cases hresult : (env.native.status n).isError with
  | true => exact h.refused _
  | false => exact ⟨h.lists.withList hmember, h.message, h.handles, h.stack_eq, h.streams, h.unsent⟩

theorem meets_construct : Meets (fun s => Opening heap [] [] s.value) (construct env)
    (fun _ s => Opening heap [.recipients, .blindCopyTo, .copyTo, .sendTo] [] s.value)
    (Refused heap) := by
  apply (meets_constructList List.not_mem_nil).bind
  intro _
  apply (meets_constructList (by decide)).bind
  intro _
  apply (meets_constructList (by decide)).bind
  intro _
  exact meets_constructList (by decide)

/-- The state of a mail between two calls of its methods. -/
structure Living (setting : Setting) (file : ℕ) (w : World) : Prop where
  progress : ∃ handed headers, Staged handed headers ∧
    Progress setting w.added handed headers w.mail
  file_eq : w.file = file
  file_ne : file ≠ 0
  handles : Book.Open [setting.message, file] w.mime.handles
  streams : w.mime.streams = []

/-- A new mail. -/
def Created (heap : Heap) (w : World) : Prop :=
  ∃ setting file, setting.heap = heap ∧ Living setting file w ∧ w.added = [] ∧
    w.mime.items = [] ∧ Progress setting [] [] [] w.mail

theorem Opening.created (h : Opening heap [.recipients, .blindCopyTo, .copyTo, .sendTo] [w.file] w)
    (hfile : w.file ≠ 0) : Created heap
      { w.opens with mail := { w.mail with msgHdl := w.mime.handles.next } } := by
  have hmem : ∀ member : Member, member ∈ [Member.recipients, .blindCopyTo, .copyTo, .sendTo] := by
    intro member
    cases member <;> decide
  let setting : Setting :=
    { heap := heap
      message := w.mime.handles.next
      handles := fun member => (w.mail.lists member).hdl_
      message_ne := Nat.ne_of_gt h.handles.next
      fresh := fun member => (h.lists.lists member (hmem member)).1
      distinct := fun first second heq =>
        h.lists.distinct first (hmem first) second (hmem second) heq }
  have hprogress : Progress setting [] [] [] { w.mail with msgHdl := w.mime.handles.next } := by
    constructor
    · rfl
    · exact fun member _ => (h.lists.lists member (hmem member)).2.congr rfl rfl
    · nofun
    · exact congrArg (List.map _) h.lists.unsent.1
    · exact h.lists.unsent.2
    · exact fun hdl hothers => h.lists.others hdl fun member _ => hothers member
    · exact h.lists.freed
  have hadded : w.added = [] := h.unsent.2
  refine ⟨setting, w.file, rfl, ⟨⟨[], [], .inl ⟨rfl, rfl⟩, ?_⟩, rfl, hfile, h.handles.opens,
    h.streams⟩, hadded, h.unsent.1, hprogress⟩
  show Progress setting w.added [] [] _
  rw [hadded]
  exact hprogress

theorem meets_guarded {P : Called World → Prop} {x : M α} {Q : α → Called World → Prop}
    (hx : Meets P x Q (Refused heap)) : Meets P (guarded x) Q
      (fun throw s => throw ≠ .stop .undefined ∧ Gone heap s.value) := by
  refine hx.tryCatch fun throw => ?_
  rintro ⟨n, w⟩ ⟨hdefined, hkept⟩
  obtain ⟨v, hexec, hgone⟩ := exec_destroy_life hkept n
  rw [exec_bind_of_ok hexec]
  exact ⟨hdefined, hgone⟩

theorem exec_mailOpenMessageFile (name : List UInt8) (n : ℕ) (w : World) :
    exec (mailOpenMessageFile env name) ⟨n, w⟩ =
      (.ok (env.native.status n), ⟨n + 1, if (env.native.status n).isError then w
        else { w.opens with file := w.mime.handles.next, mailbox := name }⟩) := by
  have hcall : exec (Mime.lift (Native.call env.native)) ⟨n, w⟩ =
      (.ok (env.native.status n), ⟨n + 1, w⟩) := rfl
  rw [mailOpenMessageFile, exec_bind_of_ok hcall]
  split <;> rfl

theorem exec_mailCreateMessage (n : ℕ) (w : World) :
    exec (mailCreateMessage env file) ⟨n, w⟩ =
      (.ok (env.native.status n), ⟨n + 1, if (env.native.status n).isError then w
        else { w.opens with mail := { w.mail with msgHdl := w.mime.handles.next } }⟩) := by
  have hcall : exec (Mime.lift (Native.call env.native)) ⟨n, w⟩ =
      (.ok (env.native.status n), ⟨n + 1, w⟩) := rfl
  rw [mailCreateMessage, exec_bind_of_ok hcall]
  split <;> rfl

/-- A mail is created, or nothing is left of it. -/
theorem meets_create (env : Env) (mailbox : Option (List UInt8)) :
    Meets (fun s => s.value = World.start heap) (create env mailbox)
      (fun _ s => Created heap s.value)
      (fun throw s => throw ≠ .stop .undefined ∧ Gone heap s.value) := by
  apply meets_guarded
  have hstart : Meets (fun s => s.value = World.start heap) (construct env) _ (Refused heap) :=
    meets_construct.weaken (fun s hs => by rw [hs]; exact opening_start heap) (fun _ _ h => h)
      fun _ _ h => h
  refine hstart.bind fun _ => ?_
  rintro ⟨n, w⟩ (h : Opening heap _ [] w)
  rw [exec_bind_of_ok (exec_mailOpenMessageFile _ n w)]
  cases hopened : (env.native.status n).isError with
  | true =>
      have hthrow := Mime.exec_lift_throwIfError (env.native.status n) "Failed to open message file"
        ⟨n + 1, w⟩
      rw [hopened, if_pos rfl] at hthrow
      rw [if_pos rfl, exec_bind_of_error hthrow]
      exact h.refused _
  | false =>
      rw [if_neg Bool.false_ne_true]
      let name := (mailbox.map (Lmbcs.fromString env.codePage)).getD []
      let w' : World := { w.opens with file := w.mime.handles.next, mailbox := name }
      have hnext : w.mime.handles.next ≠ 0 := Nat.ne_of_gt h.handles.next
      have h' : Opening heap [.recipients, .blindCopyTo, .copyTo, .sendTo] [w'.file] w' :=
        ⟨h.lists, h.message, h.handles.opens, (if_neg hnext).symm, h.streams, h.unsent⟩
      have hpass := Mime.exec_lift_throwIfError (env.native.status n) "Failed to open message file"
        ⟨n + 1, w'⟩
      have hfile : exec getFile ⟨n + 1, w'⟩ = (.ok w'.file, ⟨n + 1, w'⟩) := by
        rw [getFile, exec_bind_of_ok (exec_get _), if_neg hnext]
        rfl
      rw [hopened, if_neg Bool.false_ne_true] at hpass
      rw [exec_bind_of_ok hpass, exec_bind_of_ok hfile,
        exec_bind_of_ok (exec_mailCreateMessage (n + 1) w'), Mime.exec_lift_throwIfError]
      cases hcreated : (env.native.status (n + 1)).isError with
      | true => exact h'.refused _
      | false => exact h'.created hnext

end Dmn.MailLife
