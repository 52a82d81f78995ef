import Dmn.Library.Run
import Dmn.Verification.MailHeaders
import Dmn.Verification.MailLife.Runs

/-! # What is sent of a mail

A mail is sent at most once, with the texts that its lists have taken and the bodies that were
set. -/

namespace Dmn.MailLife

open Exec Native MailSend Ledger

variable {env : Env} {heap : Heap} {setting : Setting} {file n : ℕ} {w : World} {member : Member}

/-! ## Between two calls -/

/-- The recipients were handed over. -/
def Spent (w : World) : Prop := (w.mail.lists .recipients).hdl_ = 0

theorem Living.kept (h : Living setting file w) : Kept setting.heap w where
  lists := by
    obtain ⟨handed, headers, -, hprogress⟩ := h.progress
    have hown : ∀ member, (w.mail.lists member).hdl_ ≠ 0 → member ∉ handed ∧
        (w.mail.lists member).hdl_ = setting.handles member := by
      intro member hne
      have hmember : member ∉ handed := fun hmem => hne (hprogress.gone member hmem).1
      exact ⟨hmember, by rw [(hprogress.mail member hmember).list]⟩
    constructor
    · intro member _ hne
      obtain ⟨hmember, hhdl⟩ := hown member hne
      obtain ⟨block, hblock, -⟩ := (hprogress.mail member hmember).block
      rw [hhdl]
      exact ⟨setting.fresh member, block, hblock⟩
    · intro first _ second _ hne heq
      have hne' : (w.mail.lists second).hdl_ ≠ 0 := by
        rw [← heq]
        exact hne
      rw [(hown first hne).2, (hown second hne').2] at heq
      exact setting.distinct heq
    · intro hdl hothers
      by_cases hhandle : ∃ member, setting.handles member = hdl
      · obtain ⟨member, rfl⟩ := hhandle
        by_cases hmember : member ∈ handed
        · rw [(hprogress.gone member hmember).2, Heap.get?_of_last_lt (setting.fresh member)]
        · refine absurd ?_ (hothers member (by cases member <;> decide))
          rw [(hprogress.mail member hmember).list]
      · exact hprogress.others hdl fun member heq => hhandle ⟨member, heq⟩
  handles := by
    obtain ⟨handed, headers, -, hprogress⟩ := h.progress
    have hstack : openHandles w = [setting.message, file] := by
      have hfile : w.file ≠ 0 := h.file_eq ▸ h.file_ne
      have hmessage : w.mail.msgHdl ≠ 0 := hprogress.message ▸ setting.message_ne
      rw [openHandles, if_neg hmessage, if_neg hfile, hprogress.message, h.file_eq]
      rfl
    rw [hstack]
    exact h.handles
  streams := h.streams

/-- What a mail is to its author. -/
structure Draft where
  recipients : TextList.Entries
  items : List Mime.Part

inductive Entry where
  | recipient (address : List UInt8)
  | body (part : Mime.Part)

def Draft.take (draft : Draft) : Entry → Draft
  | .recipient address => { draft with recipients := draft.recipients ++ [address] }
  | .body part => { draft with items := draft.items ++ [part] }

def draft (w : World) : Draft := ⟨entries .recipients w.added, w.mime.items⟩

/-- The mail lives on, with this draft. -/
structure Behind (setting : Setting) (file : ℕ) (w : World) (after : Draft) (v : World) : Prop where
  living : Living setting file v
  spent : Spent w → Spent v
  draft_eq : draft v = after

/-- A method that throws leaves a living mail, and the draft as it was. -/
def Stopped (setting : Setting) (file : ℕ) (w : World) (throw : Mime.Throw) (s : Called World) :
    Prop :=
  throw ≠ .stop .undefined ∧ Behind setting file w (draft w) s.value

theorem Living.stopped (h : Living setting file w) (error : Error) (n : ℕ) :
    Stopped setting file w (.stop (.throws error)) ⟨n, w⟩ := ⟨nofun, h, id, rfl⟩

theorem draft_append (w : World) (member : Member) (text : List UInt8) :
    draft { w with added := w.added ++ [(member, text)] } =
      if member = .recipients then (draft w).take (.recipient text) else draft w := by
  unfold draft
  rw [entries_append]
  split
  · rfl
  · rw [List.append_nil]

/-! ## Methods -/

theorem hdl_update (lists : Member → MemoryOwner) (member other : Member) (size : ℕ) :
    (Function.update lists member { lists member with size_ := size } other).hdl_ =
      (lists other).hdl_ := by
  by_cases heq : other = member
  · subst heq
    rw [Function.update_self]
  · rw [Function.update_of_ne heq]

theorem meets_pushBack (env : Env) (h : Living setting file w) (member : Member)
    (email : List UInt8) :
    Meets (fun s => s.value = w) (pushBack env member email)
      (fun _ s => Behind setting file w (if member = .recipients then
        (draft w).take (.recipient (Lmbcs.fromString env.codePage email)) else draft w) s.value)
      (Stopped setting file w) := by
  rintro ⟨n, v⟩ rfl
  obtain ⟨handed, headers, hstaged, hprogress⟩ := h.progress
  have hmail := exec_onMail (onList member fun self =>
    MemoryOwner.listPushBack env.toMemoryOwner self email) n v
  by_cases hmember : member ∈ handed
  · obtain ⟨error, hpush⟩ := exec_pushBack_of_eq env.toMailSend (hprogress.gone member hmember).1
      email n
    rw [hpush] at hmail
    rw [pushBack, exec_bind_of_error hmail]
    exact h.stopped error n
  · rcases (hprogress.mail member hmember).exec_pushBack env.toMailSend email n with
      ⟨error, calls, hpush⟩ | ⟨calls, hsmall, hpush⟩
    · rw [hpush] at hmail
      rw [pushBack, exec_bind_of_error hmail]
      exact h.stopped error calls
    · rw [hpush] at hmail
      rw [pushBack, exec_bind_of_ok hmail]
      refine ⟨⟨⟨handed, headers, hstaged, hprogress.push hmember hsmall⟩, h.file_eq, h.file_ne,
        h.handles, h.streams⟩, fun hspent => ?_, draft_append v member _⟩
      exact (hdl_update v.mail.lists member .recipients _).trans hspent

/-- The recipients are the last ones to take an address, so what fails before is not delivered. -/
theorem meets_addToList (env : Env) (h : Living setting file w) {header : Member}
    (hheader : header ≠ .recipients) (email : List UInt8) :
    Meets (fun s => s.value = w) (addToList env header email)
      (fun _ s => Behind setting file w
        ((draft w).take (.recipient (Lmbcs.fromString env.codePage email))) s.value)
      (Stopped setting file w) := by
  refine (meets_pushBack env h header email).bind fun _ => ?_
  rintro s ⟨hliving, hspent, hdraft⟩
  rw [if_neg hheader] at hdraft
  have hsecond := meets_pushBack env hliving .recipients email s rfl
  rcases hresult : exec (pushBack env .recipients email) s with ⟨throw | _, t⟩ <;>
    rw [hresult] at hsecond
  · obtain ⟨hdefined, hlast⟩ := hsecond
    exact ⟨hdefined, hlast.living, fun hs => hlast.spent (hspent hs),
      hlast.draft_eq.trans hdraft⟩
  · rw [if_pos rfl, hdraft] at hsecond
    exact ⟨hsecond.living, fun hs => hsecond.spent (hspent hs), hsecond.draft_eq⟩

/-- The item that a body becomes. -/
def bodyPart (message : ℕ) (body contentType : List UInt8) : Mime.Part :=
  ⟨message, mailBodyItem, [Mime.cut (Lmbcs.asciiBytes "Content-Type: ".toList ++ (contentType ++
    (Lmbcs.asciiBytes "; charset=".toList ++ Lmbcs.asciiBytes "UTF-8".toList))),
      Mime.encodingLine, [], Mime.cut body]⟩

theorem meets_setBody (env : Env) (h : Living setting file w) (body contentType : List UInt8) :
    Meets (fun s => s.value = w) (setBody env body contentType)
      (fun _ s => Behind setting file w
        ((draft w).take (.body (bodyPart setting.message body contentType))) s.value)
      (Stopped setting file w) := by
  rintro ⟨n, v⟩ rfl
  obtain ⟨handed, headers, hstaged, hprogress⟩ := h.progress
  have hmessage : exec (onMail getMessage) ⟨n, v⟩ = (.ok setting.message, ⟨n, v⟩) := by
    rw [exec_onMail, exec_getMessage hprogress]
    rfl
  rw [setBody, exec_bind_of_ok hmessage, exec_onMime]
  have hclosed : ∀ put, (({ v.mime with handles := v.mime.handles.opens }.withStream
      v.mime.handles.next setting.message put).closeStream v.mime.handles.next).streams = [] := by
    intro put
    have hnone : ∀ stream ∈ v.mime.streams, stream.handle ≠ v.mime.handles.next := by
      rw [h.streams]
      exact nofun
    exact (Mime.closeStream_withStream hnone).trans h.streams
  rcases Mime.exec_openAndWrite v.mime env.mime setting.message setting.message mailBodyItem
      [.setContentType contentType, .setCharset (Lmbcs.asciiBytes "UTF-8".toList),
        .appendContent body] n with
    ⟨error, -, hexec⟩ | ⟨-, calls, put, ⟨-, hexec⟩ | ⟨-, throw, hdefined, hexec⟩⟩
  · rw [hexec]
    exact h.stopped error (n + 1)
  · rw [hexec]
    exact ⟨⟨⟨handed, headers, hstaged, hprogress⟩, h.file_eq, h.file_ne, h.handles.opens.closes,
      hclosed put⟩, id, rfl⟩
  · rw [hexec]
    exact ⟨hdefined, ⟨⟨handed, headers, hstaged, hprogress⟩, h.file_eq, h.file_ne,
      h.handles.opens.closes, hclosed put⟩, id, rfl⟩

/-- What a sent mail has handed over. -/
structure Sent (env : Env) (from_ subject : List UInt8) (added : List (Member × List UInt8))
    (w : MailSend.World) : Prop where
  recipients : entries .recipients added ≠ []
  taken : w.taken.map (fun taken => (taken.item, TextList.ofBytes taken.block.bytes)) =
    (sentLists added).map fun member => (member.item, some (entries member added))
  headers : w.headers = sentHeaders env.toMailSend from_ subject

theorem Spent.exec_send (h : Spent w) (from_ subject : List UInt8) (n : ℕ) :
    exec (send env from_ subject) ⟨n, w⟩ =
      (.error (.stop (.throws (.invalidHandle "Empty handle accessed"))), ⟨n, w⟩) := by
  rw [send, exec_onMail, exec_send_of_gone h]
  rfl

theorem meets_send_life (env : Env) (h : Living setting file w) (from_ subject : List UInt8) :
    Meets (fun s => s.value = w) (send env from_ subject)
      (fun _ s => Behind setting file w (draft w) s.value ∧ Spent s.value ∧
        Sent env from_ subject s.value.added s.value.mail)
      (Stopped setting file w) := by
  obtain ⟨handed, headers, hstaged, hprogress⟩ := h.progress
  rcases hstaged with ⟨rfl, rfl⟩ | hgone
  · have hkeep : ∀ {handed headers} {mail : MailSend.World}, Staged handed headers →
        Progress setting w.added handed headers mail →
          Living setting file { w with mail := mail } := fun hstaged hprogress =>
      ⟨⟨_, _, hstaged, hprogress⟩, h.file_eq, h.file_ne, h.handles, h.streams⟩
    have hmember : Member.recipients ∉ ([] : List Member) := List.not_mem_nil
    have hunspent : ¬ Spent w := (hprogress.mail .recipients hmember).hdl_ne_zero
    refine meets_onMail (meets_send hprogress from_ subject) ?_ ?_
    · rintro ⟨⟩ n mail ⟨hsome, hmail⟩
      refine ⟨⟨hkeep (.inr hsome) hmail, fun hspent => absurd hspent hunspent, rfl⟩,
        (hmail.gone .recipients hsome).1, ?_, hmail.taken, hmail.headers⟩
      exact of_decide_eq_true (List.mem_filter.mp hsome).2
    · rintro stop n mail ⟨hdefined, handed, headers, hstaged, hmail⟩
      refine ⟨fun heq => hdefined (Mime.Throw.stop.inj heq), hkeep hstaged hmail,
        fun hspent => absurd hspent hunspent, rfl⟩
  · rintro ⟨n, v⟩ rfl
    rw [Spent.exec_send (hprogress.gone .recipients hgone).1]
    exact h.stopped _ n

/-! ## Runs -/

def Op.entries (env : Env) (message : ℕ) : Op → List Entry
  | setBody body contentType => [.body (bodyPart message body contentType)]
  | addSendTo email => [.recipient (Lmbcs.fromString env.codePage email)]
  | addCopyTo email => [.recipient (Lmbcs.fromString env.codePage email)]
  | addBlindCopyTo email => [.recipient (Lmbcs.fromString env.codePage email)]
  | send _ _ => []

theorem Op.meets_perform (env : Env) (h : Living setting file w) (op : Op) :
    Meets (fun s => s.value = w) (op.perform env)
      (fun _ s => Behind setting file w
        (Run.after Draft.take (draft w) (op.entries env setting.message)) s.value)
      (Stopped setting file w) := by
  cases op with
  | setBody body contentType => exact meets_setBody env h body contentType
  | addSendTo email => exact meets_addToList env h (by decide) email
  | addCopyTo email => exact meets_addToList env h (by decide) email
  | addBlindCopyTo email => exact meets_addToList env h (by decide) email
  | send from_ subject =>
      exact (meets_send_life env h from_ subject).weaken (fun _ h => h) (fun _ _ h => h.1)
        fun _ _ h => h

/-- What the mail takes of a call: nothing, if the call throws. -/
def accepted (env : Env) (message : ℕ) (s : Called World) (op : Op) : List Entry :=
  if (exec (op.perform env) s).1.isOk then op.entries env message else []

theorem behind_step (env : Env) {s : Called World} (h : Living setting file s.value) (op : Op) :
    Behind setting file s.value
      (Run.after Draft.take (draft s.value) (accepted env setting.message s op))
      (step env s op).value := by
  have hop := op.meets_perform env h s rfl
  unfold accepted step
  rcases hresult : exec (op.perform env) s with ⟨throw | _, t⟩ <;> rw [hresult] at hop
  · exact hop.2
  · exact hop

/-- What holds of a mail in a whole run. -/
def Lasting (setting : Setting) (file : ℕ) (s : Called World) : Prop := Living setting file s.value

def Over (setting : Setting) (file : ℕ) (s : Called World) : Prop :=
  Living setting file s.value ∧ Spent s.value

theorem lasting_after (env : Env) {s : Called World} (h : Lasting setting file s) (ops : List Op) :
    Lasting setting file (Run.after (step env) s ops) := by
  apply Run.after_of_invariant (I := Lasting setting file)
  · exact fun _ op hs => (behind_step env hs op).living
  · exact h

theorem over_after (env : Env) {s : Called World} (h : Over setting file s) (ops : List Op) :
    Over setting file (Run.after (step env) s ops) := by
  apply Run.after_of_invariant (I := Over setting file)
  · exact fun _ op hs => ⟨(behind_step env hs.1 op).living, (behind_step env hs.1 op).spent hs.2⟩
  · exact h

/-- Each call adds to the draft what the mail takes of it. -/
theorem draft_after (env : Env) {s : Called World} (h : Lasting setting file s) (ops : List Op) :
    draft (Run.after (step env) s ops).value = Run.after Draft.take (draft s.value)
      (Run.emitted (step env) (accepted env setting.message) s ops) := by
  change (draft ∘ Called.value) (Run.after (step env) s ops) = _
  apply Run.view_after (I := Lasting setting file)
  · exact fun _ op hs => (behind_step env hs op).living
  · exact fun _ op hs => (behind_step env hs op).draft_eq
  · exact h

/-- The call has no undefined behaviour. -/
def Performs (env : Env) (s : Called World) (op : Op) : Prop :=
  (exec (op.perform env) s).1 ≠ .error (.stop .undefined)

theorem performs_of_lasting (env : Env) {s : Called World} (h : Lasting setting file s) (op : Op) :
    Performs env s op := by
  have hop := op.meets_perform env h s rfl
  unfold Performs
  rcases hresult : exec (op.perform env) s with ⟨throw | _, t⟩ <;> rw [hresult] at hop
  · exact fun heq => hop.1 (Except.error.inj heq)
  · exact nofun

theorem along_performs (env : Env) {s : Called World} (h : Lasting setting file s)
    (ops : List Op) : Run.Along (step env) (Performs env) s ops := by
  apply Run.along_of_invariant (I := Lasting setting file)
  · exact fun _ op hs => (behind_step env hs op).living
  · exact fun _ op hs => performs_of_lasting env hs op
  · exact h

/-! ## Results -/

/-- A mail that cannot be created leaves nothing behind. One that was created goes through every run
of calls, and its destruction leaves nothing behind: all memory is what it was, and the message
file, the message and each stream were closed once, before what was opened before them. -/
theorem life_leaves_nothing (env : Env) (heap : Heap) (mailbox : Option (List UInt8)) (n : ℕ)
    (ops : List Op) :
    ∃ result s, exec (create env mailbox) ⟨n, World.start heap⟩ = (result, s) ∧
      result ≠ .error (.stop .undefined) ∧
      (result = .ok () →
        Run.Along (step env) (Performs env) s ops ∧
        ∃ t, exec destroy (Run.after (step env) s ops) = (.ok (), t) ∧ Gone heap t.value) ∧
      (result ≠ .ok () → Gone heap s.value) := by
  have hcreate := meets_create env mailbox ⟨n, World.start heap⟩ rfl
  rcases hresult : exec (create env mailbox) ⟨n, World.start heap⟩ with ⟨throw | ⟨⟩, s⟩ <;>
    rw [hresult] at hcreate
  · obtain ⟨hdefined, hgone⟩ := hcreate
    exact ⟨_, s, rfl, fun heq => hdefined (Except.error.inj heq), nofun, fun _ => hgone⟩
  · obtain ⟨setting, file, rfl, hliving, -⟩ := hcreate
    refine ⟨_, s, rfl, nofun, fun _ => ⟨along_performs env hliving ops, ?_⟩,
      fun hnot => absurd rfl hnot⟩
    obtain ⟨v, hexec, hgone⟩ := exec_destroy_life (lasting_after env hliving ops).kept _
    exact ⟨_, hexec, hgone⟩

/-- A mail is sent at most once, in whatever order its methods are called and fail. When it is, its
recipients and its bodies are exactly those of the calls that returned, in their order, and the
message has the lists that are not empty, as they were, and the headers. -/
theorem sent_once (env : Env) (heap : Heap) (mailbox : Option (List UInt8)) (n : ℕ)
    {s t : Called World}
    (hcreate : exec (create env mailbox) ⟨n, World.start heap⟩ = (.ok (), s)) (before : List Op)
    (from_ subject : List UInt8)
    (hsend : exec (send env from_ subject) (Run.after (step env) s before) = (.ok (), t)) :
    draft t.value = Run.after Draft.take ⟨[], []⟩
        (Run.emitted (step env) (accepted env s.value.mail.msgHdl) s before) ∧
      Sent env from_ subject t.value.added t.value.mail ∧
      ∀ (behind : List Op) (from_ subject : List UInt8),
        exec (send env from_ subject) (Run.after (step env) t behind) =
          (.error (.stop (.throws (.invalidHandle "Empty handle accessed"))),
            Run.after (step env) t behind) := by
  have hcreated := meets_create env mailbox ⟨n, World.start heap⟩ rfl
  rw [hcreate] at hcreated
  obtain ⟨setting, file, rfl, hliving, hadded, hitems, hnew⟩ := hcreated
  have hbefore := lasting_after env hliving before
  have hsent := meets_send_life env hbefore from_ subject _ rfl
  rw [hsend] at hsent
  obtain ⟨hbehind, hspent, hdelivered⟩ := hsent
  have hdraft : draft s.value = ⟨[], []⟩ := by
    rw [draft, hadded, hitems]
    rfl
  refine ⟨?_, hdelivered, fun behind from_ subject => ?_⟩
  · rw [hbehind.draft_eq, draft_after env hliving before, hdraft, hnew.message]
  · exact Spent.exec_send (over_after env ⟨hbehind.living, hspent⟩ behind).2 from_ subject _

/-- The lock of the recipients fails in the second call. -/
def sampleEnv : Env where
  toMemoryOwner := { MemoryOwner.sampleEnv with
    native := ⟨fun n => if n = 12 then .other 1 else .noError, fun _ _ => 0⟩
    isError_listFull := isError_listFull_sampleEnv }
  memoForm := [0x4D]
  now := ⟨0, 0⟩
  putLine _ := .success

def newMail : Called World :=
  (exec (create sampleEnv none) ⟨0, World.start MemoryOwner.noMemory.value⟩).2

def sampleOps : List Op := [.addSendTo [0x61], .addCopyTo [0x62], .setBody [0x63] [0x64]]

def mailSent : Called World :=
  (exec (send sampleEnv [0x65] [0x66]) (Run.after (step sampleEnv) newMail sampleOps)).2

theorem sent_once_unlocked : (draft mailSent.value).recipients = [[0x61]] ∧
    (draft mailSent.value).items.length = 1 ∧
    Sent sampleEnv [0x65] [0x66] mailSent.value.added mailSent.value.mail := by
  have hcreate : exec (create sampleEnv none) ⟨0, World.start MemoryOwner.noMemory.value⟩ =
      (.ok (), newMail) := Prod.ext rfl rfl
  have hsend : exec (send sampleEnv [0x65] [0x66])
      (Run.after (step sampleEnv) newMail sampleOps) = (.ok (), mailSent) := Prod.ext rfl rfl
  obtain ⟨hdraft, hsent, -⟩ := sent_once sampleEnv MemoryOwner.noMemory.value none 0 hcreate
    sampleOps [0x65] [0x66] hsend
  have haccepted : Run.emitted (step sampleEnv)
      (accepted sampleEnv newMail.value.mail.msgHdl) newMail sampleOps =
        [.recipient [0x61], .body (bodyPart newMail.value.mail.msgHdl [0x63] [0x64])] := rfl
  rw [haccepted] at hdraft
  rw [hdraft]
  exact ⟨rfl, rfl, hsent⟩

end Dmn.MailLife
