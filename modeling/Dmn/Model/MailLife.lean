import Dmn.Model.MailSend
import Dmn.Model.Mime

/-! # The life of a `mail`

A mail is created, its methods are called in any order, and it is destroyed. Message files, messages
and streams are opened under one numbering. -/

namespace Dmn.MailLife

open MailSend

structure Env extends toMailSend : MailSend.Env where
  putLine : ℕ → Mime.PutResult

def Env.mime (env : Env) : Mime.Env := ⟨env.native, env.putLine⟩

/-- `file` is `file_hdl_`, and `mailbox` the name that it was opened with. `added` are the texts
that the lists have taken, in their order. -/
structure World where
  mail : MailSend.World
  mime : Mime.World
  file : ℕ
  mailbox : List UInt8
  added : List (Member × List UInt8)

/-- Before the constructor. -/
def World.start (heap : Heap) : World where
  mail := ⟨heap, 0, fun _ => ⟨0, 0⟩, [], [], [], []⟩
  mime := ⟨[], [], .start⟩
  file := 0
  mailbox := []
  added := []

abbrev M (α : Type) := Exec Mime.Throw (Called World) α

variable (env : Env) {α : Type}

def onMail (x : MailSend.M α) : M α :=
  Mime.lift (Native.part World.mail (fun mail w => { w with mail := mail }) x)

def onMime (x : Mime.M α) : M α :=
  Exec.focus (fun s => ⟨s.calls, s.value.mime⟩)
    (fun t s => ⟨t.calls, { s.value with mime := t.value }⟩) x

def update (f : World → World) : M Unit := Mime.lift (Native.update f)

/-! ## Handles -/

def World.opens (w : World) : World :=
  { w with mime := { w.mime with handles := w.mime.handles.opens } }

/-- The cleanup of a handle, which is not called for the null handle. -/
def World.closes (hdl : ℕ) (w : World) : World :=
  if hdl = 0 then w
  else { w with mime := { w.mime with handles := w.mime.handles.closes hdl } }

/-- `file_hdl_.get()`. -/
def getFile : M ℕ := do
  let s ← get
  if s.value.file = 0 then throw (.stop (.throws (.invalidHandle "Empty handle accessed")))
  else pure s.value.file

def mailOpenMessageFile (name : List UInt8) : M Status := do
  let result ← Mime.lift (Native.call env.native)
  if result.isError then pure result
  else do
    update fun w => { w.opens with file := w.mime.handles.next, mailbox := name }
    pure result

def mailCreateMessage (_file : ℕ) : M Status := do
  let result ← Mime.lift (Native.call env.native)
  if result.isError then pure result
  else do
    update fun w =>
      { w.opens with mail := { w.mail with msgHdl := w.mime.handles.next } }
    pure result

/-! ## Construction and destruction -/

def constructList (member : Member) : MailSend.M Unit := do
  let list ← MailSend.onHeap (MemoryOwner.list env.toMemoryOwner)
  Native.update fun w => { w with lists := Function.update w.lists member list }

/-- The constructor. A list that is not there yet has the null handle. -/
def construct : M Unit := do
  onMail (constructList env .sendTo)
  onMail (constructList env .copyTo)
  onMail (constructList env .blindCopyTo)
  onMail (constructList env .recipients)

/-- The lists, the message and the file, in the order opposite to their declaration. -/
def destroy : M Unit := do
  onMail MailSend.destroy
  update fun w => (w.closes w.mail.msgHdl).closes w.file

/-- A scope with a mail, that an exception leaves. -/
def guarded (x : M α) : M α :=
  tryCatch x fun error => do
    destroy
    throw error

def create (mailbox : Option (List UInt8)) : M Unit := guarded do
  construct env
  let converted := (mailbox.map (Lmbcs.fromString env.codePage)).getD []
  let result ← mailOpenMessageFile env converted
  Mime.lift (result.throwIfError "Failed to open message file")
  let file ← getFile
  let result ← mailCreateMessage env file
  Mime.lift (result.throwIfError "Failed to create message")

/-! ## Methods -/

/-- `MAIL_BODY_ITEM`. -/
def mailBodyItem : List UInt8 := Lmbcs.asciiBytes "Body".toList

def setBody (body contentType : List UInt8) : M Unit := do
  let message ← onMail getMessage
  onMime (Mime.openAndWrite env.mime message message mailBodyItem
    [.setContentType contentType, .setCharset (Lmbcs.asciiBytes "UTF-8".toList),
      .appendContent body])

def pushBack (member : Member) (email : List UInt8) : M Unit := do
  let size ← onMail (onList member fun self =>
    MemoryOwner.listPushBack env.toMemoryOwner self email)
  update fun w =>
    { w with
      mail := { w.mail with
        lists := Function.update w.mail.lists member { w.mail.lists member with size_ := size } }
      added := w.added ++ [(member, Lmbcs.fromString env.codePage email)] }

def addToList (header : Member) (email : List UInt8) : M Unit := do
  pushBack env header email
  pushBack env .recipients email

def addSendTo (email : List UInt8) : M Unit := addToList env .sendTo email

def addCopyTo (email : List UInt8) : M Unit := addToList env .copyTo email

def addBlindCopyTo (email : List UInt8) : M Unit := addToList env .blindCopyTo email

def send (from_ subject : List UInt8) : M Unit :=
  onMail (MailSend.send env.toMailSend from_ subject)

/-! ## Runs -/

inductive Op where
  | setBody (body contentType : List UInt8)
  | addSendTo (email : List UInt8)
  | addCopyTo (email : List UInt8)
  | addBlindCopyTo (email : List UInt8)
  | send (from_ subject : List UInt8)

def Op.perform : Op → M Unit
  | setBody body contentType => MailLife.setBody env body contentType
  | addSendTo email => MailLife.addSendTo env email
  | addCopyTo email => MailLife.addCopyTo env email
  | addBlindCopyTo email => MailLife.addBlindCopyTo env email
  | send from_ subject => MailLife.send env from_ subject

/-- Exceptions are caught, and the program goes on. -/
def step (s : Called World) (op : Op) : Called World := (Exec.exec (op.perform env) s).2

end Dmn.MailLife
