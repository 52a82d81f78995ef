import Dmn.Model.MemoryOwner
import Mathlib.Logic.Function.Basic

/-! # `mail::send`

The message takes the lists of a mail over one by one. What it has taken is memory that the program
may not use any more. -/

namespace Dmn.MailSend

/-- The lists of a mail. -/
inductive Member where
  | sendTo
  | copyTo
  | blindCopyTo
  | recipients
  deriving DecidableEq, Repr

/-- The items that are added by their lists. -/
inductive ListItem where
  | sendTo
  | copyTo
  | blindCopyTo
  | recipients
  deriving DecidableEq, Repr

/-- A block that the message has taken, as this item. -/
structure Taken where
  item : ListItem
  hdl : ℕ
  block : Block

/-- The header items that are added by their bytes. -/
inductive HeaderItem where
  | form
  | from_
  | subject
  | composedDate
  | postedDate
  deriving DecidableEq, Repr

/-- The memory, the members of the mail, the blocks and the header items that the message has taken,
the calls that were to hand over a list, and the handles that were freed, each with the latest
first. -/
structure World where
  heap : Heap
  msgHdl : ℕ
  lists : Member → MemoryOwner
  taken : List Taken
  headers : List (HeaderItem × List UInt8)
  transfers : List (ℕ × Status)
  freed : List ℕ

structure Env extends toMemoryOwner : MemoryOwner.Env where
  /-- `MAIL_MEMO_FORM`. -/
  memoForm : List UInt8
  /-- `OSCurrentTIMEDATE`. -/
  now : TimeDate

abbrev M (α : Type) := Native.M World α

variable (env : Env) {α : Type}

/-- A program on the memory. -/
def onHeap (x : Heap.M α) : M α :=
  Native.part World.heap (fun heap w => { w with heap := heap }) x

/-- A program with a list of the mail. -/
def onList (member : Member) (x : MemoryOwner → Heap.M α) : M α := do
  let w ← Native.value
  onHeap (x (w.lists member))

/-! ## Native calls -/

/-- The block behind a handle becomes a part of the message. -/
def takeOver (item : ListItem) (hdl : ℕ) : M Status := do
  let block ← onHeap (Heap.block hdl)
  let result ← Native.call env.native
  Native.update fun w => { w with transfers := (hdl, result) :: w.transfers }
  if result.isError then pure result
  else do
    Native.update fun w =>
      { w with heap := w.heap.erase hdl, taken := ⟨item, hdl, block⟩ :: w.taken }
    pure result

def mailAddRecipientsItem (hdl _size : ℕ) : M Status := takeOver env .recipients hdl

def mailAddHeaderItemByHandle (item : ListItem) (hdl _size : ℕ) : M Status := takeOver env item hdl

/-- The size is passed as a 16-bit word. -/
def mailAddHeaderItem (item : HeaderItem) (value : List UInt8) : M Status := do
  let result ← Native.call env.native
  if result.isError then pure result
  else do
    Native.update fun w =>
      { w with headers := (item, value.take (value.length % 2 ^ 16)) :: w.headers }
    pure result

def mailTransferMessageLocal : M Status := Native.call env.native

/-! ## Methods -/

/-- `msg_hdl_.get()`. -/
def getMessage : M ℕ := do
  let w ← Native.value
  if w.msgHdl = 0 then throw (.throws (.invalidHandle "Empty handle accessed"))
  else pure w.msgHdl

/-- `list::release`. -/
def release (member : Member) : M Unit :=
  Native.update fun w =>
    { w with lists := Function.update w.lists member { w.lists member with hdl_ := 0 } }

/-- `list::empty`. -/
def empty (member : Member) : M Bool := do
  let size ← onList member (MemoryOwner.listSize env.toMemoryOwner)
  pure (size = 0)

/-- The lambda `add_list`. -/
def addList (item : ListItem) (member : Member) : M Unit := do
  let isEmpty ← empty env member
  if isEmpty then pure ()
  else do
    let _ ← getMessage
    let hdl ← onList member MemoryOwner.getHandle
    let size ← onList member (MemoryOwner.bufferSize env.toMemoryOwner)
    let result ← mailAddHeaderItemByHandle env item hdl size
    result.throwIfError "Failed to add list to mail"
    release member

def addHeaderItem (item : HeaderItem) (value : List UInt8) : M Unit := do
  let _ ← getMessage
  let result ← mailAddHeaderItem env item value
  result.throwIfError "Failed to add header item to mail"

/-- The part of `send` that adds the recipients list. -/
def addRecipients : M Unit := do
  let _ ← getMessage
  let hdl ← onList .recipients MemoryOwner.getHandle
  let size ← onList .recipients (MemoryOwner.bufferSize env.toMemoryOwner)
  let result ← mailAddRecipientsItem env hdl size
  result.throwIfError "Failed to add recipients to mail"
  release .recipients

def send (from_ subject : List UInt8) : M Unit := do
  let isEmpty ← empty env .recipients
  let w ← Native.value
  if isEmpty || w.msgHdl = 0 then
    throw (.throws (.runtimeError "No recipients were added to mail"))
  else do
    addRecipients env
    addList env .sendTo .sendTo
    addList env .copyTo .copyTo
    addList env .blindCopyTo .blindCopyTo
    addHeaderItem env .form env.memoForm
    addHeaderItem env .from_ from_
    addHeaderItem env .subject subject
    addHeaderItem env .composedDate env.now.bytes
    addHeaderItem env .postedDate env.now.bytes
    let _ ← getMessage
    let result ← mailTransferMessageLocal env
    result.throwIfError "Failed to transfer mail"

/-! ## Destruction -/

/-- The handle of a list is freed, unless it is null. -/
def destroyList (member : Member) : M Unit := do
  let w ← Native.value
  onHeap (w.lists member).destroy
  if (w.lists member).hdl_ = 0 then pure ()
  else Native.update fun w => { w with freed := (w.lists member).hdl_ :: w.freed }

/-- `MailCloseMessage`, which is not called for a null handle. The message frees what it has
taken. -/
def closeMessage : M Unit :=
  Native.update fun w =>
    if w.msgHdl = 0 then w
    else { w with taken := [], freed := w.taken.map Taken.hdl ++ w.freed }

/-- The members are destroyed in the order opposite to their declaration. -/
def destroy : M Unit := do
  destroyList .recipients
  destroyList .blindCopyTo
  destroyList .copyTo
  destroyList .sendTo
  closeMessage

end Dmn.MailSend
