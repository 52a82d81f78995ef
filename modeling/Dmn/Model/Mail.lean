import Dmn.Model.TextList

/-! # `mail`

The lists of a mail while it is composed. -/

namespace Dmn

/-- The header items that name addresses. -/
inductive Header where
  | sendTo
  | copyTo
  | blindCopyTo
  deriving DecidableEq, Repr

/-- `added` are the addresses that a header list has taken, in their order. -/
structure Mail where
  sendTo : TextList
  copyTo : TextList
  blindCopyTo : TextList
  recipients : TextList
  added : List (Header × List UInt8)

namespace Mail

def list : Header → Mail → TextList
  | .sendTo, mail => mail.sendTo
  | .copyTo, mail => mail.copyTo
  | .blindCopyTo, mail => mail.blindCopyTo

def setList (header : Header) (list : TextList) (mail : Mail) : Mail :=
  match header with
  | .sendTo => { mail with sendTo := list }
  | .copyTo => { mail with copyTo := list }
  | .blindCopyTo => { mail with blindCopyTo := list }

abbrev M (α : Type) := Native.M Mail α

variable (env : TextList.Env)

/-- The constructor. -/
def construct {σ : Type} : Native.M σ Mail := do
  let sendTo ← TextList.construct env
  let copyTo ← TextList.construct env
  let blindCopyTo ← TextList.construct env
  let recipients ← TextList.construct env
  pure ⟨sendTo, copyTo, blindCopyTo, recipients, []⟩

def addToList (header : Header) (email : List UInt8) : M Unit := do
  Native.part (list header) (setList header) (TextList.pushBack env email)
  Native.update fun mail =>
    { mail with added := mail.added ++ [(header, Lmbcs.fromString env.codePage email)] }
  Native.part recipients (fun list mail => { mail with recipients := list })
    (TextList.pushBack env email)

def addSendTo (email : List UInt8) : M Unit := addToList env .sendTo email

def addCopyTo (email : List UInt8) : M Unit := addToList env .copyTo email

def addBlindCopyTo (email : List UInt8) : M Unit := addToList env .blindCopyTo email

/-! ## Runs -/

inductive Op where
  | addSendTo (email : List UInt8)
  | addCopyTo (email : List UInt8)
  | addBlindCopyTo (email : List UInt8)

namespace Op

def perform : Op → M Unit
  | addSendTo email => Mail.addSendTo env email
  | addCopyTo email => Mail.addCopyTo env email
  | addBlindCopyTo email => Mail.addBlindCopyTo env email

def header : Op → Header
  | addSendTo _ => .sendTo
  | addCopyTo _ => .copyTo
  | addBlindCopyTo _ => .blindCopyTo

def email : Op → List UInt8
  | addSendTo email | addCopyTo email | addBlindCopyTo email => email

end Op

/-- Exceptions are caught, and the program goes on. -/
def step (s : Called Mail) (op : Op) : Called Mail := (Exec.exec (op.perform env) s).2

end Mail

end Dmn
