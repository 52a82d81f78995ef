import Dmn.Library.Escaping
import Dmn.Model.Acl

/-! # `addin`

The log of an add-in. `AddInLogMessageText` takes what it is given as a format of `printf`, and is
given no arguments for it. -/

namespace Dmn.Addin

/-- `prefix_`, and the C strings that `AddInLogMessageText` was called with in their order. -/
structure Log where
  prefix_ : Option (List UInt8)
  messages : List (List UInt8)

def percent : UInt8 := UInt8.ofNat '%'.toNat

variable (codePage : CharCode Char UInt8)

/-- `to_escaped_lmbcs`. -/
def toEscapedLmbcs (text : List UInt8) : List UInt8 :=
  Lmbcs.fromString codePage (Escaping.doubled percent text)

/-- `addin::set_log_prefix`. -/
def setLogPrefix (logPrefix : List UInt8) (log : Log) : Log :=
  { log with prefix_ := some (toEscapedLmbcs codePage logPrefix) }

def message (text : List UInt8) (log : Log) : List UInt8 :=
  log.prefix_.getD [] ++ toEscapedLmbcs codePage text

/-- What a pointer to the message is a pointer to. -/
def handed (text : List UInt8) (log : Log) : List UInt8 := Acl.cString (message codePage text log)

def logImpl (text : List UInt8) (log : Log) : Log :=
  { log with messages := log.messages ++ [handed codePage text log] }

/-- `addin::log` with its arguments as they are written to the stream. -/
def log (args : List (List UInt8)) : Log → Log := logImpl codePage args.flatten

end Dmn.Addin
