import Dmn.Library.Ledger
import Dmn.Library.Table
import Dmn.Model.Lmbcs
import Dmn.Model.Native

/-! # `mime`

A stream collects the lines that are put into it. It becomes an item of a note, or of a message,
when it is itemized. -/

namespace Dmn.Mime

/-- `mime_error` and the classes derived from it. -/
inductive MimeError where
  | mimeError (message : String)
  | mimeIoError (message : String)
  | mimeEosError (message : String)
  deriving DecidableEq

/-- What `MIMEStreamPutLine` returns. -/
inductive PutResult where
  | success
  | io
  | eos
  | other (code : Int32)
  deriving DecidableEq

def MimeError.make (message : String) : PutResult → MimeError
  | .io => .mimeIoError message
  | .eos => .mimeEosError message
  | _ => .mimeError message

/-- How a call ends that does not return. -/
inductive Throw where
  | stop (stop : Stop)
  | mime (error : MimeError)
  deriving DecidableEq

/-- `putLine` is the result of a native call, by its number. -/
structure Env where
  native : Native
  putLine : ℕ → PutResult

structure Stream where
  handle : ℕ
  note : ℕ
  lines : List (List UInt8)
  deriving DecidableEq

/-- An item of a note, with the lines of its stream. -/
structure Part where
  note : ℕ
  field : List UInt8
  lines : List (List UInt8)
  deriving DecidableEq

/-- The open streams, and the items that were made of streams, the latest last. -/
structure World where
  streams : List Stream
  items : List Part
  handles : Ledger.Book

abbrev M (α : Type) := Exec Throw (Called World) α

variable (env : Env) {α : Type}

/-- A program that throws no `mime_error`. -/
def lift {σ : Type} (x : Native.M σ α) : Exec Throw (Called σ) α := ExceptT.adapt Throw.stop x

/-! ## Native calls -/

namespace World

def openStream (note : ℕ) (w : World) : World :=
  { w with
    streams := ⟨w.handles.next, note, []⟩ :: w.streams
    handles := w.handles.opens }

def append (line : List UInt8) (hdl : ℕ) (w : World) : World :=
  { w with
    streams := Table.modify Stream.handle hdl
      (fun stream => { stream with lines := stream.lines ++ [line] }) w.streams }

/-- `MIMEStreamClose`. -/
def closeStream (hdl : ℕ) (w : World) : World :=
  { w with
    streams := Table.erase Stream.handle hdl w.streams
    handles := w.handles.closes hdl }

def stream (hdl : ℕ) (w : World) : Option Stream := Table.lookup Stream.handle hdl w.streams

end World

/-- The line is a C string. -/
def mimeStreamPutLine (line : List UInt8) (hdl : ℕ) : M PutResult := do
  let s ← get
  match s.value.stream hdl with
  | none => throw (.stop .undefined)
  | some _ => do
      let _ ← lift (Native.call env.native)
      if env.putLine s.calls = .success then
        lift (Native.update (World.append (line.takeWhile (· ≠ 0)) hdl))
      pure (env.putLine s.calls)

/-- The length of the name is passed as a 16-bit word. -/
def mimeStreamItemize (note : ℕ) (field : List UInt8) (hdl : ℕ) : M Status := do
  let s ← get
  match s.value.stream hdl with
  | none => throw (.stop .undefined)
  | some stream => do
      let result ← lift (Native.call env.native)
      if !result.isError then
        lift (Native.update fun w =>
          { w with items := w.items ++ [⟨note, field.take (field.length % 2 ^ 16), stream.lines⟩] })
      pure result

end Mime

/-! ## The class -/

/-- `hdl_` is the stream, which is never null. -/
structure Mime where
  hdl_ : ℕ
  content_ : List (List UInt8) := []
  charset_ : List UInt8 := Lmbcs.asciiBytes "UTF-8".toList
  contentType_ : List UInt8 := Lmbcs.asciiBytes "text/html; charset=UTF-8".toList
  deriving DecidableEq

namespace Mime

variable (env : Env) {α : Type}

inductive Setting where
  | setContentType (contentType : List UInt8)
  | setCharset (charset : List UInt8)
  | appendContent (content : List UInt8)

def setContentType (contentType : List UInt8) (self : Mime) : Mime :=
  { self with contentType_ := contentType }

def setCharset (charset : List UInt8) (self : Mime) : Mime := { self with charset_ := charset }

def appendContent (content : List UInt8) (self : Mime) : Mime :=
  { self with content_ := self.content_ ++ [content] }

def apply (self : Mime) : Setting → Mime
  | .setContentType contentType => self.setContentType contentType
  | .setCharset charset => self.setCharset charset
  | .appendContent content => self.appendContent content

/-- `open`, on what has the handle. -/
def openImpl (handle : ℕ) : M ℕ := do
  let result ← lift (Native.call env.native)
  lift (result.throwIfError "Failed to open MIME stream")
  let s ← get
  lift (Native.update (World.openStream handle))
  pure s.value.handles.next

def writeLine (line : List UInt8) (self : Mime) : M Unit := do
  let error ← mimeStreamPutLine env line self.hdl_
  if error ≠ .success then
    throw (.mime (MimeError.make "Failed to append line to mime stream" error))

/-- `Content-Type: {}; charset={}`. -/
def contentTypeLine (self : Mime) : List UInt8 :=
  Lmbcs.asciiBytes "Content-Type: ".toList ++ (self.contentType_ ++
    (Lmbcs.asciiBytes "; charset=".toList ++ self.charset_))

def encodingLine : List UInt8 := Lmbcs.asciiBytes "Content-Transfer-Encoding: 8bit".toList

/-- The loop over the lines. -/
def writeLines : List (List UInt8) → Mime → M Unit
  | [], _ => pure ()
  | line :: rest, self => do
      writeLine env line self
      writeLines rest self

def writeToImpl (handle : ℕ) (field : List UInt8) (self : Mime) : M Unit := do
  writeLine env self.contentTypeLine self
  writeLine env encodingLine self
  writeLine env [] self
  writeLines env self.content_ self
  let result ← mimeStreamItemize env handle field self.hdl_
  lift (result.throwIfError "Failed to append mime item to note")

/-- The scope of an object, which closes its stream. -/
def scope (hdl : ℕ) (x : M α) : M α :=
  Exec.leaving (fun s => { s with value := s.value.closeStream hdl }) x

/-- `open`, with the setters and `write_to` called on the object in one expression. -/
def openAndWrite (note target : ℕ) (field : List UInt8) (settings : List Setting) : M Unit := do
  let hdl ← openImpl env note
  scope hdl (writeToImpl env target field (settings.foldl apply { hdl_ := hdl }))

end Mime

end Dmn
