import Dmn.Model.Agent
import Dmn.Model.AttachedObject

/-! # The note of a `design::agent`

The setters write items, some of them several. The object keeps a handle of the note that it has
created until the note is saved. -/

namespace Dmn

namespace AgentDesign

open Agent

/-! ## Records -/

/-- The other fields of the records are zero. -/
inductive Record where
  | assistStruct (triggerType searchType : UInt16)
  | queryHeader (signature length : UInt8)
  | runObjectHeader (entries : UInt16)
  | runObjectEntry

def cdQueryHeader : OdsType := .other 314

def odsAssistStruct : OdsType := .other 318

def odsAssistRunObjectHeader : OdsType := .other 374

def odsAssistRunObjectEntry : OdsType := .other 375

inductive Trigger where
  | none
  | scheduled
  | newmail
  | pasted
  | manual
  | docupdate
  | synchnewmail
  | event
  | serverstart
  deriving DecidableEq

namespace Trigger

/-- `std::to_underlying`. -/
def toUnderlying : Trigger → UInt16
  | none => 0
  | scheduled => 1
  | newmail => 2
  | pasted => 3
  | manual => 4
  | docupdate => 5
  | synchnewmail => 6
  | event => 7
  | serverstart => 8

/-- `std::to_string`, for numbers of one digit. -/
def text (trigger : Trigger) : List UInt8 :=
  Lmbcs.asciiBytes [Char.ofNat (48 + trigger.toUnderlying.toNat)]

end Trigger

/-! ## Items -/

def fieldTitle : List UInt8 := Lmbcs.asciiBytes "$TITLE".toList

def designComment : List UInt8 := Lmbcs.asciiBytes "$Comment".toList

def assistFlagsItem : List UInt8 := Lmbcs.asciiBytes "$AssistFlags".toList

def assistLastrunItem : List UInt8 := Lmbcs.asciiBytes "$AssistLastRun".toList

def assistDoccountItem : List UInt8 := Lmbcs.asciiBytes "$AssistDocCount".toList

def generatorItem : List UInt8 := Lmbcs.asciiBytes "$Generator".toList

def assistTriggerItem : List UInt8 := Lmbcs.asciiBytes "$AssistTrigger".toList

def assistInfoItem : List UInt8 := Lmbcs.asciiBytes "$AssistInfo".toList

def assistExactionItem : List UInt8 := Lmbcs.asciiBytes "$AssistAction_Ex".toList

def assistQueryItem : List UInt8 := Lmbcs.asciiBytes "$AssistQuery".toList

def assistRuninfoItem : List UInt8 := Lmbcs.asciiBytes "$AssistRunInfo".toList

def assistVersionItem : List UInt8 := Lmbcs.asciiBytes "$AssistVersion".toList

/-- `type::query`. -/
def typeQuery : UInt16 := 15

/-- `type::assistant_info`. -/
def typeAssistantInfo : UInt16 := 17

/-- `type::lsobject`. -/
def typeLsobject : UInt16 := 20

/-- What the code works on. Compiling and signing put items into the note. -/
structure Env extends toAgent : Agent.Env where
  records : Ods Record
  descriptors : Ods AttachedObject.Descriptor
  tooSmall : Status
  isError_tooSmall : tooSmall.isError = true
  /-- `SIG_QUERY_HEADER`. -/
  sigQueryHeader : UInt8
  /-- `ASSIST_FLAG_ENABLED` and `ASSIST_FLAG_AGENT_RUNASSIGNER`. -/
  assistFlags : List UInt8
  /-- `time_date::from_time_point` of the system clock, by the number of calls. -/
  now : ℕ → Except Error TimeDate
  compiled : List Item → Item
  name_compiled : ∀ items, (compiled items).name = assistExactionItem
  signature : List Item → Item
  name_signature : ∀ items, (signature items).name = Lmbcs.asciiBytes "$Signature".toList

variable (env : Env) {α : Type}

def Env.objects : AttachedObject.Env where
  native := env.native
  codePage := env.codePage
  ods := env.descriptors
  tooSmall := env.tooSmall
  isError_tooSmall := env.isError_tooSmall

/-! ## Setters -/

def setTitle (title : List UInt8) : Note.M Unit :=
  NoteValue.set env.values fieldTitle (.string title) itemSign

def setComment (comment : List UInt8) : Note.M Unit :=
  NoteValue.set env.values designComment (.string comment) itemSign

/-- `set` with a record. -/
def setRecord (key : List UInt8) (type : UInt16) (typ : OdsType) (record : Record) :
    Note.M Unit :=
  Note.set env.codePage env.native key type (env.records.write typ record) itemSign

def setTrigger (trigger : Trigger) : Note.M Unit := do
  NoteValue.set env.values assistTriggerItem (.string trigger.text) 0
  setRecord env assistInfoItem typeAssistantInfo odsAssistStruct
    (.assistStruct trigger.toUnderlying 0)

def setAssistQuery : Note.M Unit :=
  setRecord env assistQueryItem typeQuery cdQueryHeader
    (.queryHeader env.sigQueryHeader (UInt8.ofNat (env.records.size cdQueryHeader).toNat))

def getText (key : List UInt8) : Note.M (List UInt8) := do
  let text ← NoteValue.get env.values
    (fun cs => Native.onCursor cs (NoteValue.convertString env.values)) key
  pure (text.getD [])

def getTitle : Note.M (List UInt8) := getText env fieldTitle

def getComment : Note.M (List UInt8) := getText env designComment

/-! ## `create` -/

/-- `note::set` with a `value`, which is read through a cursor of its own. -/
def setOwned (key : List UInt8) (val : MemoryOwner) (flags : UInt16) : AttachedObject.M Unit := do
  let cursor ← AttachedObject.onHeap do
    let hdl ← val.getHandle
    Locker.make env.native hdl val.size_ .borrow
  AttachedObject.guarded cursor do
    let (typ, span) ← AttachedObject.onHeap <| cursor.through do
      let typ ← Cursor.readInteger 2
      let span ← Cursor.load (cursor.size_ - 2)
      pure (UInt16.ofNat typ, span)
    AttachedObject.onItems (Note.set env.codePage env.native key typ span flags)
  AttachedObject.onHeap cursor.destroy

/-- `set_action_ex`. The two bytes behind the type are not written. The value takes the memory of the
locker. -/
def setActionEx : AttachedObject.M Unit := do
  let lock ← AttachedObject.onHeap (Locker.allocateImpl env.native 4 .take)
  AttachedObject.guarded lock do
    AttachedObject.onHeap (lock.through (Cursor.writeInteger 2 typeLsobject.toNat))
  let val ← AttachedObject.onHeap (MemoryOwner.value lock)
  AttachedObject.owning val (setOwned env assistExactionItem val itemSign)
  AttachedObject.onHeap val.destroy

/-- `set_run_info`, which destroys the local object once it is released. -/
def setRunInfo : AttachedObject.M Unit := do
  let size := (env.records.size odsAssistRunObjectHeader).toNat +
    (env.records.size odsAssistRunObjectEntry).toNat
  let object ← AttachedObject.construct env.objects AttachedObject.assistRunData size
  object.inScope env.objects do
    object.appendToNote env.objects assistRuninfoItem
    let lock ← AttachedObject.onHeap (Locker.allocateImpl env.native size .take)
    AttachedObject.guarded lock do
      AttachedObject.onHeap <| lock.through do
        Cursor.writeObject env.records (.runObjectHeader 1) (some odsAssistRunObjectHeader)
        Cursor.writeObject env.records .runObjectEntry (some odsAssistRunObjectEntry)
    object.write env.objects lock
  let (_, object) := object.release
  object.destroy env.objects

/-- The items of a new note, up to `set_action_ex`. -/
def setFields (title : List UInt8) : Note.M Unit := do
  NoteValue.set env.values assistFlagsItem (.string env.assistFlags) itemSign
  NoteValue.set env.values assistLastrunItem (.timeDate ⟨0, 0⟩) itemSign
  NoteValue.setInteger env.values assistDoccountItem 0 itemSign
  NoteValue.set env.values generatorItem (.string (Lmbcs.asciiBytes "dmn-cpp".toList)) 0
  setTitle env title
  setComment env []
  setTrigger env .none

/-- The items of a new note, up to `set_run_info`. -/
def setItems (title : List UInt8) : AttachedObject.M Unit := do
  AttachedObject.onItems (setFields env title)
  setActionEx env
  AttachedObject.onItems (setAssistQuery env)

/-- `create`, with the items of the new note. `db.create_note` makes one native call, `set_type` none
that fails. -/
def create (title : List UInt8) : AttachedObject.M Unit := do
  let result ← Native.call env.native
  if !result.isNotFound then do
    result.throwIfError "Failed to check for existing agent design"
    throw (.throws (.runtimeError "Agent design already exists"))
  let result ← Native.call env.native
  result.throwIfError "Failed to create note"
  Native.update fun w => { w with items := [] }
  setItems env title
  setRunInfo env

/-! ## The note -/

/-- A note that is not saved is known by its handle, which is a member of its state. The handle of
a saved one is in the store of the thread. -/
inductive NoteState where
  | created (items : List Item)
  | saved (stored : List Item) (entry : Option (List Item))

abbrev M (α : Type) := Native.M NoteState α

namespace NoteState

/-- With other items behind the handle. -/
def withItems (items : List Item) : NoteState → NoteState
  | created _ => created items
  | saved stored _ => saved stored (some items)

/-- What `note::save` leaves: a handle that is a member is closed. -/
def update : NoteState → NoteState
  | created items => saved items none
  | saved stored entry => saved (entry.getD stored) entry

end NoteState

/-- `note::get_handle`. -/
def getHandle : M (List Item) := do
  match ← Native.value with
  | .created items => pure items
  | .saved _ (some items) => pure items
  | .saved stored none => do
      let result ← Native.call env.native
      result.throwIfError "Failed to open note"
      Native.update fun _ => .saved stored (some stored)
      pure stored

/-- A method on the items of the handle. The calls of `get_handle` behind the first one find what
that one has stored. -/
def onHandle (x : Note.M α) : M α := do
  let items ← getHandle env
  Native.part (fun _ => items) (fun items note => note.withItems items) x

/-- A native call that puts an item into the note. -/
def putting (message : String) (item : List Item → Item) : Note.M Unit := do
  let result ← Native.call env.native
  result.throwIfError message
  Native.update fun items => Table.put Item.name (item items) items

/-- `note::save`. -/
def saveNote : M Unit := do
  let _ ← getHandle env
  let result ← Native.call env.native
  result.throwIfError "Failed to save note"
  Native.update NoteState.update

/-- `design::language(value)`. -/
def languageOf (value : Int) : UInt16 := UInt16.ofNat (value % 2 ^ 16).toNat

/-- `set_code`. The value is made before the note is opened. -/
def setCode (language : UInt16) (value : M NoteValue.Applied) : M Unit := do
  let applied ← value
  onHandle env (Agent.setCodeItems env.toAgent language applied)

def setLotusScript (code : LotusScript) : M Unit :=
  setCode env Agent.languageLotusScript (Agent.lotusScriptValue env.toAgent code)

def setFormula (memory : List UInt8) : M Unit :=
  setCode env Agent.languageFormula (Agent.formulaValue env.toAgent memory)

def save : M Unit := do
  let s ← get
  let now ← Exec.ofExcept ((env.now s.calls).mapError Stop.throws)
  onHandle env (NoteValue.set env.values assistVersionItem (.timeDate now) 0)
  let value ← onHandle env (NoteValue.getInteger env.values (.signed 32) assistTypeItem)
  if languageOf (value.getD 0) = languageLotusScript then
    onHandle env (putting env "Failed to compile agent LotusScript" env.compiled)
  onHandle env (putting env "Failed to sign note" env.signature)
  saveNote env

/-! ## Runs -/

inductive Op where
  | setTitle (title : List UInt8)
  | setComment (comment : List UInt8)
  | setLotusScript (code : LotusScript)
  | setFormula (memory : List UInt8)
  | setTrigger (trigger : Trigger)
  | save

def Op.perform : Op → M Unit
  | setTitle title => onHandle env (AgentDesign.setTitle env title)
  | setComment comment => onHandle env (AgentDesign.setComment env comment)
  | setLotusScript code => AgentDesign.setLotusScript env code
  | setFormula memory => AgentDesign.setFormula env memory
  | setTrigger trigger => onHandle env (AgentDesign.setTrigger env trigger)
  | save => AgentDesign.save env

/-- Exceptions are caught, and the program goes on. -/
def step (s : Called NoteState) (op : Op) : Called NoteState := (Exec.exec (op.perform env) s).2

end AgentDesign

end Dmn
