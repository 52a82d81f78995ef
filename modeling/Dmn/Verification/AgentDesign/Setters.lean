import Dmn.Library.Effects
import Dmn.Model.AgentDesign
import Dmn.Verification.Agent

/-! # What the setters of an agent write

Each setter puts its items into the table, one after the other. One that throws has put the first few
of them. -/

namespace Dmn.AgentDesign

open Exec Native Effects Agent

variable {σ α β : Type} {env : Env} {s t : Called (List Item)}

/-! ## Reading -/

theorem reads_onCursor (cursor : Cursor) (x : Cursor.M α) :
    Reads (onCursor cursor x : Native.M σ α) := by
  intro s
  unfold onCursor
  rcases exec x cursor with ⟨_ | _, _⟩ <;> rfl

theorem reads_onObject {τ : Type} (object : τ) (x : Native.M τ α) :
    Reads (onObject object x : Native.M σ α) := by
  refine .bind (fun s => ?_) fun _ => .pure _
  rw [exec_withLocal_part]
  rcases exec x ⟨s.calls, object⟩ with ⟨_ | _, _⟩ <;> rfl

theorem reads_tryCatch {x : Native.M σ α} {f : Stop → Native.M σ α} (hx : Reads x)
    (hf : ∀ stop, Reads (f stop)) : Reads (tryCatch x f) := by
  intro s
  have hs := hx s
  rw [exec_tryCatch]
  rcases hexec : exec x s with ⟨stop | a, t⟩ <;> rw [hexec] at hs
  · exact (hf stop t).trans hs
  · exact hs

theorem reads_lock (env : NoteValue.Env) (value : List UInt8) :
    Reads (NoteValue.lock env value : Native.M σ Cursor) := by
  refine .bind .call fun result => ?_
  split
  · exact .throw _
  · exact .pure _

theorem reads_applyItemValue (env : NoteValue.Env) (type : UInt16) (bytes : List UInt8) :
    Reads (NoteValue.applyItemValue env type bytes : Native.M σ NoteValue.Applied) :=
  .bind (reads_lock env _) fun _ => reads_onCursor _ _

theorem reads_tryAs {env : NoteValue.Env} {type : UInt16} {bytes : List UInt8}
    {convert : Cursor → Native.M σ (Option α)} (hconvert : ∀ cs, Reads (convert cs)) :
    Reads (NoteValue.tryAs env type bytes convert) := by
  unfold NoteValue.tryAs
  split
  · exact .pure _
  · refine reads_tryCatch (.bind (reads_lock env _) hconvert) fun stop => ?_
    cases stop with
    | throws error => exact .pure _
    | undefined => exact .throw _

theorem reads_get {env : NoteValue.Env} {convert : Cursor → Note.M (Option α)}
    (hconvert : ∀ cs, Reads (convert cs)) (key : List UInt8) :
    Reads (NoteValue.get env convert key) := by
  refine .bind (Note.reads_has key) fun present => ?_
  split
  · exact .bind (Note.reads_itemInfo key) fun item => reads_tryAs hconvert
  · exact .pure _

theorem reads_getInteger (env : NoteValue.Env) (type : NoteValue.IntegerType) (key : List UInt8) :
    Reads (NoteValue.getInteger env type key) :=
  reads_get (fun _ => reads_onCursor _ _) key

/-! ## Items -/

/-- The text of a key, which is the same in LMBCS. -/
def Plain (key : List UInt8) : Prop :=
  ∃ text : List Char, (∀ c ∈ text, Lmbcs.Printable c) ∧ text.length < 2 ^ 15 ∧
    key = Lmbcs.asciiBytes text

theorem plain_asciiBytes {text : List Char} (h : text.all fun c => Lmbcs.Printable c)
    (hlength : text.length < 2 ^ 15) : Plain (Lmbcs.asciiBytes text) := by
  refine ⟨text, fun c hc => ?_, hlength, rfl⟩
  simpa using List.all_eq_true.mp h c hc

theorem plain_fieldTitle : Plain fieldTitle := plain_asciiBytes (by decide) (by decide)

theorem plain_designComment : Plain designComment := plain_asciiBytes (by decide) (by decide)

theorem plain_assistFlagsItem : Plain assistFlagsItem := plain_asciiBytes (by decide) (by decide)

theorem plain_assistLastrunItem : Plain assistLastrunItem :=
  plain_asciiBytes (by decide) (by decide)

theorem plain_assistDoccountItem : Plain assistDoccountItem :=
  plain_asciiBytes (by decide) (by decide)

theorem plain_generatorItem : Plain generatorItem := plain_asciiBytes (by decide) (by decide)

theorem plain_assistTriggerItem : Plain assistTriggerItem :=
  plain_asciiBytes (by decide) (by decide)

theorem plain_assistInfoItem : Plain assistInfoItem := plain_asciiBytes (by decide) (by decide)

theorem plain_assistExactionItem : Plain assistExactionItem :=
  plain_asciiBytes (by decide) (by decide)

theorem plain_assistQueryItem : Plain assistQueryItem := plain_asciiBytes (by decide) (by decide)

theorem plain_assistVersionItem : Plain assistVersionItem :=
  plain_asciiBytes (by decide) (by decide)

theorem plain_assistActionItem : Plain assistActionItem := plain_asciiBytes (by decide) (by decide)

theorem plain_assistTypeItem : Plain assistTypeItem := plain_asciiBytes (by decide) (by decide)

theorem plain_designFlagsItem : Plain designFlagsItem := plain_asciiBytes (by decide) (by decide)

/-! ## Writing -/

/-- An item is put in the place of the first one of its name. -/
def put (items : List Item) (item : Item) : List Item := Table.put Item.name item items

/-- The program puts the items into the note. -/
abbrev Writes (items : List Item) (x : Note.M α) (s : Called (List Item)) : Prop :=
  Performs Called.value put items x s

theorem writes_set (hascii : Lmbcs.KeepsAscii env.codePage) {key : List UInt8} (hkey : Plain key)
    (type : UInt16) (buffer : List UInt8) (flags : UInt16) (s : Called (List Item)) :
    Writes [Note.stored key type buffer flags]
      (Note.set env.codePage env.native key type buffer flags) s := by
  obtain ⟨text, htext, hlength, rfl⟩ := hkey
  refine performs_one (fun stop t h => Note.atomic_set _ type buffer flags s t stop h) ?_
  intro _ t h
  exact exec_setItem_eq_ok hascii htext hlength h

/-- The item of a text. -/
def textItem (env : Env) (key text : List UInt8) (flags : UInt16) : Item :=
  Note.stored key typeText (Lmbcs.fromString env.codePage text) flags

/-- The item of a record. -/
def recordItem (env : Env) (key : List UInt8) (type : UInt16) (typ : OdsType) (record : Record) :
    Item := Note.stored key type (env.records.write typ record) itemSign

theorem writes_setText (hascii : Lmbcs.KeepsAscii env.codePage) {key : List UInt8}
    (hkey : Plain key) (text : List UInt8) (flags : UInt16) (s : Called (List Item)) :
    Writes [textItem env key text flags] (NoteValue.set env.values key (.string text) flags) s :=
  writes_set hascii hkey typeText (Lmbcs.fromString env.codePage text) flags s

theorem writes_setTime (hascii : Lmbcs.KeepsAscii env.codePage) {key : List UInt8}
    (hkey : Plain key) (time : TimeDate) (flags : UInt16) (s : Called (List Item)) :
    Writes [Note.stored key typeTime time.bytes flags]
      (NoteValue.set env.values key (.timeDate time) flags) s :=
  writes_set hascii hkey typeTime time.bytes flags s

theorem writes_setInteger (hascii : Lmbcs.KeepsAscii env.codePage) {key : List UInt8}
    (hkey : Plain key) (x : Int) (flags : UInt16) (s : Called (List Item)) :
    Writes [NoteValue.integerItem key x flags] (NoteValue.setInteger env.values key x flags) s :=
  writes_set hascii hkey typeNumber (NoteValue.applyInteger x).buffer flags s

theorem writes_setRecord (hascii : Lmbcs.KeepsAscii env.codePage) {key : List UInt8}
    (hkey : Plain key) (type : UInt16) (typ : OdsType) (record : Record)
    (s : Called (List Item)) :
    Writes [recordItem env key type typ record] (setRecord env key type typ record) s :=
  writes_set hascii hkey type (env.records.write typ record) itemSign s

/-! ## Codes -/

/-- The items of `set_code`. Behind the code there may be bytes that were not written. -/
def codeItems (env : Env) (typ : OdsType) (record : UInt16 → Agent.Record) (language : UInt16)
    (codeSize : ℕ) (code spare : List UInt8) : List Item :=
  [actionItem typeAction (env.ods.write cdActionHeader (actionHeader env.toAgent) ++
      (env.ods.write typ (record (UInt16.ofNat (odsSize env.toAgent typ + codeSize))) ++
        (code ++ spare))),
    NoteValue.integerItem assistTypeItem language.toNat itemSign,
    textItem env designFlagsItem (flagsFromLanguage language) 0]

theorem reads_writeTo (lock : Cursor) (x : Cursor.M Unit) :
    Reads (Agent.writeTo lock x : Native.M σ Cursor) := reads_onCursor _ _

theorem reads_codeValue {typ : OdsType} {record : UInt16 → Agent.Record} {codeSize : UInt16}
    {getCursor : Native.M σ Cursor} (hreads : Reads getCursor) :
    Reads (codeValue env.toAgent typ record getCursor codeSize) := by
  have hmemory : Reads (getActionItem env.toAgent codeSize typ : Native.M σ Cursor) :=
    .bind (.allocate _) fun _ => .bind (reads_writeTo _ _) fun _ => reads_writeTo _ _
  exact .bind hmemory fun _ => .bind (.checkedCast _) fun _ => .bind (reads_writeTo _ _) fun _ =>
    .bind hreads fun _ => .bind (reads_writeTo _ _) fun _ => reads_applyItemValue env.values _ _

theorem reads_lotusScriptValue (code : LotusScript) :
    Reads (lotusScriptValue env.toAgent code : Native.M σ NoteValue.Applied) := by
  have hreads : Reads (code.getCursor env.native : Native.M σ Cursor) := by
    refine .bind .call fun result => ?_
    split
    · exact .throw _
    · exact .pure _
  exact .bind (.checkedCast _) fun _ => reads_codeValue hreads

theorem reads_formulaValue (memory : List UInt8) :
    Reads (formulaValue env.toAgent memory : Native.M σ NoteValue.Applied) :=
  .bind (reads_onObject _ _) fun _ => .bind (.checkedCast _) fun _ =>
    reads_codeValue (reads_onObject _ _)

theorem writes_setCodeItems (hascii : Lmbcs.KeepsAscii env.codePage) (language : UInt16)
    (applied : NoteValue.Applied) (s : Called (List Item)) :
    Writes [actionItem applied.type applied.buffer,
      NoteValue.integerItem assistTypeItem language.toNat itemSign,
      textItem env designFlagsItem (flagsFromLanguage language) 0]
      (setCodeItems env.toAgent language applied) s :=
  Performs.bind (writes_set hascii plain_assistActionItem _ _ itemSign s) (List.cons_ne_nil _ _)
    fun _ t _ => Performs.bind (writes_setInteger hascii plain_assistTypeItem _ itemSign t)
      (List.cons_ne_nil _ _) fun _ u _ => writes_setText hascii plain_designFlagsItem _ 0 u

/-- The items of a script. -/
def lotusScriptItems (env : Env) (code : LotusScript) : List Item :=
  codeItems env cdActionLotusScript
    (fun length => .actionLotusScript languageLotusScript length (UInt16.ofNat code.size).toUInt32)
    languageLotusScript code.size code.text []

/-- The items of a formula. -/
def formulaItems (env : Env) (memory spare : List UInt8) : List Item :=
  codeItems env cdActionFormula
    (fun length => .actionFormula languageFormula length
      (UInt16.ofNat (formulaSize env.toAgent memory)))
    languageFormula (formulaSize env.toAgent memory)
    (memory.take (env.engine.getSize memory).toNat) spare

/-! ## Triggers -/

def triggerItem (env : Env) (trigger : Trigger) : Item :=
  textItem env assistTriggerItem trigger.text 0

def infoItem (env : Env) (trigger : Trigger) : Item :=
  recordItem env assistInfoItem typeAssistantInfo odsAssistStruct
    (.assistStruct trigger.toUnderlying 0)

theorem writes_setTrigger (hascii : Lmbcs.KeepsAscii env.codePage) (trigger : Trigger)
    (s : Called (List Item)) :
    Writes [triggerItem env trigger, infoItem env trigger] (setTrigger env trigger) s :=
  Performs.bind (writes_setText hascii plain_assistTriggerItem _ 0 s) (List.cons_ne_nil _ _)
    fun _ t _ => writes_setRecord hascii plain_assistInfoItem _ _ _ t

/-! ## A sample -/

/-- The fields one after the other, up to the size of every record. -/
def packed : Record → List UInt8
  | .assistStruct triggerType searchType =>
      Cursor.integerBytes 2 triggerType.toNat ++ Cursor.integerBytes 2 searchType.toNat
  | .queryHeader signature length => [signature, length, 0, 0]
  | .runObjectHeader entries => Cursor.integerBytes 2 entries.toNat ++ [0, 0]
  | .runObjectEntry => [0, 0, 0, 0]

theorem length_packed (record : Record) : (packed record).length = 4 := by
  cases record <;> rfl

def packedRecords : Ods Record where
  bytes := packed
  ofBytes bytes := .queryHeader (bytes.getD 0 0) (bytes.getD 1 0)
  size _ := 4
  write _ := packed
  read _ bytes := .queryHeader (bytes.getD 0 0) (bytes.getD 1 0)
  length_write _ := length_packed

def packedDescriptors : Ods AttachedObject.Descriptor where
  bytes value := Cursor.integerBytes 2 value.objectType.toNat ++ Cursor.integerBytes 4 value.rrv
  ofBytes bytes := ⟨UInt16.ofNat (Cursor.littleEndian (bytes.take 2)),
    Cursor.littleEndian (bytes.drop 2)⟩
  size _ := 6
  write _ value := Cursor.integerBytes 2 value.objectType.toNat ++ Cursor.integerBytes 4 value.rrv
  read _ bytes := ⟨UInt16.ofNat (Cursor.littleEndian (bytes.take 2)),
    Cursor.littleEndian (bytes.drop 2)⟩
  length_write _ _ := rfl

theorem isError_listFull_agent : (Status.other 1).isError = true := by decide

theorem isError_tooSmall_agent : (Status.other 2).isError = true := by decide

/-- No design is found by the first call, and no other call fails. -/
def sampleEnv : Env where
  values := {
    native := ⟨fun n => if n = 0 then .notFound else .noError, fun _ _ => 0xFF⟩
    codePage := utf8
    listFull := .other 1
    isError_listFull := isError_listFull_agent
    engine := NoteValue.sampleEnv.engine }
  ods := Agent.packedOds
  sigActionHeader := 129
  records := packedRecords
  descriptors := packedDescriptors
  tooSmall := .other 2
  isError_tooSmall := isError_tooSmall_agent
  sigQueryHeader := 129
  assistFlags := [0x45]
  now calls := .ok ⟨0, UInt32.ofNat calls⟩
  compiled _ := Note.stored assistExactionItem typeLsobject [1] 0
  name_compiled _ := rfl
  signature items := Note.stored (Lmbcs.asciiBytes "$Signature".toList) 14
    [UInt8.ofNat items.length] 0
  name_signature _ := rfl

end Dmn.AgentDesign
