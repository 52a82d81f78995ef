import Dmn.Verification.AgentDesign.Setters

/-! # Runs of an agent

What the note of an agent has, and what is stored of it, is what the calls have made of it, one effect
after the other. -/

namespace Dmn.AgentDesign

open Exec Native Effects Agent

variable {α : Type} {env : Env} {s t : Called NoteState}

/-! ## Designs -/

/-- The items that the methods work on, and those that are stored. -/
structure Design where
  items : List Item
  stored : Option (List Item)
  deriving DecidableEq

def NoteState.design : NoteState → Design
  | created items => ⟨items, none⟩
  | saved stored entry => ⟨entry.getD stored, some stored⟩

inductive Effect where
  | put (item : Item)
  | compile
  | sign
  | store

def Design.apply (env : Env) (design : Design) : Effect → Design
  | .put item => { design with items := AgentDesign.put design.items item }
  | .compile => { design with items := AgentDesign.put design.items (env.compiled design.items) }
  | .sign => { design with items := AgentDesign.put design.items (env.signature design.items) }
  | .store => { design with stored := some design.items }

/-- What is seen of the note. -/
def seen (s : Called NoteState) : Design := s.value.design

theorem design_withItems (items : List Item) (note : NoteState) :
    (note.withItems items).design = { note.design with items := items } := by
  cases note <;> rfl

theorem design_update (note : NoteState) :
    note.update.design = { note.design with stored := some note.design.items } := by
  cases note with
  | created items => rfl
  | saved stored entry => cases entry <;> rfl

theorem foldl_put (items : List Item) (design : Design) :
    (items.map Effect.put).foldl (Design.apply env) design =
      { design with items := items.foldl put design.items } := by
  induction items generalizing design with
  | nil => rfl
  | cons item items ih => exact ih _

/-! ## The handle -/

/-- The handle gives the items, also where it is opened again. -/
theorem exec_getHandle (env : Env) (s : Called NoteState) :
    (∃ stop t, exec (getHandle env) s = (.error stop, t) ∧ t.value = s.value) ∨
    ∃ (n : ℕ) (v : NoteState), v.design = s.value.design ∧
      exec (getHandle env) s = (.ok s.value.design.items, ⟨n, v⟩) := by
  obtain ⟨n, note⟩ := s
  rw [getHandle, exec_bind_of_ok (exec_value _)]
  cases note with
  | created items => exact .inr ⟨n, _, rfl, rfl⟩
  | saved stored entry =>
      cases entry with
      | some items => exact .inr ⟨n, _, rfl, rfl⟩
      | none =>
          simp only
          rw [exec_bind_of_ok (exec_call _), exec_bind, Status.exec_throwIfError]
          cases (env.native.status n).isError with
          | true => exact .inl ⟨_, _, rfl, rfl⟩
          | false => exact .inr ⟨n + 1, .saved stored (some stored), rfl, rfl⟩

theorem exec_onHandle (env : Env) (x : Note.M α) (s : Called NoteState) :
    (∃ stop t, exec (onHandle env x) s = (.error stop, t) ∧ t.value = s.value) ∨
    ∃ (n : ℕ) (v : NoteState), v.design = s.value.design ∧
      exec (onHandle env x) s = ((exec x ⟨n, s.value.design.items⟩).1,
        ⟨(exec x ⟨n, s.value.design.items⟩).2.calls,
          v.withItems (exec x ⟨n, s.value.design.items⟩).2.value⟩) := by
  rcases exec_getHandle env s with ⟨stop, t, hstop, ht⟩ | ⟨n, v, hv, hok⟩
  · exact .inl ⟨stop, t, exec_bind_of_error hstop, ht⟩
  · exact .inr ⟨n, v, hv, exec_bind_of_ok hok⟩

/-- What a program does to the items of the handle. -/
theorem begins_onHandle {W : List Item → Prop} {x : Note.M α}
    (hx : ∀ n, Begins Called.value put W x ⟨n, s.value.design.items⟩) :
    Begins seen (Design.apply env) (fun effects => ∃ items, W items ∧
      effects = items.map Effect.put) (onHandle env x) s := by
  rcases exec_onHandle env x s with ⟨stop, t, hstop, ht⟩ | ⟨n, v, hv, hexec⟩
  · exact .inl ⟨stop, t, hstop, congrArg NoteState.design ht⟩
  · have hseen : ∀ {items : List Item}, (exec x ⟨n, s.value.design.items⟩).2.value =
        items.foldl put s.value.design.items →
        seen (exec (onHandle env x) s).2 =
          (items.map Effect.put).foldl (Design.apply env) (seen s) := by
      intro items hitems
      rw [hexec, foldl_put, seen, design_withItems, hv, hitems]
      rfl
    rcases hx n with ⟨stop, t, hstop, ht⟩ | ⟨items, hW, done, hdone, hall, hstopped, hview⟩
    · rw [hstop] at hexec
      refine .inl ⟨stop, _, hexec, ?_⟩
      rw [seen, design_withItems, ht, hv]
      rfl
    · refine .inr ⟨_, ⟨items, hW, rfl⟩, done.map Effect.put, hdone.map _, ?_, ?_, hseen hview⟩ <;>
        rw [hexec]
      · exact fun h => congrArg (List.map Effect.put) (hall h)
      · intro h hne heq
        have hinj : Function.Injective Effect.put := fun _ _ h => Effect.put.inj h
        exact hstopped h (fun hnil => hne (by rw [hnil]; rfl)) (List.map_injective_iff.mpr hinj heq)

theorem performs_onHandle {items : List Item} {x : Note.M α}
    (hx : ∀ n, Writes items x ⟨n, s.value.design.items⟩) (hne : items ≠ []) :
    Performs seen (Design.apply env) (items.map Effect.put) (onHandle env x) s := by
  rcases begins_onHandle fun n => (hx n).begins (W := (· = items)) rfl with
    ⟨stop, t, hstop, ht⟩ | ⟨_, ⟨_, rfl, rfl⟩, h⟩
  · refine performs_of_error hstop List.nil_prefix (fun h heq => h heq.symm) ht
  · exact h

theorem seen_onHandle {x : Note.M α} (hx : Reads x) :
    seen (exec (onHandle env x) s).2 = seen s := by
  rcases exec_onHandle env x s with ⟨stop, t, hstop, ht⟩ | ⟨n, v, hv, hexec⟩
  · rw [hstop]
    exact congrArg NoteState.design ht
  · rw [hexec, seen, design_withItems, hx, hv]
    rfl

/-- One item is put, which depends on those that are there. -/
theorem performs_putting (message : String) (item : List Item → Item) {effect : Effect}
    (heffect : ∀ design : Design, design.apply env effect =
      { design with items := put design.items (item design.items) }) (s : Called NoteState) :
    Performs seen (Design.apply env) [effect] (onHandle env (putting env message item)) s := by
  have hputting : ∀ n items, (∃ error, exec (putting env message item) ⟨n, items⟩ =
      (.error (.throws error), ⟨n + 1, items⟩)) ∨
      exec (putting env message item) ⟨n, items⟩ = (.ok (), ⟨n + 1, put items (item items)⟩) := by
    intro n items
    rw [putting, exec_bind_of_ok (exec_call _), exec_bind, Status.exec_throwIfError]
    cases (env.native.status n).isError with
    | true => exact .inl ⟨_, rfl⟩
    | false => exact .inr rfl
  rcases exec_onHandle env (putting env message item) s with ⟨stop, t, hstop, ht⟩ | ⟨n, v, hv, hexec⟩
  · exact performs_of_error hstop List.nil_prefix (fun _ => (List.cons_ne_nil _ _).symm)
      (congrArg NoteState.design ht)
  · rcases hputting n s.value.design.items with ⟨error, herror⟩ | hok
    · rw [herror] at hexec
      refine performs_of_error hexec List.nil_prefix (fun _ => (List.cons_ne_nil _ _).symm) ?_
      rw [seen, design_withItems, hv]
      rfl
    · rw [hok] at hexec
      refine performs_of_ok hexec ?_
      rw [seen, design_withItems, hv]
      exact (heffect _).symm

theorem performs_saveNote (s : Called NoteState) :
    Performs seen (Design.apply env) [.store] (saveNote env) s := by
  rw [saveNote]
  rcases exec_getHandle env s with ⟨stop, t, hstop, ht⟩ | ⟨n, v, hv, hok⟩
  · exact performs_of_error (exec_bind_of_error hstop) List.nil_prefix
      (fun _ => (List.cons_ne_nil _ _).symm) (congrArg NoteState.design ht)
  · have hrest : exec (saveNote env) s = exec (do
        let result ← Native.call env.native
        result.throwIfError "Failed to save note"
        Native.update NoteState.update) ⟨n, v⟩ := exec_bind_of_ok hok
    rw [exec_bind_of_ok (exec_call _), exec_bind, Status.exec_throwIfError] at hrest
    cases hresult : (env.native.status n).isError with
    | true =>
        rw [hresult] at hrest
        exact performs_of_error hrest List.nil_prefix (fun _ => (List.cons_ne_nil _ _).symm) hv
    | false =>
        rw [hresult] at hrest
        refine performs_of_ok hrest ?_
        rw [seen, design_update, hv]
        rfl

/-- The value of a code is made before the note is opened. -/
theorem begins_setCode (hascii : Lmbcs.KeepsAscii env.codePage) {language : UInt16}
    {value : M NoteValue.Applied} (hvalue : Reads value) {W : List Effect → Prop}
    (hW : ∀ applied t, exec value s = (.ok applied, t) →
      W ([actionItem applied.type applied.buffer,
        NoteValue.integerItem assistTypeItem language.toNat itemSign,
        textItem env designFlagsItem (flagsFromLanguage language) 0].map .put)) :
    Begins seen (Design.apply env) W (setCode env language value) s :=
  Begins.bind_read (congrArg NoteState.design (hvalue s)) fun applied t happlied =>
    (performs_onHandle (fun _ => writes_setCodeItems hascii language applied _)
      (List.cons_ne_nil _ _)).begins (hW applied t happlied)

/-! ## `save` -/

def versionItem (now : TimeDate) : Item := Note.stored assistVersionItem typeTime now.bytes 0

/-- What `note::get` can give of the type. Where it is the number of a language, that is the one
that is read. -/
def ReadsType (items : List Item) (value : Option Int) : Prop :=
  ∀ language : UInt16, Table.lookup Item.name assistTypeItem items =
    some (NoteValue.integerItem assistTypeItem language.toNat itemSign) →
      value = none ∨ value = some (language.toNat : Int)

/-- A script is compiled before the note is signed and stored. -/
def saveEffects (now : TimeDate) (value : Option Int) : List Effect :=
  [.put (versionItem now)] ++ ((if languageOf (value.getD 0) = languageLotusScript
    then [.compile] else []) ++ ([.sign] ++ [.store]))

theorem roundInt_language (language : UInt16) :
    Binary64.roundInt language.toNat = language.toNat := by
  have hsmall : language.toNat < 2 ^ Binary64.precision :=
    Nat.lt_trans language.toNat_lt (by decide)
  exact (Binary64.roundInt_eq_self_iff _).mpr ⟨language.toNat, 0, hsmall, (Nat.mul_one _).symm⟩

/-- A number that is read is the one that was set. -/
theorem readsType_of_getInteger {items : List Item} {n : ℕ} {t : Called (List Item)}
    {value : Option Int} (h : exec (NoteValue.getInteger env.values (.signed 32) assistTypeItem)
      ⟨n, items⟩ = (.ok value, t)) : ReadsType items value := by
  intro language hitem
  cases value with
  | none => exact .inl rfl
  | some value =>
      have hplain : assistTypeItem.take (assistTypeItem.length % 2 ^ 16) = assistTypeItem := by
        decide
      have hholds : (NoteValue.IntegerType.signed 32).Holds (language.toNat : Int) := by
        have hlt := language.toNat_lt
        simp only [NoteValue.IntegerType.Holds]
        omega
      rw [← hplain] at hitem
      have hvalue := NoteValue.eq_roundInt_of_getInteger (by decide) hholds hitem h
      rw [hvalue, roundInt_language]
      exact .inr rfl

theorem readsType_put {items : List Item} {now : TimeDate} {value : Option Int}
    (h : ReadsType (put items (versionItem now)) value) : ReadsType items value := by
  intro language hitem
  have hne : (versionItem now).name ≠ assistTypeItem := by
    change assistVersionItem ≠ assistTypeItem
    decide
  exact h language ((Table.lookup_put_of_ne Item.name items hne).trans hitem)

theorem readsType_of_exec {value : Option Int}
    (h : exec (onHandle env (NoteValue.getInteger env.values (.signed 32) assistTypeItem)) s =
      (.ok value, t)) : ReadsType (seen s).items value := by
  rcases exec_onHandle env (NoteValue.getInteger env.values (.signed 32) assistTypeItem) s with
    ⟨stop, u, hstop, -⟩ | ⟨n, v, -, hexec⟩
  · rw [hstop] at h
    cases h
  · obtain ⟨hvalue, -⟩ := Prod.mk.inj (hexec.symm.trans h)
    have hread : exec (NoteValue.getInteger env.values (.signed 32) assistTypeItem)
        ⟨n, s.value.design.items⟩ = (.ok value, _) := Prod.ext hvalue rfl
    exact readsType_of_getInteger hread

theorem performs_signAndSave (s : Called NoteState) :
    Performs seen (Design.apply env) ([.sign] ++ [.store]) (do
      onHandle env (putting env "Failed to sign note" env.signature)
      saveNote env) s :=
  Performs.bind (performs_putting _ _ (fun _ => rfl) s) (List.cons_ne_nil _ _)
    fun _ t _ => performs_saveNote t

theorem begins_save (hascii : Lmbcs.KeepsAscii env.codePage) (s : Called NoteState) :
    Begins seen (Design.apply env) (fun effects => ∃ now value, env.now s.calls = .ok now ∧
      ReadsType (seen s).items value ∧ effects = saveEffects now value) (save env) s := by
  rw [save]
  refine Begins.bind_read rfl fun s' t hget => ?_
  cases hget
  refine Begins.bind_read (by rw [exec_ofExcept]) fun now t hnow => ?_
  rw [exec_ofExcept] at hnow
  obtain ⟨hnow, rfl⟩ := Prod.mk.inj hnow
  have hclock : env.now s.calls = .ok now := by
    cases h : env.now s.calls with
    | error error =>
        rw [h] at hnow
        cases hnow
    | ok time =>
        rw [h] at hnow
        cases hnow
        rfl
  have hversion : Performs seen (Design.apply env)
      ([Note.stored assistVersionItem typeTime now.bytes 0].map Effect.put)
      (onHandle env (NoteValue.set env.values assistVersionItem (.timeDate now) 0)) s :=
    performs_onHandle
      (fun n => writes_setTime hascii plain_assistVersionItem now 0 ⟨n, s.value.design.items⟩)
      (List.cons_ne_nil _ _)
  refine (hversion.bind_begins (W := fun effects => ∃ value, ReadsType (seen s).items value ∧
    effects = (if languageOf (value.getD 0) = languageLotusScript then [.compile] else []) ++
      ([.sign] ++ [.store])) ⟨_, none, fun _ _ => .inl rfl, rfl⟩ ?_ fun _ t hset => ?_).mono ?_
  · rintro effects ⟨value, -, rfl⟩
    split <;> simp
  · have ht := hversion.of_ok hset
    refine Begins.bind_read (seen_onHandle (reads_getInteger _ _ _)) fun value u hvalue => ?_
    have hreads := readsType_of_exec hvalue
    rw [ht] at hreads
    refine .inr ⟨_, ⟨value, readsType_put hreads, rfl⟩, ?_⟩
    by_cases hlotus : languageOf (value.getD 0) = languageLotusScript
    · simp only [if_pos hlotus]
      exact Performs.bind (performs_putting _ _ (fun _ => rfl) u) (List.cons_ne_nil _ _)
        fun _ v _ => performs_signAndSave v
    · simp only [if_neg hlotus]
      exact performs_signAndSave u
  · rintro effects ⟨rest, ⟨value, hvalue, rfl⟩, rfl⟩
    exact ⟨now, value, hclock, hvalue, rfl⟩

/-! ## Runs -/

namespace Op

/-- The effects that a call can have, if it returns. -/
def Whole (env : Env) (s : Called NoteState) : Op → List Effect → Prop
  | setTitle title, effects => effects = [.put (textItem env fieldTitle title itemSign)]
  | setComment comment, effects => effects = [.put (textItem env designComment comment itemSign)]
  | setLotusScript code, effects => effects = (lotusScriptItems env code).map .put
  | setFormula memory, effects => ∃ spare, effects = (formulaItems env memory spare).map .put
  | setTrigger trigger, effects => effects = [.put (triggerItem env trigger),
      .put (infoItem env trigger)]
  | save, effects => ∃ now value, env.now s.calls = .ok now ∧
      ReadsType (seen s).items value ∧ effects = saveEffects now value

theorem Whole.ne_nil {op : Op} {effects : List Effect} (h : op.Whole env s effects) :
    effects ≠ [] := by
  cases op with
  | setTitle | setComment | setLotusScript | setTrigger =>
      rintro rfl
      cases h
  | setFormula memory =>
      obtain ⟨spare, rfl⟩ := h
      exact List.cons_ne_nil _ _
  | save =>
      obtain ⟨now, value, -, -, rfl⟩ := h
      exact List.cons_ne_nil _ _

theorem begins (hascii : Lmbcs.KeepsAscii env.codePage) (op : Op) (s : Called NoteState) :
    Begins seen (Design.apply env) (op.Whole env s) (op.perform env) s := by
  cases op with
  | setTitle title =>
      exact (performs_onHandle (fun n => writes_setText hascii plain_fieldTitle title itemSign _)
        (List.cons_ne_nil _ _)).begins rfl
  | setComment comment =>
      exact (performs_onHandle
        (fun n => writes_setText hascii plain_designComment comment itemSign _)
        (List.cons_ne_nil _ _)).begins rfl
  | setLotusScript code =>
      refine begins_setCode hascii (reads_lotusScriptValue code) fun applied t hvalue => ?_
      obtain ⟨-, -, rfl⟩ := exec_lotusScriptValue_eq_ok hvalue
      rfl
  | setFormula memory =>
      refine begins_setCode hascii (reads_formulaValue memory) fun applied t hvalue => ?_
      obtain ⟨-, -, -, spare, -, rfl⟩ := exec_formulaValue_eq_ok hvalue
      exact ⟨spare, rfl⟩
  | setTrigger trigger =>
      exact (performs_onHandle (fun n => writes_setTrigger hascii trigger _)
        (List.cons_ne_nil _ _)).begins rfl
  | save => exact begins_save hascii s

/-- Whether the call returns. -/
def returns (env : Env) (s : Called NoteState) (op : Op) : Bool :=
  (exec (op.perform env) s).1.isOk

end Op

/-- All along a run, a call that returns has had all of its effects, and one that throws the first
few of them. What the note has in the end, and what is stored, is what they have made. -/
theorem run_effects (hascii : Lmbcs.KeepsAscii env.codePage) (s : Called NoteState)
    (ops : List Op) :
    ∃ trace : List (List Effect),
      Explains (step env) (fun s op => Done (op.Whole env s) (op.returns env s)) s ops trace ∧
        seen (Run.after (step env) s ops) = trace.flatten.foldl (Design.apply env) (seen s) :=
  exists_explains (fun s op => (op.begins hascii s).done fun _ => Op.Whole.ne_nil) s ops

theorem run_effects_sample : ∃ trace : List (List Effect),
    Explains (step sampleEnv) (fun s op => Done (op.Whole sampleEnv s) (op.returns sampleEnv s))
        ⟨1, .created []⟩ [.setTitle [0x41], .setTrigger .scheduled, .save] trace ∧
      seen (Run.after (step sampleEnv) ⟨1, .created []⟩
        [.setTitle [0x41], .setTrigger .scheduled, .save]) =
          trace.flatten.foldl (Design.apply sampleEnv) ⟨[], none⟩ :=
  run_effects Lmbcs.keepsAscii_utf8 _ _

end Dmn.AgentDesign
