import Dmn.Verification.Acl.AddedEntry

/-! # An object and its entry

An entry is addressed by the name that its object has. Object and entry agree after every
setter, as long as names are carried unchanged to the native side and back. -/

namespace Dmn.Acl

open Exec

variable (env : Env)

/-! ## Access values -/

/-- Flags and roles have been added one by one. -/
def Access.Built (access : Access) : Prop := ∃ value args, access = Access.make value args

theorem Access.foldl_add_spec (args : List Access.Arg) {access : Access}
    (hflags : access.flags &&& entryFlagMask = access.flags) (hroles : access.roles.Nodup) :
    (args.foldl Access.add access).flags &&& entryFlagMask =
        (args.foldl Access.add access).flags ∧
      (args.foldl Access.add access).roles.Nodup := by
  induction args generalizing access with
  | nil => exact ⟨hflags, hroles⟩
  | cons arg args ih =>
      cases arg with
      | flag value =>
          have hbits : value.bits &&& entryFlagMask = value.bits := by cases value <;> decide
          refine ih ?_ hroles
          simp only [Access.add, Access.addFlag, FlagWord.or_and, hflags, hbits]
      | role value =>
          by_cases hrole : value ∈ access.roles
          · have hadd : access.add (.role value) = access := by
              simp [Access.add, Access.addRole, Access.hasRole, hrole]
            rw [List.foldl_cons, hadd]
            exact ih hflags hroles
          · have hadd : access.add (.role value) =
                { access with roles := access.roles ++ [value] } := by
              simp [Access.add, Access.addRole, Access.hasRole, hrole]
            rw [List.foldl_cons, hadd]
            exact ih hflags (List.nodup_append_comm.mp (List.nodup_cons.mpr ⟨hrole, hroles⟩))

theorem Access.Built.flags {access : Access} (h : access.Built) :
    access.flags &&& entryFlagMask = access.flags := by
  obtain ⟨value, args, rfl⟩ := h
  exact (Access.foldl_add_spec args (by simp) List.nodup_nil).1

theorem Access.Built.roles {access : Access} (h : access.Built) : access.roles.Nodup := by
  obtain ⟨value, args, rfl⟩ := h
  exact (Access.foldl_add_spec args (by simp) List.nodup_nil).2

/-! ## Calls -/

inductive Call where
  | name (value : List UInt8)
  | fields (change : Change)

namespace Call

/-- The call on an entry object. -/
def run : Call → Entry → M Entry
  | .name value => Entry.setName env value
  | .fields change => change.run env

/-- The object with what the call sets. -/
def entry : Call → Entry → Entry
  | .name value, entry => { entry with name := value }
  | .fields change, entry => change.entry entry

theorem run_eq (call : Call) (entry : Entry) :
    call.run env entry = Entry.setWith env call.entry entry := by
  cases call with
  | name value => rfl
  | fields change => exact change.run_eq env entry

end Call

/-- A new name is not empty and carried unchanged; an access is built from flags and roles. -/
def Call.Fine : Call → Prop
  | .name value => value ≠ [] ∧ Carried env value
  | .fields (.access value) => value.Built
  | .fields _ => True

/-- An object with the list it belongs to. -/
structure Holder where
  acl : Called NativeAcl
  object : Entry

namespace Holder

/-- A setter is called on the object. -/
def step (h : Holder) (call : Call) : Holder :=
  match exec (call.run env h.object) h.acl with
  | (.ok entry, acl) => ⟨acl, entry⟩
  | (.error _, acl) => { h with acl := acl }

/-- The stored entry of the object's name is read as an object with the same name, the same
roles and the same other fields. -/
structure Coherent (h : Holder) (stored : NativeEntry) : Prop where
  lookup : Table.lookup NativeEntry.name (oldName env h.object.name) h.acl.value.entries = some stored
  name : (asRead env h.acl.value stored).name = h.object.name
  fields : (asRead env h.acl.value stored).fields.Agree h.object.fields

/-- The object has just been read from the entry of its name. -/
def Read (h : Holder) : Prop :=
  ∃ stored, Table.lookup NativeEntry.name (oldName env h.object.name) h.acl.value.entries =
    some stored ∧ readEntry env h.acl.value stored = .ok h.object

end Holder

variable {env}

theorem Holder.Read.coherent {h : Holder} (hread : h.Read env) :
    Legible env h.acl.value ∧ ∃ stored, h.Coherent env stored := by
  obtain ⟨stored, hlookup, hobject⟩ := hread
  have hlegible := (readFrom_of_readEntry env hobject).legible
  rw [readEntry_of_legible hlegible, Except.ok.injEq] at hobject
  exact ⟨hlegible, stored, hlookup, congrArg Entry.name hobject, by rw [hobject]; exact .refl _⟩

/-! ## One call -/

/-- Without repeated roles, the counts tell whether one is missing. -/
theorem countsTell_of_nodup {acl : NativeAcl} (hlegible : Legible env acl)
    (hdistinct : ((slots env acl).map Prod.snd).Nodup) {roles : List Role} (hroles : roles.Nodup) :
    CountsTell env acl roles := by
  have hnodup : (holdings env acl roles).Nodup := hdistinct.filter _
  have hholdings : repeats (holdings env acl roles) = 0 := by
    rw [repeats, hnodup.dedup, Nat.sub_self]
  have hlisted : repeats roles = 0 := by
    rw [repeats, hroles.dedup, Nat.sub_self]
  unfold CountsTell
  split
  · exact ⟨hlegible, hholdings.trans hlisted.symm⟩
  · rename_i hmissing
    intro _
    have hlength := List.length_pos_iff.mpr hmissing
    omega

theorem newName_eq_oldName {name : List UInt8} {value : Entry}
    (h : value.name = name ∨ value.name ≠ []) : newName env name value = oldName env value.name := by
  unfold newName
  split
  · rename_i heq
    rw [heq]
  · rename_i hne
    rw [oldName, if_neg (h.resolve_left hne)]

namespace Holder

variable {h : Holder} {stored : NativeEntry} {call : Call} {entry : Entry} {t : Called NativeAcl}

/-- What a call writes can be read back. -/
theorem Coherent.storable (hcoherent : h.Coherent env stored) (hlegible : Legible env h.acl.value)
    (hdistinct : ((slots env h.acl.value).map Prod.snd).Nodup) (hfine : call.Fine env)
    {privileges : Privileges}
    (hroles : rolesToNative env h.acl.value (call.entry h.object).access.roles = .ok privileges) :
    (call.entry h.object).access.flags &&& entryFlagMask = (call.entry h.object).access.flags ∧
      ∀ role ∈ (call.entry h.object).access.roles, Defined env h.acl.value role := by
  have hagree : h.object.fields.Agree (shown env h.acl.value stored) :=
    hcoherent.fields.symm
  cases call with
  | name value =>
      constructor
      · have hflags : h.object.access.flags = stored.flags &&& entryFlagMask := hagree.flags
        simp only [Call.entry, hflags, UInt16.and_assoc, UInt16.and_self]
      · intro role hrole
        exact defined_of_mem_held ((hagree.roles role).mp hrole)
  | fields change =>
      refine storable_of_upToDate (change.agree_apply hagree) ?_ hroles
      rintro value rfl
      exact ⟨hfine.flags, .inl (countsTell_of_nodup hlegible hdistinct hfine.roles)⟩

/-- A call that returns leaves the object and the entry of its name equal. -/
theorem Coherent.of_ok (hcoherent : h.Coherent env stored) (hlegible : Legible env h.acl.value)
    (hdistinct : ((slots env h.acl.value).map Prod.snd).Nodup) (hfine : call.Fine env)
    (hcall : exec (call.run env h.object) h.acl = (.ok entry, t)) :
    t.value.privNames = h.acl.value.privNames ∧
      ∃ written, (⟨t, entry⟩ : Holder).Coherent env written := by
  rw [Call.run_eq] at hcall
  obtain ⟨rfl, privileges, hroles, hstatus, hnames, hentries⟩ := exec_setWith_eq_ok env hcall
  obtain ⟨hflags, hdefined⟩ := hcoherent.storable hlegible hdistinct hfine hroles
  have hkey := Table.key_of_lookup NativeEntry.name hcoherent.lookup
  obtain ⟨-, -, hfree⟩ := (updateStatus_eq_noError_iff env).mp hstatus
  have hnew : newName env h.object.name (call.entry h.object) =
      oldName env (call.entry h.object).name := by
    refine newName_eq_oldName ?_
    cases call with
    | name value => exact .inr hfine.1
    | fields change => exact .inl rfl
  have hname : (overwrite (selectedParts h.object.name (call.entry h.object))
      (toNative env (call.entry h.object) privileges) stored).name =
        oldName env (call.entry h.object).name := (name_overwrite env hkey).trans hnew
  rw [hnew] at hfree
  refine ⟨hnames, overwrite (selectedParts h.object.name (call.entry h.object))
    (toNative env (call.entry h.object) privileges) stored, ?_, ?_, ?_⟩
  · rw [hentries]
    exact Table.lookup_modify NativeEntry.name hcoherent.lookup hname hfree
  · rw [asRead, hname]
    cases call with
    | name value =>
        rw [Call.entry, oldName, if_neg hfine.1, cString_cString]
        exact hfine.2
    | fields change =>
        have hkept := hcoherent.name
        rw [asRead, hkey] at hkept
        exact hkept
  · rw [overwrite_selectedParts]
    exact shown_written hnames hroles hdefined hflags rfl rfl rfl

/-- A call that throws changes neither the list nor the object. -/
theorem step_of_error {stop : Stop}
    (hcall : exec (call.run env h.object) h.acl = (.error stop, t)) :
    (h.step env call).acl.value = h.acl.value ∧ (h.step env call).object = h.object := by
  have hstep : h.step env call = { h with acl := t } := by
    rw [step, hcall]
  rw [hstep]
  rw [Call.run_eq] at hcall
  exact ⟨exec_setWith_eq_error env hcall, rfl⟩

/-! ## Whole runs -/

variable (env) in
/-- The role table can be read and has no role twice, and object and entry are equal. -/
structure Sound (h : Holder) : Prop where
  legible : Legible env h.acl.value
  distinct : ((slots env h.acl.value).map Prod.snd).Nodup
  coherent : ∃ stored, h.Coherent env stored

theorem Sound.step (hsound : h.Sound env) (hfine : call.Fine env) : (h.step env call).Sound env := by
  obtain ⟨hlegible, hdistinct, stored, hcoherent⟩ := hsound
  rcases hcall : exec (call.run env h.object) h.acl with ⟨stop | entry, t⟩
  · obtain ⟨hvalue, hobject⟩ := step_of_error hcall
    refine ⟨?_, ?_, stored, ?_, ?_, ?_⟩
    · rwa [hvalue]
    · rwa [hvalue]
    · rw [hvalue, hobject]
      exact hcoherent.lookup
    · rw [hvalue, hobject]
      exact hcoherent.name
    · rw [hvalue, hobject]
      exact hcoherent.fields
  · obtain ⟨hnames, hwritten⟩ := hcoherent.of_ok hlegible hdistinct hfine hcall
    have hstep : h.step env call = ⟨t, entry⟩ := by
      rw [Holder.step, hcall]
    rw [hstep]
    exact ⟨(legible_of_privNames hnames).mpr hlegible, by rwa [slots_of_privNames hnames], hwritten⟩

/-- After every run of setters, object and entry are equal, and a call that throws then changes
neither. -/
theorem coherent_after {h : Holder} (hread : h.Read env)
    (hdistinct : ((slots env h.acl.value).map Prod.snd).Nodup) {calls : List Call}
    (hfine : ∀ call ∈ calls, call.Fine env) :
    (∃ stored, (Run.after (step env) h calls).Coherent env stored) ∧
      ∀ call stop t, exec (call.run env (Run.after (step env) h calls).object)
          (Run.after (step env) h calls).acl = (.error stop, t) →
        ((Run.after (step env) h calls).step env call).acl.value =
            (Run.after (step env) h calls).acl.value ∧
          ((Run.after (step env) h calls).step env call).object =
            (Run.after (step env) h calls).object := by
  have hrun : ∀ (calls : List Call) (h : Holder), h.Sound env → (∀ call ∈ calls, call.Fine env) →
      (Run.after (step env) h calls).Sound env := by
    intro calls
    induction calls with
    | nil => exact fun h hsound _ => hsound
    | cons call calls ih =>
        intro h hsound hfine
        exact ih _ (hsound.step (hfine call (by simp))) fun c hc => hfine c (by simp [hc])
  obtain ⟨hlegible, hcoherent⟩ := hread.coherent
  exact ⟨(hrun calls h ⟨hlegible, hdistinct, hcoherent⟩ hfine).coherent,
    fun _ _ _ => step_of_error⟩

/-! ## An object of a person's entry -/

/-- An object that has just been read. -/
def sample : Holder := ⟨sampleAcl 0, sampleObject⟩

theorem read_sample : sample.Read sampleEnv :=
  ⟨sampleEntry 0, by decide +kernel, by decide +kernel⟩

/-- The entry is renamed, then its level is set. -/
theorem coherent_after_rename :
    let h := Run.after (step sampleEnv) sample [.name [0x59], .fields (.level 3)]
    (∃ stored, h.Coherent sampleEnv stored) ∧
      ∀ call stop t, exec (call.run sampleEnv h.object) h.acl = (.error stop, t) →
        (h.step sampleEnv call).acl.value = h.acl.value ∧
          (h.step sampleEnv call).object = h.object := by
  have hcarried : Carried sampleEnv [0x59] := by
    unfold Carried
    decide +kernel
  refine coherent_after read_sample (by decide +kernel) fun call hcall => ?_
  rcases List.mem_pair.mp hcall with rfl | rfl
  · exact ⟨nofun, hcarried⟩
  · trivial

/-- A name with a zero byte is cut at it on the native side. -/
theorem not_coherent_zero :
    let h := Run.after (step sampleEnv) sample [.name [0x59, 0, 0x5A]]
    sample.Read sampleEnv ∧ h.object.name = [0x59, 0, 0x5A] ∧
      ∀ stored ∈ h.acl.value.entries, (asRead sampleEnv h.acl.value stored).name ≠ h.object.name := by
  refine ⟨read_sample, ?_, ?_⟩
  · decide +kernel
  · decide +kernel

end Holder

end Dmn.Acl
