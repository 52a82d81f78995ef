import Dmn.Verification.Acl.Frame
import Dmn.Verification.Acl.RoleCheck

/-! # Two objects of one entry

Each object keeps a copy of the whole entry, and every setter writes its copy back. A field
keeps the value of the last setter that names it as long as no setter is called on an object
whose other fields have fallen behind. -/

namespace Dmn.Acl

open Exec

variable (env : Env)

/-! ## Fields -/

/-- The fields beside the name. -/
structure Fields where
  access : Access
  type : PrincipalType
  administrationServer : Bool

namespace Fields

/-- Equal fields, up to the order of roles. -/
structure Agree (v w : Fields) : Prop where
  level : v.access.level = w.access.level
  flags : v.access.flags = w.access.flags
  roles : ∀ role, role ∈ v.access.roles ↔ role ∈ w.access.roles
  type : v.type = w.type
  administrationServer : v.administrationServer = w.administrationServer

theorem Agree.refl (v : Fields) : Agree v v := ⟨rfl, rfl, fun _ => Iff.rfl, rfl, rfl⟩

theorem Agree.symm {v w : Fields} (h : Agree v w) : Agree w v :=
  ⟨h.level.symm, h.flags.symm, fun role => (h.roles role).symm, h.type.symm,
    h.administrationServer.symm⟩

theorem Agree.trans {u v w : Fields} (h : Agree u v) (h' : Agree v w) : Agree u w :=
  ⟨h.level.trans h'.level, h.flags.trans h'.flags, fun role => (h.roles role).trans (h'.roles role),
    h.type.trans h'.type, h.administrationServer.trans h'.administrationServer⟩

end Fields

/-- The fields as an object holds them. -/
def Entry.fields (entry : Entry) : Fields :=
  ⟨entry.access, entry.type, entry.administrationServer⟩

/-- The fields as they are read of a stored entry. -/
def shown (acl : NativeAcl) (stored : NativeEntry) : Fields where
  access := ⟨stored.level.toUInt8, held env acl stored.privileges, stored.flags &&& entryFlagMask⟩
  type := PrincipalType.ofFlags stored.flags
  administrationServer := stored.flags &&& aclFlagAdminServer ≠ 0

/-! ## Calls -/

inductive Change where
  | access (value : Access)
  | level (value : UInt8)
  | type (value : PrincipalType)
  | administrationServer (value : Bool)

namespace Change

/-- The call on an entry object. -/
def run : Change → Entry → M Entry
  | .access value => Entry.setAccess env value
  | .level value => Entry.setLevel env value
  | .type value => Entry.setType env value
  | .administrationServer value => Entry.setAdministrationServer env value

/-- The fields with the named one set. -/
def apply : Change → Fields → Fields
  | .access value, v => { v with access := value }
  | .level value, v => { v with access := { v.access with level := value } }
  | .type value, v => { v with type := value }
  | .administrationServer value, v => { v with administrationServer := value }

/-- The object with the named field set. -/
def entry (change : Change) (entry : Entry) : Entry :=
  let v := change.apply entry.fields
  ⟨entry.name, v.access, v.type, v.administrationServer⟩

theorem run_eq (change : Change) (entry : Entry) :
    change.run env entry = Entry.setWith env change.entry entry := by
  cases change <;> rfl

theorem agree_apply (change : Change) {v w : Fields} (h : v.Agree w) :
    (change.apply v).Agree (change.apply w) := by
  cases change with
  | access value => exact ⟨rfl, rfl, fun _ => Iff.rfl, h.type, h.administrationServer⟩
  | level value => exact ⟨rfl, h.flags, h.roles, h.type, h.administrationServer⟩
  | type value => exact ⟨h.level, h.flags, h.roles, rfl, h.administrationServer⟩
  | administrationServer value => exact ⟨h.level, h.flags, h.roles, h.type, rfl⟩

end Change

/-! ## Sessions with two objects -/

structure Session where
  acl : Called NativeAcl
  first : Entry
  second : Entry

namespace Session

/-- The first object, or the second one. -/
def object (s : Session) (second : Bool) : Entry := if second then s.second else s.first

def keep (s : Session) (second : Bool) (entry : Entry) : Session :=
  if second then { s with second := entry } else { s with first := entry }

/-- A setter is called on one of the objects. -/
def step (s : Session) (call : Bool × Change) : Session :=
  match exec (call.2.run env (s.object call.1)) s.acl with
  | (.ok entry, acl) => { s.keep call.1 entry with acl := acl }
  | (.error _, acl) => { s with acl := acl }

/-- The call returns. -/
def accepts (s : Session) (call : Bool × Change) : Bool :=
  (exec (call.2.run env (s.object call.1)) s.acl).1.isOk

/-- The fields after a run, each as the last accepted setter that names it has set it. -/
def lastSet (s : Session) : Fields → List (Bool × Change) → Fields
  | v, [] => v
  | v, call :: calls =>
      (step env s call).lastSet (if s.accepts env call then call.2.apply v else v) calls

/-- The object of the call has not fallen behind in the fields that the call leaves alone,
and an access value has flags of `flag` only, and roles that are defined or refused. -/
def UpToDate (i : Nat) (s : Session) (call : Bool × Change) : Prop :=
  ∀ stored, s.acl.value.entries[i]? = some stored →
    (call.2.apply (s.object call.1).fields).Agree (call.2.apply (shown env s.acl.value stored)) ∧
      ∀ value, call.2 = .access value → value.flags &&& entryFlagMask = value.flags ∧
        (CountsTell env s.acl.value value.roles ∨
          ∀ role ∈ value.roles, Defined env s.acl.value role)

/-- Both objects address the entry at index `i`, which shows these fields. -/
structure Shared (i : Nat) (s : Session) (v : Fields) : Prop where
  names : s.second.name = s.first.name
  index : s.acl.value.entries.findIdx? (fun stored => stored.name = oldName env s.first.name) =
    some i
  shows : ∃ stored, s.acl.value.entries[i]? = some stored ∧
    (shown env s.acl.value stored).Agree v

end Session

/-! ## Writing an object back -/

variable {env}

/-- The masks of the three parts of a flag word do not overlap. -/
theorem nativeFlags_parts {value : Entry}
    (h : value.access.flags &&& entryFlagMask = value.access.flags) :
    nativeFlags value &&& entryFlagMask = value.access.flags ∧
      nativeFlags value &&& principalTypeMask = value.type.bits ∧
      nativeFlags value &&& aclFlagAdminServer =
        if value.administrationServer then aclFlagAdminServer else 0 := by
  have hmasks : entryFlagMask &&& principalTypeMask = 0 ∧ entryFlagMask &&& aclFlagAdminServer = 0 ∧
      principalTypeMask &&& entryFlagMask = 0 ∧ principalTypeMask &&& aclFlagAdminServer = 0 := by
    decide
  have hmark : ∀ mark : Bool, (if mark then aclFlagAdminServer else 0) &&& entryFlagMask = 0 ∧
      (if mark then aclFlagAdminServer else 0) &&& principalTypeMask = 0 ∧
      (if mark then aclFlagAdminServer else 0) &&& aclFlagAdminServer =
        if mark then aclFlagAdminServer else 0 := by decide
  obtain ⟨hflagType, hflagMark, htypeFlag, htypeMark⟩ := hmasks
  obtain ⟨hmarkFlag, hmarkType, hmarkMark⟩ := hmark value.administrationServer
  have hflags : ∀ mask, entryFlagMask &&& mask = 0 → value.access.flags &&& mask = 0 := by
    intro mask hmask
    rw [← h, UInt16.and_assoc, hmask, UInt16.and_zero]
  have htype : ∀ mask, principalTypeMask &&& mask = 0 → value.type.bits &&& mask = 0 := by
    intro mask hmask
    rw [← value.type.masked, UInt16.and_assoc, hmask, UInt16.and_zero]
  rw [nativeFlags_eq]
  refine ⟨?_, ?_, ?_⟩
  · rw [FlagWord.or_and, FlagWord.or_and, h, htype _ htypeFlag, hmarkFlag, UInt16.or_zero,
      UInt16.or_zero]
  · rw [FlagWord.or_and, FlagWord.or_and, hflags _ hflagType, value.type.masked, hmarkType,
      UInt16.zero_or, UInt16.or_zero]
  · rw [FlagWord.or_and, FlagWord.or_and, hflags _ hflagMark, htype _ htypeMark, hmarkMark,
      UInt16.zero_or, UInt16.zero_or]

/-- A written object is shown again. -/
theorem shown_written {acl acl' : NativeAcl} {entry : Entry} {privileges : Privileges}
    {stored : NativeEntry} (hnames : acl'.privNames = acl.privNames)
    (hroles : rolesToNative env acl entry.access.roles = .ok privileges)
    (hdefined : ∀ role ∈ entry.access.roles, Defined env acl role)
    (hflags : entry.access.flags &&& entryFlagMask = entry.access.flags)
    (hlevel : stored.level = entry.access.level.toUInt16) (hprivileges : stored.privileges = privileges)
    (hword : stored.flags = nativeFlags entry) : (shown env acl' stored).Agree entry.fields := by
  obtain ⟨hpartFlags, hpartType, hpartMark⟩ := nativeFlags_parts hflags
  have hlegible : Legible env acl := by
    by_contra hnot
    rw [rolesToNative_of_not_legible hnot] at hroles
    cases hroles
  rw [rolesToNative_of_legible hlegible] at hroles
  split at hroles
  · cases hroles
    refine ⟨?_, ?_, ?_, ?_, ?_⟩
    · simp [shown, hlevel, Entry.fields]
    · simp only [shown, hword, hpartFlags, Entry.fields]
    · intro role
      simp only [shown, hprivileges, held_of_privNames hnames, mem_held_assigned, Entry.fields]
      exact ⟨fun h => h.1, fun hlisted => ⟨hlisted, hdefined role hlisted⟩⟩
    · simp only [shown, PrincipalType.ofFlags, hword, hpartType, Entry.fields]
    · simp only [shown, hword, hpartMark, Entry.fields]
      cases entry.administrationServer <;> decide
  · cases hroles

/-! ## One call -/

/-- A call that returns has changed the addressed entry only, and has kept all names. -/
theorem exec_run_eq_ok {change : Change} {entry entry' : Entry} {s t : Called NativeAcl}
    {i : Nat} {stored : NativeEntry} (hstored : s.value.entries[i]? = some stored)
    (hindex : s.value.entries.findIdx? (fun e => e.name = oldName env entry.name) = some i)
    (h : exec (change.run env entry) s = (.ok entry', t)) :
    entry' = change.entry entry ∧ t.value.privNames = s.value.privNames ∧
      (∀ name, t.value.entries.findIdx? (fun e => e.name = name) =
        s.value.entries.findIdx? (fun e => e.name = name)) ∧
      ∃ privileges, rolesToNative env s.value entry'.access.roles = .ok privileges ∧
        t.value.entries[i]? = some
          { toNative env entry' privileges with name := stored.name } := by
  rw [Change.run_eq] at h
  obtain ⟨rfl, privileges, hroles, -, hnames, hentries⟩ := exec_setWith_eq_ok env h
  have hname : ∀ new row,
      (overwrite (selectedParts entry.name (change.entry entry)) new row).name = row.name := by
    intro new row
    rw [overwrite_selectedParts]
    exact if_pos rfl
  rw [hentries]
  refine ⟨rfl, hnames, fun name => ?_, privileges, hroles, ?_⟩
  · exact Table.findIdx?_modify NativeEntry.name (hname _) name _
  · simp only [Table.getElem?_modify, hindex, if_pos, hstored, Option.map_some]
    rw [overwrite_selectedParts]
    simp [Change.entry]

/-- A call that throws has changed nothing. -/
theorem exec_run_eq_error {change : Change} {entry : Entry} {s t : Called NativeAcl} {stop : Stop}
    (h : exec (change.run env entry) s = (.error stop, t)) : t.value = s.value := by
  rw [Change.run_eq] at h
  exact exec_setWith_eq_error env h

/-- What an object that is up to date writes can be read back. -/
theorem storable_of_upToDate {acl : NativeAcl} {stored : NativeEntry} {change : Change}
    {entry : Entry} {privileges : Privileges}
    (hagree : (change.apply entry.fields).Agree (change.apply (shown env acl stored)))
    (haccess : ∀ value, change = .access value → value.flags &&& entryFlagMask = value.flags ∧
      (CountsTell env acl value.roles ∨ ∀ role ∈ value.roles, Defined env acl role))
    (hroles : rolesToNative env acl (change.entry entry).access.roles = .ok privileges) :
    (change.entry entry).access.flags &&& entryFlagMask = (change.entry entry).access.flags ∧
      ∀ role ∈ (change.entry entry).access.roles, Defined env acl role := by
  have hread : (∀ value, change ≠ .access value) →
      (change.entry entry).access.flags = stored.flags &&& entryFlagMask ∧
        ∀ role, role ∈ (change.entry entry).access.roles ↔
          role ∈ held env acl stored.privileges := by
    intro hother
    cases change with
    | access value => exact absurd rfl (hother value)
    | level value => exact ⟨hagree.flags, hagree.roles⟩
    | type value => exact ⟨hagree.flags, hagree.roles⟩
    | administrationServer value => exact ⟨hagree.flags, hagree.roles⟩
  by_cases hother : ∀ value, change ≠ .access value
  · obtain ⟨hflags, hmem⟩ := hread hother
    constructor
    · rw [hflags, UInt16.and_assoc, UInt16.and_self]
    · intro role hrole
      exact defined_of_mem_held ((hmem role).mp hrole)
  · simp only [ne_eq, not_forall, not_not] at hother
    obtain ⟨value, rfl⟩ := hother
    obtain ⟨hflags, htell | hdefined⟩ := haccess value rfl
    · refine ⟨hflags, fun role hrole => ?_⟩
      by_contra hmissing
      obtain ⟨message, hmessage⟩ := (rolesToNative_throws_iff.mpr htell).mpr ⟨role, hrole, hmissing⟩
      exact absurd (hroles.symm.trans hmessage) (by simp)
    · exact ⟨hflags, hdefined⟩

theorem Session.names_keep {s : Session} (hnames : s.second.name = s.first.name) (second : Bool)
    (change : Change) :
    (s.keep second (change.entry (s.object second))).first.name = s.first.name ∧
      (s.keep second (change.entry (s.object second))).second.name = s.first.name := by
  cases second with
  | false => exact ⟨rfl, hnames⟩
  | true => exact ⟨rfl, hnames⟩

theorem Session.name_object {s : Session} (hnames : s.second.name = s.first.name)
    (second : Bool) : (s.object second).name = s.first.name := by
  cases second with
  | false => rfl
  | true => exact hnames

/-- A call on an object that is up to date sets the named field, or is refused. -/
theorem Session.Shared.step {i : Nat} {s : Session} {v : Fields} (h : s.Shared env i v)
    {call : Bool × Change} (hcall : s.UpToDate env i call) :
    (s.step env call).Shared env i (if s.accepts env call then call.2.apply v else v) := by
  obtain ⟨second, change⟩ := call
  obtain ⟨hnames, hindex, stored, hstored, hshown⟩ := h
  have hobject := Session.name_object hnames second
  unfold Session.step Session.accepts
  rcases hresult : exec (change.run env (s.object second)) s.acl with ⟨stop | entry', t⟩
  · have hvalue := exec_run_eq_error hresult
    simp only [Except.isOk, Except.toBool, Bool.false_eq_true, if_false]
    refine ⟨hnames, ?_, stored, ?_, ?_⟩
    · rw [hvalue]
      exact hindex
    · rw [hvalue]
      exact hstored
    · rw [hvalue]
      exact hshown
  · obtain ⟨hagree, haccess⟩ := hcall stored hstored
    rw [← hobject] at hindex
    obtain ⟨rfl, hprivNames, hplaces, privileges, hroles, hwritten⟩ :=
      exec_run_eq_ok hstored hindex hresult
    obtain ⟨hflags, hdefined⟩ := storable_of_upToDate hagree haccess hroles
    have hfields : (change.entry (s.object second)).fields =
        change.apply (s.object second).fields := rfl
    obtain ⟨hfirst, hsecond⟩ := Session.names_keep hnames second change
    simp only [Except.isOk, Except.toBool, if_true]
    refine ⟨hsecond.trans hfirst.symm, ?_, _, hwritten, ?_⟩
    · simp only [hplaces]
      rw [hfirst, ← hobject]
      exact hindex
    · let row := { toNative env (change.entry (s.object second)) privileges with name := stored.name }
      have hagain : (shown env t.value row).Agree (change.entry (s.object second)).fields :=
        shown_written hprivNames hroles hdefined hflags rfl rfl rfl
      rw [hfields] at hagain
      exact hagain.trans (hagree.trans (change.agree_apply hshown))

/-! ## Whole runs -/

/-- When every call is made on an object that is up to date, each field has the value of
the last accepted setter that names it. -/
theorem Session.fields_of_run {i : Nat} {s : Session} {stored : NativeEntry}
    {calls : List (Bool × Change)} (hnames : s.second.name = s.first.name)
    (hindex : s.acl.value.entries.findIdx? (fun e => e.name = oldName env s.first.name) = some i)
    (hstored : s.acl.value.entries[i]? = some stored)
    (h : Run.Along (Session.step env) (Session.UpToDate env i) s calls) :
    ∃ after, (Run.after (Session.step env) s calls).acl.value.entries[i]? = some after ∧
      (shown env (Run.after (Session.step env) s calls).acl.value after).Agree
        (s.lastSet env (shown env s.acl.value stored) calls) := by
  have hrun : ∀ (calls : List (Bool × Change)) (s : Session) (v : Fields), s.Shared env i v →
      Run.Along (Session.step env) (Session.UpToDate env i) s calls →
      (Run.after (Session.step env) s calls).Shared env i (s.lastSet env v calls) := by
    intro calls
    induction calls with
    | nil => exact fun s v hshared _ => hshared
    | cons call calls ih => exact fun s v hshared halong => ih _ _ (hshared.step halong.1) halong.2
  exact (hrun calls s _ ⟨hnames, hindex, stored, hstored, .refl _⟩ h).shows

/-! ## Two objects of a person's entry -/

/-- Two objects that have just been read. -/
def sampleSession : Session := ⟨sampleAcl 0, sampleObject, sampleObject⟩

/-- The level set through one object, then the whole access through the other. -/
theorem fields_of_run_access : ∃ after,
    (Run.after (Session.step sampleEnv) sampleSession
        [(false, .level 3), (true, .access ⟨2, [], 0⟩)]).acl.value.entries[0]? = some after ∧
      (shown sampleEnv (Run.after (Session.step sampleEnv) sampleSession
          [(false, .level 3), (true, .access ⟨2, [], 0⟩)]).acl.value after).Agree
        (sampleSession.lastSet sampleEnv
          (shown sampleEnv sampleSession.acl.value (sampleEntry 0))
          [(false, .level 3), (true, .access ⟨2, [], 0⟩)]) := by
  have hfirst : sampleSession.UpToDate sampleEnv 0 (false, .level 3) := by
    intro stored hstored
    cases hstored
    exact ⟨⟨rfl, rfl, fun _ => Iff.rfl, rfl, rfl⟩, fun _ h => by cases h⟩
  have hsecond : (Session.step sampleEnv sampleSession (false, .level 3)).UpToDate sampleEnv 0
      (true, .access ⟨2, [], 0⟩) := by
    intro stored hstored
    have hwritten : (Session.step sampleEnv sampleSession
        (false, .level 3)).acl.value.entries[0]? = some { sampleEntry 0 with level := 3 } := by
      decide +kernel
    rw [hwritten] at hstored
    cases hstored
    refine ⟨⟨rfl, rfl, fun _ => Iff.rfl, by decide +kernel, by decide +kernel⟩, ?_⟩
    intro value hvalue
    cases hvalue
    exact ⟨rfl, .inr fun _ hrole => by cases hrole⟩
  exact Session.fields_of_run rfl (by decide +kernel) rfl ⟨hfirst, hsecond, trivial⟩

/-- The level that is set through one object is undone through the other. -/
theorem not_fields_of_run :
    (exec (getEntry sampleEnv sampleObject.name) sampleSession.acl).1 = .ok (some sampleObject) ∧
    ∃ after, (Run.after (Session.step sampleEnv) sampleSession
        [(false, .level 2), (true, .type .group)]).acl.value.entries[0]? = some after ∧
      ¬ (shown sampleEnv (Run.after (Session.step sampleEnv) sampleSession
          [(false, .level 2), (true, .type .group)]).acl.value after).Agree
        (sampleSession.lastSet sampleEnv
          (shown sampleEnv sampleSession.acl.value (sampleEntry 0))
          [(false, .level 2), (true, .type .group)]) := by
  have hwritten : (Run.after (Session.step sampleEnv) sampleSession
      [(false, .level 2), (true, .type .group)]).acl.value.entries[0]? =
        some ⟨[0x58], 4, 0, principalTypeGroup⟩ := by decide +kernel
  have hlast : (sampleSession.lastSet sampleEnv
      (shown sampleEnv sampleSession.acl.value (sampleEntry 0))
      [(false, .level 2), (true, .type .group)]).access.level = 2 := by decide +kernel
  refine ⟨by decide +kernel, _, hwritten, fun hagree => ?_⟩
  have hlevel := hagree.level.trans hlast
  exact absurd hlevel (by decide)

end Dmn.Acl
