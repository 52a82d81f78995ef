import Mathlib.Data.Bool.AllAny
import Dmn.Library.FlagWord
import Dmn.Verification.Acl.Roles
import Dmn.Verification.Acl.Updates

/-! # What a setter leaves alone

A setter writes the whole entry back from what was read of it. The parts that reading drops
are lost: flags outside of the masks, privileges without a role, high bits of the level. -/

namespace Dmn.Acl

open Exec Native

variable (env : Env)

/-! ## Setters of one field -/

inductive Setter where
  | name (value : List UInt8)
  | level (value : UInt8)
  | type (value : PrincipalType)
  | administrationServer (value : Bool)

namespace Setter

/-- The call on an entry object. -/
def run : Setter → Entry → M Entry
  | .name value => Entry.setName env value
  | .level value => Entry.setLevel env value
  | .type value => Entry.setType env value
  | .administrationServer value => Entry.setAdministrationServer env value

/-- What the call makes of the object. -/
def change : Setter → Entry → Entry
  | .name value, entry => { entry with name := value }
  | .level value, entry => { entry with access := { entry.access with level := value } }
  | .type value, entry => { entry with type := value }
  | .administrationServer value, entry => { entry with administrationServer := value }

theorem run_eq (setter : Setter) (entry : Entry) :
    setter.run env entry = Entry.setWith env setter.change entry := by
  cases setter <;> rfl

def namesName : Setter → Bool
  | .name _ => true
  | _ => false

def namesLevel : Setter → Bool
  | .level _ => true
  | _ => false

/-- The flags that stand for the named field. -/
def namedFlags : Setter → UInt16
  | .type _ => principalTypeMask
  | .administrationServer _ => aclFlagAdminServer
  | _ => 0

/-- Only the named field differs. -/
structure OnlyNamed (setter : Setter) (before after : NativeEntry) : Prop where
  name : setter.namesName = false → after.name = before.name
  level : setter.namesLevel = false → after.level = before.level
  privileges : after.privileges = before.privileges
  flags : after.flags &&& ~~~setter.namedFlags = before.flags &&& ~~~setter.namedFlags

end Setter

/-! ## Flags -/

/-- The flags that an entry object does not hold. -/
def unreadFlags : UInt16 := ~~~(entryFlagMask ||| principalTypeMask ||| aclFlagAdminServer)

theorem nativeFlags_eq (value : Entry) : nativeFlags value =
    value.access.flags ||| value.type.bits |||
      (if value.administrationServer then aclFlagAdminServer else 0) := by
  unfold nativeFlags
  cases value.administrationServer with
  | false => simp
  | true => simp

/-- The mark of the administration server is one bit. -/
theorem administrationServer_flags (flags : UInt16) :
    (if (decide (flags &&& aclFlagAdminServer ≠ 0)) then aclFlagAdminServer else 0) =
      flags &&& aclFlagAdminServer := by
  have hbit : aclFlagAdminServer = UInt16.ofBitVec (BitVec.twoPow 16 15) := by decide
  have hcases := FlagWord.and_twoPow_cases flags 15
  rw [← hbit] at hcases
  rcases hcases with hzero | hset
  · simp [hzero]
  · rw [hset]
    decide

/-- What is read of an entry. -/
structure ReadFrom (acl : NativeAcl) (stored : NativeEntry) (entry : Entry) : Prop where
  name : entry.name = Lmbcs.toString env.codePage (cString stored.name)
  level : entry.access.level = stored.level.toUInt8
  roles : entry.access.roles = held env acl stored.privileges
  flags : entry.access.flags = stored.flags &&& entryFlagMask
  type : entry.type = PrincipalType.ofFlags stored.flags
  administrationServer : entry.administrationServer =
    decide (stored.flags &&& aclFlagAdminServer ≠ 0)
  legible : Legible env acl

theorem readFrom_of_readEntry {acl : NativeAcl} {stored : NativeEntry} {entry : Entry}
    (h : readEntry env acl stored = .ok entry) : ReadFrom env acl stored entry := by
  unfold readEntry at h
  cases hroles : rolesFromNative env acl stored.privileges with
  | error stop =>
      rw [hroles] at h
      cases h
  | ok roles =>
      have hlegible := legible_of_rolesFromNative hroles
      rw [rolesFromNative_of_legible hlegible] at hroles
      cases hroles
      rw [rolesFromNative_of_legible hlegible] at h
      cases h
      exact ⟨rfl, rfl, rfl, rfl, rfl, rfl, hlegible⟩

theorem nativeFlags_of_readFrom {acl : NativeAcl} {stored : NativeEntry} {entry : Entry}
    (h : ReadFrom env acl stored entry) : nativeFlags entry = stored.flags &&&
      (entryFlagMask ||| principalTypeMask ||| aclFlagAdminServer) := by
  rw [nativeFlags_eq, h.flags, h.type, h.administrationServer, administrationServer_flags,
    FlagWord.and_or, FlagWord.and_or]
  rfl

/-- A setter rebuilds the flags beside its field as they were read. -/
theorem nativeFlags_change (setter : Setter) (entry : Entry) :
    nativeFlags (setter.change entry) &&& ~~~setter.namedFlags =
      nativeFlags entry &&& ~~~setter.namedFlags := by
  cases setter with
  | name value => rfl
  | level value => rfl
  | type value =>
      have hnone : ∀ type : PrincipalType, type.bits &&& ~~~principalTypeMask = 0 := by
        intro type
        have hmask : principalTypeMask &&& ~~~principalTypeMask = 0 := by decide
        rw [← type.masked, UInt16.and_assoc, hmask, UInt16.and_zero]
      simp only [nativeFlags_eq, Setter.change, Setter.namedFlags, FlagWord.or_and, hnone]
  | administrationServer value =>
      have hnone : ∀ mark : Bool,
          (if mark then aclFlagAdminServer else 0) &&& ~~~aclFlagAdminServer = 0 := by decide
      simp only [nativeFlags_eq, Setter.change, Setter.namedFlags, FlagWord.or_and, hnone]

/-- The rebuilt flags agree with the stored ones beside the named field exactly when no
unread flag is set. -/
theorem flags_kept_iff {acl : NativeAcl} {stored : NativeEntry} {entry : Entry}
    (h : ReadFrom env acl stored entry) (setter : Setter) :
    nativeFlags (setter.change entry) &&& ~~~setter.namedFlags =
      stored.flags &&& ~~~setter.namedFlags ↔ stored.flags &&& unreadFlags = 0 := by
  rw [nativeFlags_change, nativeFlags_of_readFrom env h, UInt16.and_assoc]
  have hmasks : ∀ named ∈ [0, principalTypeMask, aclFlagAdminServer],
      ((entryFlagMask ||| principalTypeMask ||| aclFlagAdminServer) &&& ~~~named) &&&
          unreadFlags = 0 ∧
        ((entryFlagMask ||| principalTypeMask ||| aclFlagAdminServer) &&& ~~~named) |||
          unreadFlags = ~~~named := List.all_iff_forall_prop.mp (by decide)
  obtain ⟨hdisjoint, hjoin⟩ := hmasks setter.namedFlags (by cases setter <;> simp [Setter.namedFlags])
  rw [← FlagWord.and_eq_and_or_iff stored.flags hdisjoint, hjoin]

/-! ## One call -/

/-- The call gets to overwrite the entry at index `i`. -/
def Reaches (s : Called NativeAcl) (i : Nat) (entry : Entry) (setter : Setter) : Prop :=
  env.native.status s.calls = .noError ∧
    s.value.entries.findIdx? (fun stored => stored.name = oldName env entry.name) = some i ∧
    (newName env entry.name (setter.change entry) = oldName env entry.name ∨
      Table.lookup NativeEntry.name (newName env entry.name (setter.change entry))
        s.value.entries = none)

/-- The stored entry has nothing that an entry object cannot hold, beside the level that
`set_level` replaces. -/
def Holdable (acl : NativeAcl) (stored : NativeEntry) (setter : Setter) : Prop :=
  (setter.namesLevel = false → stored.level.toNat < 256) ∧
    stored.flags &&& unreadFlags = 0 ∧ Populated env acl stored.privileges

variable {env}

theorem Setter.OnlyNamed.refl (setter : Setter) (stored : NativeEntry) :
    setter.OnlyNamed stored stored :=
  ⟨fun _ => rfl, fun _ => rfl, rfl, rfl⟩

theorem exec_run_snd (setter : Setter) (entry : Entry) (s : Called NativeAcl) :
    (exec (setter.run env entry) s).2 =
      (exec (updateEntry env entry.name (setter.change entry)) s).2 := by
  rw [Setter.run_eq, exec_setWith]
  rcases exec (updateEntry env entry.name (setter.change entry)) s with ⟨_ | _, t⟩ <;> rfl

theorem roles_change (setter : Setter) (entry : Entry) :
    (setter.change entry).access.roles = entry.access.roles := by
  cases setter <;> rfl

theorem level_change {setter : Setter} (entry : Entry) (h : setter.namesLevel = false) :
    (setter.change entry).access.level = entry.access.level := by
  cases setter with
  | level value => cases h
  | name value => rfl
  | type value => rfl
  | administrationServer value => rfl

theorem name_change {setter : Setter} (entry : Entry) (h : setter.namesName = false) :
    (setter.change entry).name = entry.name := by
  cases setter with
  | name value => cases h
  | level value => rfl
  | type value => rfl
  | administrationServer value => rfl

theorem toUInt16_toUInt8_eq_iff (level : UInt16) :
    level.toUInt8.toUInt16 = level ↔ level.toNat < 256 := by
  rw [← UInt16.toNat_inj]
  simp only [UInt8.toNat_toUInt16, UInt16.toNat_toUInt8]
  omega

/-- The entry that a call writes differs in the named field only exactly when an entry
object could hold the stored one. -/
theorem onlyNamed_overwrite_iff {acl : NativeAcl} {stored : NativeEntry} {entry : Entry}
    (h : ReadFrom env acl stored entry) (hunsplit : Unsplit env acl stored.privileges)
    (setter : Setter) :
    setter.OnlyNamed stored (overwrite (selectedParts entry.name (setter.change entry))
      (toNative env (setter.change entry) (assigned env acl (held env acl stored.privileges)))
      stored) ↔ Holdable env acl stored setter := by
  rw [overwrite_selectedParts]
  have hlevel : setter.namesLevel = false →
      ((setter.change entry).access.level.toUInt16 = stored.level ↔ stored.level.toNat < 256) := by
    intro hnot
    rw [level_change entry hnot, h.level, toUInt16_toUInt8_eq_iff]
  constructor
  · intro honly
    refine ⟨fun hnot => (hlevel hnot).mp (honly.level hnot), ?_, ?_⟩
    · exact (flags_kept_iff env h setter).mp honly.flags
    · exact (assigned_held_eq_iff hunsplit).mp honly.privileges
  · intro hholdable
    obtain ⟨hsmall, hflags, hpopulated⟩ := hholdable
    refine ⟨fun hnot => ?_, fun hnot => (hlevel hnot).mpr (hsmall hnot), ?_, ?_⟩
    · exact if_pos (name_change entry hnot)
    · exact (assigned_held_eq_iff hunsplit).mpr hpopulated
    · exact (flags_kept_iff env h setter).mpr hflags

/-- A setter on an object that was just read changes only the named field of the stored
entry, exactly if the entry is not overwritten or an object can hold it. -/
theorem setter_frame_iff {s : Called NativeAcl} {i : Nat} {stored : NativeEntry} {entry : Entry}
    (hstored : s.value.entries[i]? = some stored)
    (hread : readEntry env s.value stored = .ok entry) (setter : Setter) :
    (∃ after, (exec (setter.run env entry) s).2.value.entries[i]? = some after ∧
        setter.OnlyNamed stored after) ↔
      (Unsplit env s.value stored.privileges → Reaches env s i entry setter →
        Holdable env s.value stored setter) := by
  have h := readFrom_of_readEntry env hread
  have hroles : (setter.change entry).access.roles = held env s.value stored.privileges := by
    rw [roles_change, h.roles]
  rw [exec_run_snd, exec_updateEntry, hroles]
  by_cases hunsplit : Unsplit env s.value stored.privileges
  · rw [rolesToNative_held h.legible hunsplit]
    simp only
    by_cases hstatus : updateStatus env s (oldName env entry.name)
        (selectedParts entry.name (setter.change entry))
        (toNative env (setter.change entry)
          (assigned env s.value (held env s.value stored.privileges))).name = .noError
    · rw [if_pos hstatus]
      obtain ⟨hquiet, _, hfree⟩ := (updateStatus_eq_noError_iff env).mp hstatus
      simp only [Table.getElem?_modify, hstored]
      by_cases hindex : s.value.entries.findIdx? (fun stored =>
          stored.name = oldName env entry.name) = some i
      · rw [if_pos hindex]
        simp only [Option.map_some, Option.some.injEq, exists_eq_left']
        rw [onlyNamed_overwrite_iff h hunsplit setter]
        exact ⟨fun hholdable _ _ => hholdable,
          fun hholdable => hholdable hunsplit ⟨hquiet, hindex, hfree⟩⟩
      · rw [if_neg hindex]
        exact iff_of_true ⟨stored, rfl, .refl _ _⟩ fun _ hreaches => absurd hreaches.2.1 hindex
    · rw [if_neg hstatus]
      refine iff_of_true ⟨stored, hstored, .refl _ _⟩ fun _ hreaches => ?_
      obtain ⟨hquiet, hindex, hfree⟩ := hreaches
      have hfound := Table.exists_lookup_of_findIdx? NativeEntry.name hindex
      exact absurd ((updateStatus_eq_noError_iff env).mpr ⟨hquiet, hfound, hfree⟩) hstatus
  · rw [rolesToNative_of_legible h.legible, if_neg (mt length_holdings_held_iff.mp hunsplit)]
    exact iff_of_true ⟨stored, hstored, .refl _ _⟩ fun hsplit => absurd hsplit hunsplit

/-! ## Two entries -/

/-- An entry of a person with these further flags. -/
def sampleEntry (flags : UInt16) : NativeEntry :=
  ⟨[0x58], 4, 0, principalTypePerson ||| flags⟩

def sampleAcl (flags : UInt16) : Called NativeAcl := ⟨0, fun _ => none, [sampleEntry flags]⟩

/-- What is read of the entry, whatever flags outside of the masks it has. -/
def sampleObject : Entry := ⟨[0x58], ⟨4, [], 0⟩, .person, false⟩

/-- `set_level` on an entry that an object can hold. -/
theorem setLevel_onlyNamed : ∃ after,
    (exec ((Setter.level 2).run sampleEnv sampleObject) (sampleAcl 0)).2.value.entries[0]? =
        some after ∧
      (Setter.level 2).OnlyNamed (sampleEntry 0) after := by
  have hread : readEntry sampleEnv (sampleAcl 0).value (sampleEntry 0) = .ok sampleObject := by
    decide +kernel
  refine (setter_frame_iff rfl hread (.level 2)).mpr fun _ _ => ⟨fun hnot => ?_, by decide, ?_⟩
  · cases hnot
  · intro num hset
    simp [isPrivSet, sampleEntry] at hset

/-- `set_level` clears the flag `0x4000` of the entry that was just read. -/
theorem not_setLevel_onlyNamed :
    readEntry sampleEnv (sampleAcl 0x4000).value (sampleEntry 0x4000) = .ok sampleObject ∧
      ¬ ∃ after, (exec ((Setter.level 2).run sampleEnv sampleObject)
          (sampleAcl 0x4000)).2.value.entries[0]? = some after ∧
        (Setter.level 2).OnlyNamed (sampleEntry 0x4000) after := by
  refine ⟨by decide +kernel, ?_⟩
  intro hkept
  obtain ⟨after, hafter, honly⟩ := hkept
  have hwritten : (exec ((Setter.level 2).run sampleEnv sampleObject)
      (sampleAcl 0x4000)).2.value.entries[0]? = some { sampleEntry 0 with level := 2 } := by
    decide +kernel
  rw [hwritten] at hafter
  cases hafter
  exact absurd honly.flags (by decide)

end Dmn.Acl
