import Mathlib.Data.List.Perm.Subperm
import Mathlib.Data.Prod.Basic
import Dmn.Verification.Acl.NativeName
import Dmn.Verification.Acl.SharedEntry

/-! # An entry that was just added

An object keeps its roles as they were listed. They are read back in the order of the slots that
hold them. -/

namespace Dmn.Acl

open Exec Native

variable (env : Env)

/-! ## Reading entries -/

/-- The object that is read of a stored entry. -/
def asRead (acl : NativeAcl) (stored : NativeEntry) : Entry :=
  let v := shown env acl stored
  ⟨Lmbcs.toString env.codePage (cString stored.name), v.access, v.type, v.administrationServer⟩

variable {env}

theorem readEntry_of_legible {acl : NativeAcl} (h : Legible env acl) (stored : NativeEntry) :
    readEntry env acl stored = .ok (asRead env acl stored) := by
  rw [readEntry, rolesFromNative_of_legible h]
  rfl

theorem mapM_readEntry {acl : NativeAcl} (h : Legible env acl) (stored : List NativeEntry) :
    stored.mapM (readEntry env acl) = .ok (stored.map (asRead env acl)) := by
  have hread : readEntry env acl = fun stored => pure (asRead env acl stored) :=
    funext (readEntry_of_legible h)
  rw [hread, List.mapM_pure]
  rfl

theorem exec_entries {s : Called NativeAcl} (hstatus : env.native.status s.calls = .noError)
    (h : Legible env s.value) :
    exec (entries env) s =
      (.ok (s.value.entries.map (asRead env s.value)), ⟨s.calls + 1, s.value⟩) := by
  have hthrow : exec (Status.noError.throwIfError "Failed to read ACL entries" : M Unit)
      ⟨s.calls + 1, s.value⟩ = (.ok (), ⟨s.calls + 1, s.value⟩) := rfl
  rw [entries, exec_bind_of_ok (exec_call s), hstatus, exec_bind_of_ok hthrow,
    exec_bind_of_ok (Native.exec_value _), exec_ofExcept, mapM_readEntry h]

/-- `get_entry` looks through the objects that are read. -/
theorem exec_getEntry {s : Called NativeAcl} (hstatus : env.native.status s.calls = .noError)
    (h : Legible env s.value) (name : List UInt8) :
    (exec (getEntry env name) s).1 =
      .ok ((s.value.entries.map (asRead env s.value)).find? fun entry => entry.name = name) := by
  rw [getEntry, exec_bind_of_ok (exec_entries hstatus h)]
  rfl

/-- The last entry is read under a name that no other entry is read under. -/
theorem find?_asRead_append {acl : NativeAcl} {stored : List NativeEntry} {new : NativeEntry}
    {name : List UInt8}
    (habsent : ∀ e ∈ stored, Lmbcs.toString env.codePage (cString e.name) ≠ name) :
    ((stored ++ [new]).map (asRead env acl)).find? (fun entry => entry.name = name) =
      if (asRead env acl new).name = name then some (asRead env acl new) else none := by
  have hnone : (stored.map (asRead env acl)).find? (fun entry => entry.name = name) = none := by
    rw [List.find?_eq_none]
    intro entry hentry
    obtain ⟨e, he, rfl⟩ := List.mem_map.mp hentry
    rw [decide_eq_true_eq]
    exact habsent e he
  rw [List.map_append, List.find?_append, hnone]
  by_cases hname : (asRead env acl new).name = name
  · simp [hname]
  · simp [hname]

/-! ## The order of roles -/

variable (env) in
/-- The roles are listed in the order of their slots. -/
def InSlotOrder (acl : NativeAcl) (roles : List Role) : Prop :=
  roles.Sublist ((slots env acl).map Prod.snd)

theorem holdings_eq_self_iff {acl : NativeAcl} {roles : List Role}
    (hdistinct : (holdings env acl roles).Nodup) :
    holdings env acl roles = roles ↔ InSlotOrder env acl roles := by
  constructor
  · intro heq
    rw [InSlotOrder, ← heq]
    exact List.filter_sublist
  · intro hsublist
    have hlisted : roles.filter (· ∈ roles) = roles := by simp
    have hholdings : roles.Sublist (holdings env acl roles) := by
      have hfilter := hsublist.filter (· ∈ roles)
      rwa [hlisted] at hfilter
    have hsubset : holdings env acl roles ⊆ roles := by
      intro role hrole
      simpa using (List.mem_filter.mp hrole).2
    exact (hholdings.eq_of_length_le (hdistinct.subperm hsubset).length_le).symm

/-! ## Adding an entry -/

variable (env) in
/-- The entry can be read back: its name survives the conversions, its flags are those of `flag`,
and its roles are listed in the order of their slots. -/
structure ReadsBack (acl : NativeAcl) (name : List UInt8) (value : Access) : Prop where
  name : Carried env name
  flags : value.flags &&& entryFlagMask = value.flags
  roles : InSlotOrder env acl value.roles

/-- What `add_entry` leaves. -/
theorem exec_addEntry_eq_ok {s t : Called NativeAcl} {name : List UInt8} {value : Access}
    {type : PrincipalType} {entry : Entry}
    (h : exec (addEntry env name value type) s = (.ok entry, t)) :
    Legible env s.value ∧ entry = ⟨name, value, type, false⟩ ∧
      t.value.privNames = s.value.privNames ∧ t.value.entries = s.value.entries ++
        [toNative env ⟨name, value, type, false⟩ (assigned env s.value value.roles)] := by
  rw [exec_addEntry] at h
  by_cases hlegible : Legible env s.value
  · rw [rolesToNative_of_legible hlegible] at h
    by_cases hcount : (holdings env s.value value.roles).length = value.roles.length
    · rw [if_pos hcount] at h
      simp only at h
      split at h
      · cases h
        exact ⟨hlegible, rfl, rfl, rfl⟩
      · cases h
    · rw [if_neg hcount] at h
      cases h
  · rw [rolesToNative_of_not_legible hlegible] at h
    cases h

theorem asRead_toNative_iff {acl acl' : NativeAcl} (hnames : acl'.privNames = acl.privNames)
    {name : List UInt8} {value : Access} {type : PrincipalType}
    (hdistinct : (holdings env acl value.roles).Nodup) :
    asRead env acl' (toNative env ⟨name, value, type, false⟩ (assigned env acl value.roles)) =
      ⟨name, value, type, false⟩ ↔ ReadsBack env acl name value := by
  have hheld : held env acl' (assigned env acl value.roles) = holdings env acl value.roles := by
    rw [held_of_privNames hnames, held_assigned]
  constructor
  · intro heq
    have hname : Lmbcs.toString env.codePage (cString (cString (Lmbcs.fromString env.codePage name))) =
        name := congrArg Entry.name heq
    have hflags : nativeFlags ⟨name, value, type, false⟩ &&& entryFlagMask = value.flags :=
      congrArg (fun e => e.access.flags) heq
    have hroles : held env acl' (assigned env acl value.roles) = value.roles :=
      congrArg (fun e => e.access.roles) heq
    refine ⟨?_, ?_, ?_⟩
    · rwa [cString_cString] at hname
    · rw [← hflags, UInt16.and_assoc, UInt16.and_self]
    · rw [hheld] at hroles
      exact (holdings_eq_self_iff hdistinct).mp hroles
  · intro hreads
    have hroles := (holdings_eq_self_iff hdistinct).mpr hreads.roles
    obtain ⟨hflags, htype, hmark⟩ := @nativeFlags_parts ⟨name, value, type, false⟩ hreads.flags
    have hlevel : value.level.toUInt16.toUInt8 = value.level := by simp
    have hshown : shown env acl' (toNative env ⟨name, value, type, false⟩
        (assigned env acl value.roles)) = ⟨value, type, false⟩ := by
      simp only [shown, toNative, hlevel, hheld, hroles, hflags, PrincipalType.ofFlags, htype, hmark]
      rfl
    have hname : Lmbcs.toString env.codePage (cString (Lmbcs.fromString env.codePage name)) = name :=
      hreads.name
    rw [asRead, hshown]
    simp only [toNative, cString_cString, hname]

/-- After `add_entry` returned, `get_entry` reads an equal entry exactly if it can be read back. -/
theorem getEntry_addEntry_iff {s t : Called NativeAcl} {name : List UInt8} {value : Access}
    {type : PrincipalType} {entry : Entry}
    (hdistinct : (holdings env s.value value.roles).Nodup)
    (habsent : ∀ e ∈ s.value.entries, Lmbcs.toString env.codePage (cString e.name) ≠ name)
    (hadd : exec (addEntry env name value type) s = (.ok entry, t))
    (hstatus : env.native.status t.calls = .noError) :
    (exec (getEntry env name) t).1 = .ok (some entry) ↔ ReadsBack env s.value name value := by
  obtain ⟨hlegible, rfl, hnames, hentries⟩ := exec_addEntry_eq_ok hadd
  rw [exec_getEntry hstatus ((legible_of_privNames hnames).mpr hlegible), hentries,
    find?_asRead_append habsent, ← asRead_toNative_iff hnames hdistinct]
  by_cases hname : (asRead env t.value (toNative env ⟨name, value, type, false⟩
      (assigned env s.value value.roles))).name = name
  · rw [if_pos hname, Except.ok.injEq, Option.some.injEq]
  · rw [if_neg hname]
    refine iff_of_false (by simp) fun heq => hname ?_
    rw [heq]

/-! ## Two roles -/

/-- The role A in the first slot and B in the second one. -/
def twoRoles : Called NativeAcl where
  calls := 0
  value := {
    privNames := fun num =>
      if num = bitPrivCount then some [0x41] else if num = bitPrivCount + 1 then some [0x42] else none
    entries := [] }

/-- The access of a reader with these roles. -/
def reader (roles : List Role) : Access := ⟨2, roles, 0⟩

theorem getEntry_addEntry_sample :
    (exec (getEntry sampleEnv [0x58])
        (exec (addEntry sampleEnv [0x58] (reader [roleA, roleB]) .person) twoRoles).2).1 =
      .ok (some ⟨[0x58], reader [roleA, roleB], .person, false⟩) ↔
    ReadsBack sampleEnv twoRoles.value [0x58] (reader [roleA, roleB]) := by
  have hdistinct : (holdings sampleEnv twoRoles.value (reader [roleA, roleB]).roles).Nodup := by
    decide +kernel
  have hentry : (exec (addEntry sampleEnv [0x58] (reader [roleA, roleB]) .person) twoRoles).1 =
      .ok ⟨[0x58], reader [roleA, roleB], .person, false⟩ := by decide +kernel
  have hadd : exec (addEntry sampleEnv [0x58] (reader [roleA, roleB]) .person) twoRoles =
      (.ok ⟨[0x58], reader [roleA, roleB], .person, false⟩,
        (exec (addEntry sampleEnv [0x58] (reader [roleA, roleB]) .person) twoRoles).2) :=
    Prod.fst_eq_iff.mp hentry
  have hstatus : ∀ n, sampleEnv.native.status n = .noError := fun _ => rfl
  exact getEntry_addEntry_iff hdistinct nofun hadd (hstatus _)

/-- The roles that are listed as B and A are read back as A and B. -/
theorem getEntry_addEntry_swapped :
    let added := exec (addEntry sampleEnv [0x58] (reader [roleB, roleA]) .person) twoRoles
    added.1 = .ok ⟨[0x58], reader [roleB, roleA], .person, false⟩ ∧
      (exec (getEntry sampleEnv [0x58]) added.2).1 =
        .ok (some ⟨[0x58], reader [roleA, roleB], .person, false⟩) ∧
      (⟨[0x58], reader [roleA, roleB], .person, false⟩ : Entry) ≠
        ⟨[0x58], reader [roleB, roleA], .person, false⟩ := by
  decide +kernel

end Dmn.Acl
