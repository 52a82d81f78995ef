import Dmn.Library.Run
import Dmn.Verification.Acl.Roles
import Dmn.Verification.Acl.Updates

/-! # The check of listed roles

The check compares the number of slots that hold a listed role with the length of the list.
Slots that repeat a role and listings that repeat one both count, so that the numbers can
agree although a role is missing, and differ although none is. -/

namespace Dmn.Acl

open Exec

variable (env : Env)

/-! ## Runs on the role table -/

inductive RoleOp where
  | insert (value : Role)
  | set (key : Nat) (value : Role)

def performRole : RoleOp → M Unit
  | .insert value => RoleMap.insert env value
  | .set key value => RoleMap.set env key value

def roleStep (s : Called NativeAcl) (op : RoleOp) : Called NativeAcl :=
  (exec (performRole env op) s).2

/-! ## The numbers that are compared -/

/-- How many entries of a list repeat another one. -/
def repeats (roles : List Role) : Nat := roles.length - roles.dedup.length

/-- The listed roles that no slot shows. -/
def undefinedRoles (acl : NativeAcl) (roles : List Role) : List Role :=
  roles.dedup.filter (¬ Defined env acl ·)

/-- The counts tell whether a listed role is missing: with none missing, all slots can be
read and repeat as many listed roles as the list repeats; with some missing, the repeated
slots do not make up for them. -/
def CountsTell (acl : NativeAcl) (roles : List Role) : Prop :=
  if undefinedRoles env acl roles = [] then
    Legible env acl ∧ repeats (holdings env acl roles) = repeats roles
  else Legible env acl → repeats (holdings env acl roles) ≠
    repeats roles + (undefinedRoles env acl roles).length

instance (acl : NativeAcl) (roles : List Role) : Decidable (CountsTell env acl roles) := by
  unfold CountsTell
  infer_instance

variable {env}

theorem undefinedRoles_eq_nil_iff {acl : NativeAcl} {roles : List Role} :
    undefinedRoles env acl roles = [] ↔ ∀ role ∈ roles, Defined env acl role := by
  simp [undefinedRoles, List.filter_eq_nil_iff]

theorem length_dedup_add_repeats (roles : List Role) :
    roles.dedup.length + repeats roles = roles.length := by
  have := roles.dedup_sublist.length_le
  unfold repeats
  omega

/-- Each listed role is held by a slot or missing. -/
theorem length_dedup_holdings (acl : NativeAcl) (roles : List Role) :
    (holdings env acl roles).dedup.length + (undefinedRoles env acl roles).length =
      roles.dedup.length := by
  have hperm : (holdings env acl roles).dedup.Perm
      (roles.dedup.filter (Defined env acl ·)) := by
    rw [List.perm_ext_iff_of_nodup (List.nodup_dedup _) ((List.nodup_dedup _).filter _)]
    intro role
    simp only [List.mem_dedup, holdings, List.mem_filter, decide_eq_true_eq, ← defined_iff]
    exact and_comm
  have hsplit := List.length_eq_length_filter_add (l := roles.dedup) (Defined env acl ·)
  rw [hperm.length_eq, undefinedRoles, hsplit]
  simp

/-- The lengths agree when the repeated slots make up for repeated and missing listings. -/
theorem length_holdings_eq_iff {acl : NativeAcl} {roles : List Role} :
    (holdings env acl roles).length = roles.length ↔ repeats (holdings env acl roles) =
      repeats roles + (undefinedRoles env acl roles).length := by
  have hholdings := length_dedup_add_repeats (holdings env acl roles)
  have hroles := length_dedup_add_repeats roles
  have hsplit : (holdings env acl roles).dedup.length + (undefinedRoles env acl roles).length =
      roles.dedup.length := length_dedup_holdings acl roles
  omega

/-! ## Calls that check roles -/

/-- The call throws `invalid_argument` exactly for a missing role, and the entry it stores
under `name` decodes to the listed roles. -/
structure RolesChecked (env : Env) {α : Type} (s : Called NativeAcl) (roles : List Role) (call : M α)
    (name : List UInt8) : Prop where
  throws_iff : (∃ message, (exec call s).1 = .error (.throws (.invalidArgument message))) ↔
    ∃ role ∈ roles, ¬ Defined env s.value role
  decodes : ∀ a, (exec call s).1 = .ok a → ∃ stored decoded,
    Table.lookup NativeEntry.name name (exec call s).2.value.entries = some stored ∧
      rolesFromNative env (exec call s).2.value stored.privileges = .ok decoded ∧
      ∀ role, role ∈ decoded ↔ role ∈ roles

theorem exists_undefined_iff {acl : NativeAcl} {roles : List Role} :
    (∃ role ∈ roles, ¬ Defined env acl role) ↔ undefinedRoles env acl roles ≠ [] := by
  rw [Ne, undefinedRoles_eq_nil_iff]
  simp

/-- When the roles are refused is decided by the counts. -/
theorem rolesToNative_throws_iff {acl : NativeAcl} {roles : List Role} :
    ((∃ message, rolesToNative env acl roles =
        .error (.throws (.invalidArgument message))) ↔
      ∃ role ∈ roles, ¬ Defined env acl role) ↔ CountsTell env acl roles := by
  rw [exists_undefined_iff]
  by_cases hlegible : Legible env acl
  · have hthrows : (∃ message, rolesToNative env acl roles =
        .error (.throws (.invalidArgument message))) ↔
          (holdings env acl roles).length ≠ roles.length := by
      rw [rolesToNative_of_legible hlegible]
      by_cases hcount : (holdings env acl roles).length = roles.length
      · simp [hcount]
      · simp [hcount]
    rw [hthrows, Ne, length_holdings_eq_iff]
    unfold CountsTell
    by_cases hnone : undefinedRoles env acl roles = []
    · simp [hnone, hlegible]
    · simp [hnone, hlegible]
  · have hthrows : ∃ message, rolesToNative env acl roles =
        .error (.throws (.invalidArgument message)) :=
      ⟨_, rolesToNative_of_not_legible hlegible roles⟩
    unfold CountsTell
    by_cases hnone : undefinedRoles env acl roles = []
    · simp [hnone, hlegible, hthrows]
    · simp [hnone, hlegible, hthrows]

/-- Defined roles are read back as they were assigned. -/
theorem rolesFromNative_assigned {acl acl' : NativeAcl} {roles : List Role}
    (hlegible : Legible env acl) (hnames : acl'.privNames = acl.privNames)
    (hdefined : ∀ role ∈ roles, Defined env acl role) :
    ∃ decoded, rolesFromNative env acl' (assigned env acl roles) = .ok decoded ∧
      ∀ role, role ∈ decoded ↔ role ∈ roles := by
  have hread := rolesFromNative_of_legible ((legible_of_privNames hnames).mpr hlegible)
    (assigned env acl roles)
  refine ⟨_, hread, fun role => ?_⟩
  rw [held_of_privNames hnames, mem_held_assigned]
  exact ⟨fun h => h.1, fun hlisted => ⟨hlisted, hdefined role hlisted⟩⟩

/-- A call that looks up the roles first, and stores the privileges if it succeeds. -/
theorem rolesChecked_iff {α : Type} {s : Called NativeAcl} {roles : List Role} {call : M α}
    {name : List UInt8}
    (herror : ∀ stop, rolesToNative env s.value roles = .error stop →
      (exec call s).1 = .error stop)
    (hother : ∀ privileges, rolesToNative env s.value roles = .ok privileges →
      ∀ message, (exec call s).1 ≠ .error (.throws (.invalidArgument message)))
    (hstored : ∀ privileges, rolesToNative env s.value roles = .ok privileges →
      ∀ a, (exec call s).1 = .ok a →
        (exec call s).2.value.privNames = s.value.privNames ∧ ∃ stored,
          Table.lookup NativeEntry.name name (exec call s).2.value.entries = some stored ∧
            stored.privileges = privileges) :
    RolesChecked env s roles call name ↔ CountsTell env s.value roles := by
  have hthrows : (∃ message, (exec call s).1 = .error (.throws (.invalidArgument message))) ↔
      ∃ message, rolesToNative env s.value roles =
        .error (.throws (.invalidArgument message)) := by
    cases hroles : rolesToNative env s.value roles with
    | error stop => simp [herror stop hroles]
    | ok privileges => simp [hother privileges hroles]
  rw [← rolesToNative_throws_iff, ← hthrows]
  refine ⟨fun h => h.throws_iff, fun h => ⟨h, fun a hok => ?_⟩⟩
  cases hroles : rolesToNative env s.value roles with
  | error stop =>
      rw [herror stop hroles] at hok
      cases hok
  | ok privileges =>
      obtain ⟨hnames, stored, hlookup, hprivileges⟩ := hstored privileges hroles a hok
      have hlegible : Legible env s.value := by
        by_contra hnot
        rw [rolesToNative_of_not_legible hnot] at hroles
        cases hroles
      have hdefined : ∀ role ∈ roles, Defined env s.value role := by
        intro role hrole
        by_contra hmissing
        obtain ⟨message, hmessage⟩ := h.mpr ⟨role, hrole, hmissing⟩
        exact hother privileges hroles message hmessage
      rw [rolesToNative_of_legible hlegible] at hroles
      split at hroles
      · cases hroles
        obtain ⟨decoded, hdecoded, hmem⟩ := rolesFromNative_assigned hlegible hnames hdefined
        refine ⟨stored, decoded, hlookup, ?_, hmem⟩
        rw [hprivileges]
        exact hdecoded
      · cases hroles

variable (env) in
theorem rolesChecked_addEntry_iff (s : Called NativeAcl) (name : List UInt8) (value : Access)
    (type : PrincipalType) :
    RolesChecked env s value.roles (addEntry env name value type)
      (cString (Lmbcs.fromString env.codePage name)) ↔ CountsTell env s.value value.roles := by
  refine rolesChecked_iff ?_ ?_ ?_
  · intro stop hroles
    rw [exec_addEntry, hroles]
  · intro privileges hroles message
    rw [exec_addEntry, hroles]
    simp only
    split
    · simp
    · simp
  · intro privileges hroles a hok
    rw [exec_addEntry, hroles] at hok ⊢
    simp only at hok ⊢
    split at hok
    · rename_i hstatus
      have hfree := addStatus_eq_noError env hstatus
      rw [if_pos hstatus]
      exact ⟨rfl, _, Table.lookup_append_of_none NativeEntry.name _ hfree rfl, rfl⟩
    · cases hok

variable (env) in
theorem rolesChecked_updateEntry_iff (s : Called NativeAcl) (name : List UInt8)
    (entry : Entry) :
    RolesChecked env s entry.access.roles (updateEntry env name entry)
      (newName env name entry) ↔ CountsTell env s.value entry.access.roles := by
  refine rolesChecked_iff ?_ ?_ ?_
  · intro stop hroles
    rw [exec_updateEntry, hroles]
  · intro privileges hroles message
    rw [exec_updateEntry, hroles]
    simp only
    split
    · simp
    · simp
  · intro privileges hroles a hok
    rw [exec_updateEntry, hroles] at hok ⊢
    simp only at hok ⊢
    split at hok
    · rename_i hstatus
      obtain ⟨_, ⟨old, hold⟩, hfree⟩ := (updateStatus_eq_noError_iff env).mp hstatus
      have hkey := Table.key_of_lookup NativeEntry.name hold
      have hname : (overwrite (selectedParts name entry) (toNative env entry privileges)
          old).name = newName env name entry := name_overwrite env hkey
      rw [if_pos hstatus]
      refine ⟨rfl, _, Table.lookup_modify NativeEntry.name hold hname hfree, ?_⟩
      rw [overwrite_selectedParts]
      rfl
    · cases hok

variable (env) in
/-- After every run on the role table, both calls check a list of roles as they should
exactly when the counts tell whether one is missing. -/
theorem roles_checked_iff (start : Called NativeAcl) (ops : List RoleOp) (name : List UInt8)
    (value : Access) (type : PrincipalType) (entry : Entry) :
    let s := Run.after (roleStep env) start ops
    (RolesChecked env s value.roles (addEntry env name value type)
        (cString (Lmbcs.fromString env.codePage name)) ↔ CountsTell env s.value value.roles) ∧
      (RolesChecked env s entry.access.roles (updateEntry env name entry)
          (newName env name entry) ↔ CountsTell env s.value entry.access.roles) :=
  ⟨rolesChecked_addEntry_iff env _ name value type, rolesChecked_updateEntry_iff env _ name entry⟩

/-! ## A missing role -/

def roleA : Role := ⟨[0x41], by decide⟩

def roleB : Role := ⟨[0x42], by decide⟩

/-- With the role A in two slots, an entry with the roles A and B is accepted. -/
theorem not_rolesChecked_missing :
    ¬ RolesChecked sampleEnv
      (Run.after (roleStep sampleEnv) ⟨0, fun _ => none, []⟩ [.insert roleA, .insert roleA])
      [roleA, roleB] (addEntry sampleEnv [0x58] ⟨2, [roleA, roleB], 0⟩ .person)
      (cString (Lmbcs.fromString utf8 [0x58])) := by
  intro hchecked
  have hcounts := (rolesChecked_addEntry_iff sampleEnv _ [0x58] ⟨2, [roleA, roleB], 0⟩
    .person).mp hchecked
  revert hcounts
  decide +kernel

end Dmn.Acl
