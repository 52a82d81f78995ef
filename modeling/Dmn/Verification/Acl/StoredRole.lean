import Dmn.Verification.Acl.RoleTable

/-! # A role that was stored

Brackets are taken off a name when a role is made of it, and once more when the stored name is
read. A role whose name is in brackets is not read back. -/

namespace Dmn.Acl

open Exec Native

variable (env : Env)

/-! ## Reading the table -/

/-- Nothing stops a walk through the table. -/
structure Walkable (acl : NativeAcl) : Prop where
  size : ∃ n, RoleMap.size env acl = .ok n
  iterates : ∃ pairs, RoleMap.pairs env acl = .ok pairs
  inserts : ∀ value n message, (exec (RoleMap.insert env value) ⟨n, acl⟩).1 ≠
    .error (.throws (.invalidArgument message))

/-- The slot shows the role, and does not stop a walk that the other slots let pass. -/
structure Kept (acl : NativeAcl) (slot : Nat) (value : Role) : Prop where
  shows : RoleMap.get env acl slot = .ok value
  harmless : (∀ i < RoleMap.capacity, i ≠ slot → ∃ found, RoleMap.tryAt env acl i = .ok found) →
    Walkable env acl

/-- The call stores the role in the slot if it returns. -/
def StoresIn (acl : NativeAcl) (slot : Nat) (value : Role) : RoleOp → Prop
  | .set key role => key = slot ∧ role = value
  | .insert role => LowestFree acl slot ∧ role = value

variable {env}

theorem walkable_of_legible {acl : NativeAcl} (h : Legible env acl) : Walkable env acl := by
  refine ⟨?_, ⟨_, pairs_of_legible h⟩, ?_⟩
  · rw [size_eq, pairs_of_legible h]
    exact ⟨_, rfl⟩
  · intro value n message herror
    rcases exec_insert_cases value (⟨n, acl⟩ : Called NativeAcl) with
      ⟨slot, hfree, hexec⟩ | ⟨hnot, -⟩ | ⟨-, hexec⟩
    · rw [hexec] at herror
      obtain ⟨_, _, hstop⟩ := (exec_set_eq_error (Prod.ext herror rfl)).2 hfree.1
      cases hstop
    · exact hnot h
    · rw [hexec] at herror
      cases herror

theorem ne_nil_of_tryAt {acl : NativeAcl} {i : Nat} (hi : i < RoleMap.capacity)
    {found : Option Role} (h : RoleMap.tryAt env acl i = .ok found) :
    slotName env acl i ≠ some [] := by
  intro hname
  rw [tryAt_of_eq hi hname] at h
  cases h

/-- A slot that shows a role is harmless. -/
theorem kept_iff {acl : NativeAcl} {slot : Nat} {value : Role} :
    Kept env acl slot value ↔ RoleMap.get env acl slot = .ok value := by
  refine ⟨Kept.shows, fun hshows => ⟨hshows, fun hothers => walkable_of_legible fun i hi => ?_⟩⟩
  by_cases hslot : i = slot
  · subst hslot
    exact slotName_ne_of_get hshows
  · obtain ⟨found, hfound⟩ := hothers i hi hslot
    exact ne_nil_of_tryAt hi hfound

/-! ## The name of a stored role -/

theorem length_normalize_le (name : List UInt8) : (Role.normalize name).length ≤ name.length := by
  unfold Role.normalize
  split
  · simp only [List.length_take, List.length_drop]
    omega
  · exact Nat.le_refl _

/-- A name comes back as it was if it comes back unchanged and is not in brackets. -/
theorem normalize_carried_iff (hzero : Lmbcs.KeepsZero env.codePage) (name : List UInt8) :
    Role.normalize (carried env name) = name ↔ Carried env name ∧ Role.normalize name = name := by
  constructor
  · intro h
    have hbegin := carried_prefix hzero name
    have hlength := length_normalize_le (carried env name)
    rw [h] at hlength
    have hcarried : Carried env name := hbegin.eq_of_length_le hlength
    refine ⟨hcarried, ?_⟩
    rwa [hcarried] at h
  · rintro ⟨hcarried, hplain⟩
    rwa [hcarried]

theorem make_eq_ok_iff {name : List UInt8} {value : Role} :
    Role.make name = .ok value ↔ Role.normalize name = value.name := by
  unfold Role.make
  by_cases hnil : Role.normalize name = []
  · rw [dif_pos hnil, hnil]
    exact iff_of_false (by simp) value.name_ne_nil.symm
  · rw [dif_neg hnil, Except.ok.injEq]
    constructor
    · rintro rfl
      rfl
    · intro hname
      cases value
      cases hname
      rfl

theorem get_withName {acl : NativeAcl} {slot : Nat} (hslot : slot < RoleMap.capacity)
    (name : List UInt8) : RoleMap.get env (withName acl slot name) slot =
      Role.make (Lmbcs.toString env.codePage (cString name)) := by
  rw [RoleMap.get, if_neg (Nat.not_le_of_lt hslot), withName_self]

/-- The slot that `insert` sets is the lowest free one. -/
theorem LowestFree.unique {acl : NativeAcl} {slot slot' : Nat} (h : LowestFree acl slot)
    (h' : LowestFree acl slot') : slot = slot' := by
  rcases Nat.lt_trichotomy slot slot' with hlt | heq | hlt
  · exact absurd h.2.1 (h'.2.2 slot hlt)
  · exact heq
  · exact absurd h'.2.1 (h.2.2 slot' hlt)

theorem exec_set_of_storesIn {s t : Called NativeAcl} {op : RoleOp} {slot : Nat} {value : Role}
    (hstores : StoresIn s.value slot value op) (h : exec (performRole env op) s = (.ok (), t)) :
    exec (RoleMap.set env slot value) s = (.ok (), t) := by
  cases op with
  | set key role =>
      obtain ⟨rfl, rfl⟩ := hstores
      exact h
  | insert role =>
      obtain ⟨hfree, rfl⟩ := hstores
      rw [performRole] at h
      rcases exec_insert_cases role s with ⟨slot', hfree', hexec⟩ | ⟨-, hexec⟩ | ⟨-, hexec⟩
      · rw [hfree.unique hfree', ← hexec]
        exact h
      · rw [hexec] at h
        cases h
      · rw [hexec] at h
        cases h

/-- A role that was set or inserted is kept exactly if its name is not in brackets and is carried
unchanged. -/
theorem kept_iff_plain (hzero : Lmbcs.KeepsZero env.codePage) (hverbatim : Verbatim env)
    {s t : Called NativeAcl} {op : RoleOp} {slot : Nat} {value : Role}
    (hstores : StoresIn s.value slot value op) (h : exec (performRole env op) s = (.ok (), t)) :
    Kept env t.value slot value ↔
      Carried env value.name ∧ Role.normalize value.name = value.name := by
  obtain ⟨hslot, name, hname, ht⟩ := exec_set_eq_ok (exec_set_of_storesIn hstores h)
  obtain rfl := hverbatim _ _ hname
  rw [kept_iff, ht, get_withName hslot, cString_cString, make_eq_ok_iff]
  exact normalize_carried_iff hzero value.name

/-! ## Roles in brackets -/

/-- The role of the text `[[a]]`. -/
def bracketedA : Role := ⟨[openBracket, 0x61, closeBracket], by decide⟩

/-- The role of the text `[[]]`. -/
def bracketedNothing : Role := ⟨[openBracket, closeBracket], by decide⟩

theorem verbatim_sampleEnv : Verbatim sampleEnv := by
  intro name stored h
  cases h
  rfl

/-- A table without roles. -/
def emptyTable : Called NativeAcl := ⟨0, ⟨fun _ => none, []⟩⟩

theorem kept_roleA :
    Kept sampleEnv (exec (RoleMap.set sampleEnv 3 roleA) emptyTable).2.value 3 roleA ↔
      Carried sampleEnv roleA.name ∧ Role.normalize roleA.name = roleA.name := by
  have hstores : StoresIn emptyTable.value 3 roleA (.set 3 roleA) := ⟨rfl, rfl⟩
  exact kept_iff_plain Lmbcs.keepsZero_utf8 verbatim_sampleEnv hstores (Prod.ext rfl rfl)

/-- `[a]` is not read back, and `[]` stops every walk through the table. -/
theorem not_kept_bracketed :
    let a := exec (RoleMap.insert sampleEnv bracketedA) emptyTable
    let nothing := exec (RoleMap.insert sampleEnv bracketedNothing) emptyTable
    (Role.make [openBracket, openBracket, 0x61, closeBracket, closeBracket] = .ok bracketedA ∧
      a.1 = .ok () ∧ ¬ Kept sampleEnv a.2.value 0 bracketedA) ∧
    Role.make [openBracket, openBracket, closeBracket, closeBracket] = .ok bracketedNothing ∧
      nothing.1 = .ok () ∧ RoleMap.get sampleEnv nothing.2.value 0 = .error emptyName ∧
      RoleMap.size sampleEnv nothing.2.value = .error emptyName ∧
      RoleMap.pairs sampleEnv nothing.2.value = .error emptyName ∧
      (exec (RoleMap.insert sampleEnv roleA) nothing.2).1 = .error emptyName := by
  refine ⟨⟨by decide, by decide +kernel, fun hkept => ?_⟩, by decide +kernel⟩
  have hshows := hkept.shows
  revert hshows
  decide +kernel

end Dmn.Acl
