import Dmn.Verification.Acl.StoredRole

/-! # Runs on the role table

As long as every stored name can be read as a role, `insert`, `size` and the iterator agree on the
occupied slots. -/

namespace Dmn.Acl

open Exec Native

variable (env : Env)

/-! ## What holds of a table -/

/-- The name is not in brackets, and carried unchanged to the native side and back. -/
def Role.Plain (value : Role) : Prop :=
  Carried env value.name ∧ Role.normalize value.name = value.name

/-- An iterator yields the occupied slots with their roles, in order, and `size` is their number. -/
structure Iterates (acl : NativeAcl) (pairs : List (Nat × Role)) : Prop where
  yields : RoleMap.pairs env acl = .ok pairs
  increasing : (pairs.map Prod.fst).Pairwise (· < ·)
  roles : ∀ i role, (i, role) ∈ pairs ↔ RoleMap.get env acl i = .ok role
  occupied : ∀ i, i ∈ pairs.map Prod.fst ↔
    i < RoleMap.capacity ∧ acl.privNames (i + bitPrivCount) ≠ none
  size : RoleMap.size env acl = .ok pairs.length

/-- `insert` returns if a slot is free and the native call takes the name, and stores the role in the
lowest free slot. It throws `out_of_range` if no slot is free, and when it throws it changes nothing. -/
structure Inserts (s : Called NativeAcl) (value : Role) : Prop where
  returns : ¬ Full s.value → (env.native.status s.calls).isError = false →
    ∀ name, env.setPrivName (cString (Lmbcs.fromString env.codePage value.name)) = .ok name →
      ∃ t, exec (RoleMap.insert env value) s = (.ok (), t)
  stores : ∀ t, exec (RoleMap.insert env value) s = (.ok (), t) →
    ∃ slot, LowestFree s.value slot ∧ RoleMap.get env t.value slot = .ok value ∧
      ∀ num ≠ slot + bitPrivCount, t.value.privNames num = s.value.privNames num
  throws_iff : (∃ message, (exec (RoleMap.insert env value) s).1 =
    .error (.throws (.outOfRange message))) ↔ Full s.value
  unchanged : ∀ stop t, exec (RoleMap.insert env value) s = (.error stop, t) → t.value = s.value

structure Consistent (s : Called NativeAcl) : Prop where
  iterates : ∃ pairs, Iterates env s.value pairs
  inserts : ∀ value, value.Plain env → Inserts env s value

/-- The role that a call stores. -/
def RoleOp.role : RoleOp → Role
  | .insert value => value
  | .set _ value => value

variable {env} {s t : Called NativeAcl} {value : Role}

/-! ## One call -/

theorem iterates_of_legible {acl : NativeAcl} (h : Legible env acl) :
    Iterates env acl (slots env acl) := by
  refine ⟨pairs_of_legible h, pairwise_slots env acl, fun i role => get_eq_ok_iff.symm, ?_, ?_⟩
  · intro i
    constructor
    · intro hi
      obtain ⟨⟨_, role⟩, hslot, rfl⟩ := List.mem_map.mp hi
      obtain ⟨hlt, hrole⟩ := mem_slots.mp hslot
      refine ⟨hlt, fun hnone => ?_⟩
      rw [(roleAt_eq_none_iff (h _ hlt)).mpr hnone] at hrole
      cases hrole
    · rintro ⟨hlt, hname⟩
      obtain ⟨role, hrole⟩ := Option.ne_none_iff_exists'.mp (mt (roleAt_eq_none_iff (h i hlt)).mp hname)
      exact List.mem_map.mpr ⟨(i, role), mem_slots.mpr ⟨hlt, hrole⟩, rfl⟩
  · rw [size_eq, pairs_of_legible h]
    rfl

/-- A role with a plain name is read back from its slot. -/
theorem get_withName_plain (acl : NativeAcl) (hplain : value.Plain env) {slot : Nat}
    (hslot : slot < RoleMap.capacity) : RoleMap.get env (withName acl slot
      (cString (Lmbcs.fromString env.codePage value.name))) slot = .ok value := by
  have hcarried : carried env value.name = value.name := hplain.1
  rw [get_withName hslot, cString_cString, make_eq_ok_iff, ← carried, hcarried]
  exact hplain.2

theorem legible_withName {acl : NativeAcl} (h : Legible env acl) (hplain : value.Plain env)
    {slot : Nat} (hslot : slot < RoleMap.capacity) : Legible env (withName acl slot
      (cString (Lmbcs.fromString env.codePage value.name))) := by
  intro i hi
  by_cases heq : i = slot
  · subst heq
    exact slotName_ne_of_get (get_withName_plain acl hplain hslot)
  · rw [slotName_withName_of_ne heq]
    exact h i hi

theorem inserts_of_legible (hverbatim : Verbatim env) (h : Legible env s.value)
    (hplain : value.Plain env) : Inserts env s value := by
  rcases exec_insert_cases value s with ⟨slot, hfree, hexec⟩ | ⟨hnot, -⟩ | ⟨hfull, hexec⟩
  · refine ⟨?_, ?_, ?_, ?_⟩
    · intro _ hok name hname
      rw [hexec, exec_set hfree.1, hok, hname]
      exact ⟨_, rfl⟩
    · intro t hok
      rw [hexec] at hok
      obtain ⟨hslot, name, hname, ht⟩ := exec_set_eq_ok hok
      obtain rfl := hverbatim _ _ hname
      refine ⟨slot, hfree, ?_, fun num hnum => ?_⟩
      · rw [ht]
        exact get_withName_plain s.value hplain hslot
      · rw [ht]
        exact withName_of_ne hnum
    · rw [hexec]
      refine iff_of_false ?_ fun hfull => hfull slot hfree.1 hfree.2.1
      rintro ⟨message, herror⟩
      obtain ⟨_, _, hstop⟩ := (exec_set_eq_error (Prod.ext herror rfl)).2 hfree.1
      cases hstop
    · intro stop t herror
      rw [hexec] at herror
      exact (exec_set_eq_error herror).1
  · exact absurd h hnot
  · refine ⟨fun hfree => absurd hfull hfree, ?_, ?_, ?_⟩
    · intro t hok
      rw [hexec] at hok
      cases hok
    · rw [hexec]
      exact iff_of_true ⟨_, rfl⟩ hfull
    · intro stop t herror
      rw [hexec] at herror
      cases herror
      rfl

/-- Both calls keep the table such that every name can be read as a role. -/
theorem legible_roleStep (hverbatim : Verbatim env) (h : Legible env s.value) {op : RoleOp}
    (hplain : op.role.Plain env) : Legible env (roleStep env s op).value := by
  have hset : ∀ slot, Legible env (exec (RoleMap.set env slot op.role) s).2.value := by
    intro slot
    rcases hresult : exec (RoleMap.set env slot op.role) s with ⟨stop | _, t⟩
    · simp only [(exec_set_eq_error hresult).1]
      exact h
    · obtain ⟨hslot, name, hname, ht⟩ := exec_set_eq_ok hresult
      obtain rfl := hverbatim _ _ hname
      simp only [ht]
      exact legible_withName h hplain hslot
  cases op with
  | set key value => exact hset key
  | insert value =>
      rw [roleStep, performRole]
      rcases exec_insert_cases value s with ⟨slot, -, hexec⟩ | ⟨-, hexec⟩ | ⟨-, hexec⟩
      · rw [hexec]
        exact hset slot
      · rwa [hexec]
      · rwa [hexec]

/-! ## Whole runs -/

/-- After every run on a table whose names can be read as roles, `insert`, `size` and the iterator
agree on the occupied slots. -/
theorem consistent_after (hverbatim : Verbatim env) {start : Called NativeAcl}
    (hstart : Legible env start.value) {ops : List RoleOp} (hops : ∀ op ∈ ops, op.role.Plain env) :
    Consistent env (Run.after (roleStep env) start ops) := by
  have hrun : ∀ (ops : List RoleOp) (s : Called NativeAcl), Legible env s.value →
      (∀ op ∈ ops, op.role.Plain env) → Legible env (Run.after (roleStep env) s ops).value := by
    intro ops
    induction ops with
    | nil => exact fun s h _ => h
    | cons op ops ih =>
        intro s h hops
        exact ih _ (legible_roleStep hverbatim h (hops op (by simp)))
          fun other hother => hops other (by simp [hother])
  have hlegible := hrun ops start hstart hops
  exact ⟨⟨_, iterates_of_legible hlegible⟩, fun value => inserts_of_legible hverbatim hlegible⟩

/-! ## Short runs -/

/-- Two roles are inserted, and the second slot is set once more. -/
theorem consistent_after_insert :
    Consistent sampleEnv (Run.after (roleStep sampleEnv) emptyTable
      [.insert roleA, .insert roleA, .set 1 roleB]) := by
  have hplain : roleA.Plain sampleEnv ∧ roleB.Plain sampleEnv := by
    unfold Role.Plain
    decide +kernel
  refine consistent_after verbatim_sampleEnv (by decide) ?_
  simp [RoleOp.role, hplain]

/-- A name that begins with a zero byte. -/
def zeroRole : Role := ⟨[0], by decide⟩

/-- Such a name is not in brackets, but its slot cannot be read, and 74 slots are free. -/
theorem not_consistent_zero :
    let s := Run.after (roleStep sampleEnv) emptyTable [.insert zeroRole]
    Role.normalize zeroRole.name = zeroRole.name ∧
      RoleMap.size sampleEnv s.value = .error emptyName ∧
      RoleMap.pairs sampleEnv s.value = .error emptyName ∧
      (exec (RoleMap.insert sampleEnv roleA) s).1 = .error emptyName := by
  decide +kernel

end Dmn.Acl
