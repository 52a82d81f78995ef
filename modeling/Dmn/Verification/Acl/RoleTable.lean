import Dmn.Verification.Acl.NativeName
import Dmn.Verification.Acl.RoleCheck

/-! # Storing roles

A role is set in a slot or inserted in the lowest free one. All walks through the table agree on
which slots are occupied. -/

namespace Dmn.Acl

open Exec Native

variable (env : Env)

/-- A name that `ACLSetPrivName` accepts is stored as it is. -/
def Verbatim : Prop := ∀ name stored, env.setPrivName name = .ok stored → stored = name

/-- The table with a name in a slot. -/
def withName (acl : NativeAcl) (slot : Nat) (name : List UInt8) : NativeAcl :=
  { acl with privNames := fun num => if num = slot + bitPrivCount then some name else acl.privNames num }

/-- No slot below is free. -/
def LowestFree (acl : NativeAcl) (slot : Nat) : Prop :=
  slot < RoleMap.capacity ∧ acl.privNames (slot + bitPrivCount) = none ∧
    ∀ i < slot, acl.privNames (i + bitPrivCount) ≠ none

/-- Every slot is occupied. -/
def Full (acl : NativeAcl) : Prop :=
  ∀ i < RoleMap.capacity, acl.privNames (i + bitPrivCount) ≠ none

variable {env} {s t : Called NativeAcl} {value : Role}

/-! ## One slot -/

@[simp] theorem withName_self (acl : NativeAcl) (slot : Nat) (name : List UInt8) :
    (withName acl slot name).privNames (slot + bitPrivCount) = some name :=
  if_pos rfl

theorem withName_of_ne {acl : NativeAcl} {slot num : Nat} {name : List UInt8}
    (h : num ≠ slot + bitPrivCount) : (withName acl slot name).privNames num = acl.privNames num :=
  if_neg h

theorem slotName_withName_of_ne {acl : NativeAcl} {slot i : Nat} {name : List UInt8}
    (h : i ≠ slot) : slotName env (withName acl slot name) i = slotName env acl i := by
  rw [slotName, slotName, withName_of_ne (by omega)]

theorem roleAt_eq_none_iff {acl : NativeAcl} {i : Nat} (h : slotName env acl i ≠ some []) :
    roleAt env acl i = none ↔ acl.privNames (i + bitPrivCount) = none := by
  unfold roleAt slotName at *
  cases hname : acl.privNames (i + bitPrivCount) with
  | none => simp
  | some name =>
      have hne : Role.normalize (Lmbcs.toString env.codePage (cString name)) ≠ [] := by
        intro hnil
        simp [hname, hnil] at h
      simp [hne]

/-- What `set` makes of a slot. -/
theorem exec_set {key : Nat} (hkey : key < RoleMap.capacity) :
    exec (RoleMap.set env key value) s =
      if (env.native.status s.calls).isError then
        (.error (.throws (.nativeError "Failed to set role in ACL" (env.native.status s.calls))),
          ⟨s.calls + 1, s.value⟩)
      else match env.setPrivName (cString (Lmbcs.fromString env.codePage value.name)) with
        | .error status => (.error (.throws (.nativeError "Failed to set role in ACL" status)),
            ⟨s.calls + 1, s.value⟩)
        | .ok name => (.ok (), ⟨s.calls + 1, withName s.value key name⟩) := by
  rw [RoleMap.set, if_neg (Nat.not_le_of_lt hkey), exec_bind_of_ok (exec_call s)]
  by_cases herror : (env.native.status s.calls).isError
  · have hthrow := Status.exec_throwIfError (env.native.status s.calls) "Failed to set role in ACL"
      (⟨s.calls + 1, s.value⟩ : Called NativeAcl)
    rw [if_pos herror] at hthrow ⊢
    rw [exec_bind_of_error hthrow]
  · have hthrow := Status.exec_throwIfError (env.native.status s.calls) "Failed to set role in ACL"
      (⟨s.calls + 1, s.value⟩ : Called NativeAcl)
    rw [if_neg herror] at hthrow ⊢
    rw [exec_bind_of_ok hthrow]
    cases env.setPrivName (cString (Lmbcs.fromString env.codePage value.name)) with
    | error status => rfl
    | ok name => rfl

/-- `set` stores what the native call makes of the name. -/
theorem exec_set_eq_ok {key : Nat} (h : exec (RoleMap.set env key value) s = (.ok (), t)) :
    key < RoleMap.capacity ∧ ∃ name,
      env.setPrivName (cString (Lmbcs.fromString env.codePage value.name)) = .ok name ∧
      t.value = withName s.value key name := by
  by_cases hkey : key < RoleMap.capacity
  · rw [exec_set hkey] at h
    split at h
    · cases h
    · split at h
      · cases h
      · rename_i name hname
        cases h
        exact ⟨hkey, name, hname, rfl⟩
  · rw [RoleMap.set, if_pos (Nat.le_of_not_lt hkey)] at h
    cases h

/-- A failed `set` changes nothing; for a slot of the table it is a native error. -/
theorem exec_set_eq_error {key : Nat} {stop : Stop}
    (h : exec (RoleMap.set env key value) s = (.error stop, t)) :
    t.value = s.value ∧
      (key < RoleMap.capacity → ∃ message status, stop = .throws (.nativeError message status)) := by
  by_cases hkey : key < RoleMap.capacity
  · rw [exec_set hkey] at h
    split at h
    · cases h
      exact ⟨rfl, fun _ => ⟨_, _, rfl⟩⟩
    · split at h
      · cases h
        exact ⟨rfl, fun _ => ⟨_, _, rfl⟩⟩
      · cases h
  · rw [RoleMap.set, if_pos (Nat.le_of_not_lt hkey)] at h
    cases h
    exact ⟨rfl, fun hlt => absurd hlt hkey⟩

/-! ## The lowest free slot -/

/-- What happens to `insert` from a slot on: it sets the lowest free slot, it stops at a slot that
cannot be read, or it finds all slots occupied. -/
theorem exec_insertFrom_cases (value : Role) {key count : Nat}
    (hcount : key + count ≤ RoleMap.capacity) (s : Called NativeAcl) :
    (∃ slot, key ≤ slot ∧ slot < key + count ∧
        s.value.privNames (slot + bitPrivCount) = none ∧
        (∀ i, key ≤ i → i < slot → s.value.privNames (i + bitPrivCount) ≠ none) ∧
        exec (RoleMap.insertFrom env value key count) s = exec (RoleMap.set env slot value) s) ∨
      (∃ i, key ≤ i ∧ i < key + count ∧ slotName env s.value i = some [] ∧
        exec (RoleMap.insertFrom env value key count) s = (.error emptyName, s)) ∨
      (∀ i, key ≤ i → i < key + count → s.value.privNames (i + bitPrivCount) ≠ none) ∧
        exec (RoleMap.insertFrom env value key count) s =
          (.error (.throws (.outOfRange "Role list has reached its maximum capacity")), s) := by
  induction count generalizing key with
  | zero => exact .inr (.inr ⟨fun i hle hlt => by omega, rfl⟩)
  | succ count ih =>
      have hkey : key < RoleMap.capacity := by omega
      rw [RoleMap.insertFrom, exec_bind_of_ok (Native.exec_value _)]
      by_cases hillegible : slotName env s.value key = some []
      · refine .inr (.inl ⟨key, Nat.le_refl _, by omega, hillegible, ?_⟩)
        rw [tryAt_of_eq hkey hillegible, exec_bind_of_error (exec_ofExcept _ s)]
      · rw [tryAt_of_ne hkey hillegible, exec_bind_of_ok (exec_ofExcept _ s)]
        by_cases hfree : s.value.privNames (key + bitPrivCount) = none
        · refine .inl ⟨key, Nat.le_refl _, by omega, hfree, fun i hle hlt => by omega, ?_⟩
          rw [(roleAt_eq_none_iff hillegible).mpr hfree]
        · obtain ⟨role, hrole⟩ := Option.ne_none_iff_exists'.mp
            (mt (roleAt_eq_none_iff hillegible).mp hfree)
          rw [hrole]
          have hbelow : ∀ i, key ≤ i → (key + 1 ≤ i → s.value.privNames (i + bitPrivCount) ≠ none) →
              s.value.privNames (i + bitPrivCount) ≠ none := by
            intro i hle hrest
            rcases Nat.eq_or_lt_of_le hle with rfl | hlt
            · exact hfree
            · exact hrest hlt
          rcases @ih (key + 1) (by omega) with ⟨slot, hle, hlt, hslot, hoccupied, hexec⟩ |
            ⟨i, hle, hlt, hname, hexec⟩ | ⟨hoccupied, hexec⟩
          · exact .inl ⟨slot, by omega, by omega, hslot,
              fun i hi hbound => hbelow i hi fun hnext => hoccupied i hnext hbound, hexec⟩
          · exact .inr (.inl ⟨i, by omega, by omega, hname, hexec⟩)
          · exact .inr (.inr ⟨fun i hi hbound => hbelow i hi fun hnext =>
              hoccupied i hnext (by omega), hexec⟩)

theorem exec_insert_cases (value : Role) (s : Called NativeAcl) :
    (∃ slot, LowestFree s.value slot ∧
        exec (RoleMap.insert env value) s = exec (RoleMap.set env slot value) s) ∨
      (¬ Legible env s.value ∧ exec (RoleMap.insert env value) s = (.error emptyName, s)) ∨
      Full s.value ∧ exec (RoleMap.insert env value) s =
        (.error (.throws (.outOfRange "Role list has reached its maximum capacity")), s) := by
  rcases exec_insertFrom_cases value (Nat.le_of_eq (Nat.zero_add RoleMap.capacity)) s with
    ⟨slot, -, hlt, hfree, hbelow, hexec⟩ | ⟨i, -, hlt, hname, hexec⟩ | ⟨hfull, hexec⟩
  · rw [Nat.zero_add] at hlt
    exact .inl ⟨slot, ⟨hlt, hfree, fun i hi => hbelow i (Nat.zero_le i) hi⟩, hexec⟩
  · rw [Nat.zero_add] at hlt
    exact .inr (.inl ⟨fun hlegible => hlegible i hlt hname, hexec⟩)
  · exact .inr (.inr ⟨fun i hi => hfull i (Nat.zero_le i) (by omega), hexec⟩)

/-! ## Occupied slots -/

/-- `size` counts what an iterator yields. -/
theorem sizeFrom_eq (acl : NativeAcl) (index count result : Nat) :
    RoleMap.sizeFrom env acl index count result =
      (RoleMap.iterate env acl index count).map fun pairs => result + pairs.length := by
  induction count generalizing index result with
  | zero => rfl
  | succ count ih =>
      rw [RoleMap.sizeFrom, RoleMap.iterate]
      cases RoleMap.tryAt env acl index with
      | error stop => rfl
      | ok role =>
          refine (ih (index + 1) _).trans ?_
          cases RoleMap.iterate env acl (index + 1) count with
          | error stop => rfl
          | ok rest =>
              cases role with
              | none => simp [Except.map, bind, Except.bind, pure, Except.pure]
              | some role =>
                  simp [Except.map, bind, Except.bind, pure, Except.pure]
                  omega

theorem size_eq (acl : NativeAcl) :
    RoleMap.size env acl = (RoleMap.pairs env acl).map List.length := by
  rw [RoleMap.size, sizeFrom_eq, RoleMap.pairs]
  simp only [Nat.zero_add]

theorem get_eq_ok_iff {acl : NativeAcl} {i : Nat} {role : Role} :
    RoleMap.get env acl i = .ok role ↔ (i, role) ∈ slots env acl := by
  rw [mem_slots]
  unfold RoleMap.get
  by_cases hi : RoleMap.capacity ≤ i
  · rw [if_pos hi]
    exact iff_of_false (by simp) fun h => Nat.not_lt_of_le hi h.1
  · rw [if_neg hi]
    unfold roleAt slotName
    cases hname : acl.privNames (i + bitPrivCount) with
    | none => simp
    | some name =>
        by_cases hnil : Role.normalize (Lmbcs.toString env.codePage (cString name)) = []
        · simp [Role.make, hnil]
        · simp [Role.make, hnil, Nat.lt_of_not_le hi]

theorem slotName_ne_of_get {acl : NativeAcl} {i : Nat} {role : Role}
    (h : RoleMap.get env acl i = .ok role) : slotName env acl i ≠ some [] := by
  have hrole := (mem_slots.mp (get_eq_ok_iff.mp h)).2
  intro hname
  simp [roleAt, hname] at hrole

theorem pairwise_slots (env : Env) (acl : NativeAcl) :
    ((slots env acl).map Prod.fst).Pairwise (· < ·) := by
  rw [List.pairwise_map, slots, List.pairwise_filterMap]
  refine List.pairwise_lt_range.imp ?_
  rintro i j hij _ hfirst _ hsecond
  obtain ⟨_, -, rfl⟩ := Option.map_eq_some_iff.mp hfirst
  obtain ⟨_, -, rfl⟩ := Option.map_eq_some_iff.mp hsecond
  exact hij

end Dmn.Acl
