import Dmn.Model.Acl
import Mathlib.Data.List.Dedup

/-! # The role table

A slot shows a role, is not set, or holds a name that no role can have. The last kind of
slot stops every walk through the table. -/

namespace Dmn.Acl

variable (env : Env) (acl : NativeAcl)

/-! ## Slots -/

/-- The name that a slot shows, without its brackets. -/
def slotName (i : Nat) : Option (List UInt8) :=
  (acl.privNames (i + bitPrivCount)).map fun value =>
    Role.normalize (Lmbcs.toString env.codePage (cString value))

/-- The role that a slot shows. -/
def roleAt (i : Nat) : Option Role :=
  match slotName env acl i with
  | none => none
  | some name => if h : name = [] then none else some ⟨name, h⟩

/-- No slot shows an empty name. -/
def Legible : Prop := ∀ i < RoleMap.capacity, slotName env acl i ≠ some []

instance : Decidable (Legible env acl) := by unfold Legible; infer_instance

/-- The slots that show a role, in order. -/
def slots : List (Nat × Role) :=
  (List.range RoleMap.capacity).filterMap fun i => (roleAt env acl i).map (i, ·)

/-- Some slot shows the role. -/
def Defined (role : Role) : Prop := ∃ i, (i, role) ∈ slots env acl

theorem defined_iff {role : Role} :
    Defined env acl role ↔ role ∈ (slots env acl).map Prod.snd := by
  simp [Defined]

instance (role : Role) : Decidable (Defined env acl role) :=
  decidable_of_iff' _ (defined_iff env acl)

variable {env acl}

theorem mem_slots {i : Nat} {role : Role} :
    (i, role) ∈ slots env acl ↔ i < RoleMap.capacity ∧ roleAt env acl i = some role := by
  simp only [slots, List.mem_filterMap, List.mem_range, Option.map_eq_some_iff, Prod.mk.injEq]
  constructor
  · rintro ⟨j, hj, other, hother, rfl, rfl⟩
    exact ⟨hj, hother⟩
  · rintro ⟨hi, hrole⟩
    exact ⟨i, hi, role, hrole, rfl, rfl⟩

/-! ## Walking through the table -/

/-- A name that no role can have. -/
def emptyName : Stop := .throws (.invalidArgument "ACL role name cannot be empty")

theorem tryAt_of_ne {i : Nat} (hi : i < RoleMap.capacity) (h : slotName env acl i ≠ some []) :
    RoleMap.tryAt env acl i = .ok (roleAt env acl i) := by
  unfold RoleMap.tryAt RoleMap.get roleAt slotName at *
  rw [if_neg (Nat.not_le_of_lt hi)]
  cases hname : acl.privNames (i + bitPrivCount) with
  | none => rfl
  | some value =>
      have hne : Role.normalize (Lmbcs.toString env.codePage (cString value)) ≠ [] := by
        intro hnil
        simp [hname, hnil] at h
      simp [Role.make, hne]

theorem tryAt_of_eq {i : Nat} (hi : i < RoleMap.capacity) (h : slotName env acl i = some []) :
    RoleMap.tryAt env acl i = .error emptyName := by
  unfold RoleMap.tryAt RoleMap.get slotName at *
  rw [if_neg (Nat.not_le_of_lt hi)]
  cases hname : acl.privNames (i + bitPrivCount) with
  | none => simp [hname] at h
  | some value =>
      simp only [hname, Option.map_some, Option.some.injEq] at h
      simp [Role.make, h, emptyName]

theorem iterate_of_legible {index count : Nat} (hcount : index + count ≤ RoleMap.capacity)
    (h : ∀ i, index ≤ i → i < index + count → slotName env acl i ≠ some []) :
    RoleMap.iterate env acl index count =
      .ok ((List.range' index count).filterMap fun i => (roleAt env acl i).map (i, ·)) := by
  induction count generalizing index with
  | zero => rfl
  | succ count ih =>
      have hindex : index < RoleMap.capacity := by omega
      have hfirst := tryAt_of_ne hindex (h index (Nat.le_refl _) (by omega))
      have hrest := @ih (index + 1) (by omega) fun i hle hlt => h i (by omega) (by omega)
      rw [RoleMap.iterate, hfirst, hrest, List.range'_succ]
      cases hrole : roleAt env acl index <;> simp [hrole] <;> rfl

theorem iterate_of_illegible {index count i : Nat} (hcount : index + count ≤ RoleMap.capacity)
    (hle : index ≤ i) (hlt : i < index + count) (h : slotName env acl i = some []) :
    RoleMap.iterate env acl index count = .error emptyName := by
  induction count generalizing index with
  | zero => omega
  | succ count ih =>
      have hindex : index < RoleMap.capacity := by omega
      by_cases hfirst : slotName env acl index = some []
      · rw [RoleMap.iterate, tryAt_of_eq hindex hfirst]
        rfl
      · have hne : index ≠ i := by
          intro heq
          subst heq
          exact hfirst h
        rw [RoleMap.iterate, tryAt_of_ne hindex hfirst,
          @ih (index + 1) (by omega) (by omega) (by omega)]
        rfl

theorem pairs_of_legible (h : Legible env acl) : RoleMap.pairs env acl = .ok (slots env acl) := by
  rw [RoleMap.pairs, iterate_of_legible (Nat.le_of_eq (Nat.zero_add _))]
  · rw [slots, List.range_eq_range']
  · intro i _ hi
    exact h i (by omega)

theorem pairs_of_not_legible (h : ¬ Legible env acl) :
    RoleMap.pairs env acl = .error emptyName := by
  simp only [Legible, not_forall, not_not] at h
  obtain ⟨i, hi, hname⟩ := h
  exact iterate_of_illegible (Nat.le_of_eq (Nat.zero_add _)) (Nat.zero_le i) (by omega) hname

/-! ## Roles as privileges -/

variable (env acl) in
/-- The privileges that `roles_to_native` collects. -/
def assigned (roles : List Role) : Privileges :=
  ((slots env acl).foldl (passRole roles) (0, 0)).1

variable (env acl) in
/-- The listed roles in the slots that hold one. -/
def holdings (roles : List Role) : List Role :=
  ((slots env acl).map Prod.snd).filter (· ∈ roles)

theorem snd_foldl_passRole (roles : List Role) (l : List (Nat × Role)) (p : Privileges) (n : Nat) :
    (l.foldl (passRole roles) (p, n)).2 = n + ((l.map Prod.snd).filter (· ∈ roles)).length := by
  induction l generalizing p n with
  | nil => rfl
  | cons slot l ih =>
      by_cases h : slot.2 ∈ roles
      · simp only [List.foldl_cons, passRole, h, if_true, List.map_cons, List.filter_cons,
          decide_true, List.length_cons]
        rw [ih]
        omega
      · simp only [List.foldl_cons, passRole, h, if_false, List.map_cons, List.filter_cons,
          decide_false, Bool.false_eq_true]
        exact ih p n

theorem getLsbD_foldl_passRole (roles : List Role) (l : List (Nat × Role)) (p : Privileges)
    (n k : Nat) :
    (l.foldl (passRole roles) (p, n)).1.getLsbD k = true ↔
      p.getLsbD k = true ∨
        ∃ slot ∈ l, slot.2 ∈ roles ∧ slot.1 + bitPrivCount = k ∧ k < privCount := by
  induction l generalizing p n with
  | nil => simp
  | cons slot l ih =>
      by_cases h : slot.2 ∈ roles
      · simp only [List.foldl_cons, passRole, h, if_true, setPriv]
        rw [ih]
        simp only [BitVec.getLsbD_or, BitVec.getLsbD_twoPow, Bool.or_eq_true, Bool.and_eq_true,
          decide_eq_true_eq, List.mem_cons, exists_eq_or_imp, h, true_and]
        constructor
        · rintro ((hp | ⟨hlt, rfl⟩) | hrest)
          · exact .inl hp
          · exact .inr (.inl ⟨rfl, hlt⟩)
          · exact .inr (.inr hrest)
        · rintro (hp | ⟨rfl, hlt⟩ | hrest)
          · exact .inl (.inl hp)
          · exact .inl (.inr ⟨hlt, rfl⟩)
          · exact .inr hrest
      · simp only [List.foldl_cons, passRole, h, if_false]
        rw [ih]
        simp [h]

/-- The bits that `roles_to_native` sets. -/
theorem getLsbD_assigned {roles : List Role} {k : Nat} :
    (assigned env acl roles).getLsbD k = true ↔
      ∃ i role, (i, role) ∈ slots env acl ∧ role ∈ roles ∧ i + bitPrivCount = k := by
  rw [assigned, getLsbD_foldl_passRole]
  constructor
  · rintro (hzero | ⟨slot, hslot, hrole, hk, _⟩)
    · simp at hzero
    · exact ⟨slot.1, slot.2, hslot, hrole, hk⟩
  · rintro ⟨i, role, hslot, hrole, rfl⟩
    have hi := (mem_slots.mp hslot).1
    refine .inr ⟨(i, role), hslot, hrole, rfl, ?_⟩
    simp only [RoleMap.capacity, privCount, bitPrivCount] at hi ⊢
    omega

theorem rolesToNative_of_not_legible (h : ¬ Legible env acl) (roles : List Role) :
    rolesToNative env acl roles = .error emptyName := by
  rw [rolesToNative, pairs_of_not_legible h]
  rfl

theorem rolesToNative_of_legible (h : Legible env acl) (roles : List Role) :
    rolesToNative env acl roles =
      if (holdings env acl roles).length = roles.length then .ok (assigned env acl roles)
      else .error (.throws (.invalidArgument "One or more ACL roles don't exist")) := by
  have hpassed := snd_foldl_passRole roles (slots env acl) 0 0
  rw [Nat.zero_add] at hpassed
  have hpairs : rolesToNative env acl roles =
      (if ((slots env acl).foldl (passRole roles) (0, 0)).2 ≠ roles.length then
        .error (.throws (.invalidArgument "One or more ACL roles don't exist"))
      else .ok ((slots env acl).foldl (passRole roles) (0, 0)).1) := by
    rw [rolesToNative, pairs_of_legible h]
    rfl
  rw [hpairs, hpassed, holdings, assigned]
  by_cases hcount : (((slots env acl).map Prod.snd).filter (· ∈ roles)).length = roles.length
  · rw [if_neg (not_not_intro hcount), if_pos hcount]
  · rw [if_pos hcount, if_neg hcount]

variable (env acl) in
/-- The roles that are read back from privileges. -/
def held (privileges : Privileges) : List Role :=
  ((slots env acl).filter fun slot => isPrivSet privileges (slot.1 + bitPrivCount)).map Prod.snd

theorem mem_held {privileges : Privileges} {role : Role} :
    role ∈ held env acl privileges ↔ ∃ i, (i, role) ∈ slots env acl ∧
      isPrivSet privileges (i + bitPrivCount) = true := by
  simp [held]

theorem rolesFromNative_of_legible (h : Legible env acl) (privileges : Privileges) :
    rolesFromNative env acl privileges = .ok (held env acl privileges) := by
  have hnamed : ∀ slot : Nat × Role,
      (isPrivSet privileges (slot.1 + bitPrivCount) && slot.2.name ≠ []) =
        isPrivSet privileges (slot.1 + bitPrivCount) := by
    intro slot
    simp [slot.2.name_ne_nil]
  rw [rolesFromNative, pairs_of_legible h]
  simp only [held, hnamed]
  rfl

/-! ## Roles that are read and written back -/

theorem isPrivSet_assigned {roles : List Role} {i : Nat} {role : Role}
    (h : (i, role) ∈ slots env acl) :
    isPrivSet (assigned env acl roles) (i + bitPrivCount) = true ↔ role ∈ roles := by
  rw [isPrivSet, getLsbD_assigned]
  constructor
  · rintro ⟨j, other, hother, hlisted, hij⟩
    obtain rfl : j = i := Nat.add_right_cancel hij
    have hrole := (mem_slots.mp h).2
    rw [(mem_slots.mp hother).2] at hrole
    cases hrole
    exact hlisted
  · intro hlisted
    exact ⟨i, role, h, hlisted, rfl⟩

/-- The assigned roles are read back from the slots in order. -/
theorem held_assigned (roles : List Role) :
    held env acl (assigned env acl roles) = holdings env acl roles := by
  rw [held, holdings, List.filter_map]
  congr 1
  refine List.filter_congr fun slot hslot => ?_
  rw [Bool.eq_iff_iff, isPrivSet_assigned hslot]
  simp

/-- Of the roles that are assigned, the defined ones are read back. -/
theorem mem_held_assigned {roles : List Role} {role : Role} :
    role ∈ held env acl (assigned env acl roles) ↔ role ∈ roles ∧ Defined env acl role := by
  rw [held_assigned, holdings, List.mem_filter, ← defined_iff, decide_eq_true_eq]
  exact and_comm

theorem defined_of_mem_held {privileges : Privileges} {role : Role}
    (h : role ∈ held env acl privileges) : Defined env acl role := by
  obtain ⟨i, hslot, _⟩ := mem_held.mp h
  exact ⟨i, hslot⟩

/-- Only the names of the privileges matter to the role table. -/
theorem slots_of_privNames {acl' : NativeAcl} (h : acl'.privNames = acl.privNames) :
    slots env acl' = slots env acl := by
  simp only [slots, roleAt, slotName, h]

theorem legible_of_privNames {acl' : NativeAcl} (h : acl'.privNames = acl.privNames) :
    Legible env acl' ↔ Legible env acl := by
  simp only [Legible, slotName, h]

theorem held_of_privNames {acl' : NativeAcl} (h : acl'.privNames = acl.privNames)
    (privileges : Privileges) : held env acl' privileges = held env acl privileges := by
  rw [held, held, slots_of_privNames h]

variable (env acl) in
/-- The slots of one role agree in their privileges. -/
def Unsplit (privileges : Privileges) : Prop :=
  ∀ i j role, (i, role) ∈ slots env acl → (j, role) ∈ slots env acl →
    isPrivSet privileges (i + bitPrivCount) = true →
    isPrivSet privileges (j + bitPrivCount) = true

variable (env acl) in
/-- Every privilege has a slot that shows a role. -/
def Populated (privileges : Privileges) : Prop :=
  ∀ num, isPrivSet privileges num = true →
    ∃ i role, (i, role) ∈ slots env acl ∧ i + bitPrivCount = num

theorem length_filter_eq_iff {α : Type*} {p q : α → Bool} {l : List α}
    (h : ∀ x ∈ l, p x = true → q x = true) :
    (l.filter q).length = (l.filter p).length ↔ ∀ x ∈ l, q x = true → p x = true := by
  induction l with
  | nil => simp
  | cons x l ih =>
      have hrest := ih fun y hy => h y (by simp [hy])
      have hle : (l.filter p).length ≤ (l.filter q).length := by
        simp only [← List.countP_eq_length_filter]
        exact List.countP_mono_left fun y hy => h y (by simp [hy])
      cases hq : q x with
      | false =>
          have hp : p x = false := by
            by_contra hp
            simp [h x (by simp) (by simpa using hp)] at hq
          simp [hp, hq, hrest]
      | true =>
          cases hp : p x with
          | false => simp [hp, hq]; omega
          | true => simp [hp, hq, hrest]

theorem length_holdings_held_iff {privileges : Privileges} :
    (holdings env acl (held env acl privileges)).length = (held env acl privileges).length ↔
      Unsplit env acl privileges := by
  have hfilter := length_filter_eq_iff (l := slots env acl)
    (p := fun slot => isPrivSet privileges (slot.1 + bitPrivCount))
    (q := fun slot => slot.2 ∈ held env acl privileges) (by
      intro slot hslot hset
      simp only [decide_eq_true_eq, mem_held]
      exact ⟨slot.1, hslot, hset⟩)
  rw [holdings, List.filter_map, List.length_map]
  nth_rewrite 3 [held]
  rw [List.length_map]
  refine hfilter.trans ?_
  constructor
  · intro hall i j role hi hj hset
    refine hall (j, role) hj ?_
    simp only [decide_eq_true_eq, mem_held]
    exact ⟨i, hi, hset⟩
  · intro hunsplit slot hslot hheld
    simp only [decide_eq_true_eq, mem_held] at hheld
    obtain ⟨i, hi, hset⟩ := hheld
    exact hunsplit i slot.1 slot.2 hi hslot hset

/-- What is read of privileges is refused when a role is split, and else written back with
the privileges of populated slots. -/
theorem rolesToNative_held (hlegible : Legible env acl) {privileges : Privileges}
    (h : Unsplit env acl privileges) :
    rolesToNative env acl (held env acl privileges) =
      .ok (assigned env acl (held env acl privileges)) := by
  rw [rolesToNative_of_legible hlegible, if_pos (length_holdings_held_iff.mpr h)]

theorem assigned_held_eq_iff {privileges : Privileges} (h : Unsplit env acl privileges) :
    assigned env acl (held env acl privileges) = privileges ↔
      Populated env acl privileges := by
  have hbit : ∀ num, (assigned env acl (held env acl privileges)).getLsbD num = true ↔
      isPrivSet privileges num = true ∧
        ∃ i role, (i, role) ∈ slots env acl ∧ i + bitPrivCount = num := by
    intro num
    rw [getLsbD_assigned]
    constructor
    · intro hassigned
      obtain ⟨i, role, hslot, hheld, rfl⟩ := hassigned
      obtain ⟨j, hj, hset⟩ := mem_held.mp hheld
      exact ⟨h j i role hj hslot hset, i, role, hslot, rfl⟩
    · intro hset
      obtain ⟨hset, i, role, hslot, rfl⟩ := hset
      exact ⟨i, role, hslot, mem_held.mpr ⟨i, hslot, hset⟩, rfl⟩
  constructor
  · intro heq num hset
    rw [← heq] at hset
    exact ((hbit num).mp hset).2
  · intro hpopulated
    apply BitVec.eq_of_getLsbD_eq
    intro num _
    rw [Bool.eq_iff_iff, hbit]
    exact ⟨fun hset => hset.1, fun hset => ⟨hset, hpopulated num hset⟩⟩

theorem legible_of_rolesFromNative {privileges : Privileges} {roles : List Role}
    (h : rolesFromNative env acl privileges = .ok roles) : Legible env acl := by
  by_contra hnot
  rw [rolesFromNative, pairs_of_not_legible hnot] at h
  cases h

end Dmn.Acl
