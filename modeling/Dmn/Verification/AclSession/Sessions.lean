import Dmn.Library.Workspace
import Dmn.Verification.Acl.Updates
import Dmn.Verification.AclSession.Steps

/-! # Sessions on access control lists

The objects that share a list are one session. It works on the copy of the list that it has read,
and stores that copy as a whole. -/

namespace Dmn.AclSession

open Workspace

variable {env : Env} {w w' : World} {op : Op} {result : Except Stop Unit} {handle : Handle}

/-! ## Invariants of runs -/

theorem Inv.bornAll {self : Object} (h : Inv none w)
    (hliving : ∀ handle, self.list = some handle → w.living handle = true) (made : List Content) :
    Inv none (w.bornAll self made) := by
  induction made generalizing w with
  | nil => exact h
  | cons content made ih =>
      have hborn : Inv none (w.born { self with content }) := h.born hliving nofun
      exact ih hborn hliving

theorem Inv.held_next (h : Inv none w) (image : Image) :
    (w.allocate image).held w.nextHandle = false := by
  by_contra hheld
  obtain ⟨self, hself, hlist⟩ := held_iff.mp (by simpa using hheld)
  have hliving := h.living self hself _ hlist
  rw [h.notLiving_next] at hliving
  cases hliving

theorem Inv.assigned (h : Inv none w) {id other : ObjectId} {self value : Object}
    (hself : w.object id = some self) (hvalue : w.object other = some value) :
    Inv self.list (w.modify id fun self => { value with id := self.id }) :=
  h.modify hself (fun _ => rfl) (h.living value (Table.mem_of_lookup _ hvalue)) (.inl rfl)

theorem Inv.outcome (h : Inv none w) (hout : Outcome env w op result w') : Inv none w' := by
  cases hout with
  | failed _ stop _ => exact h
  | refused db names size result => exact h
  | read db =>
      exact (h.allocate _).born (fun _ hlist => (h.allocate _).hand_living _ hlist) fun _ heq => heq
  | created db =>
      exact (h.allocate _).born (fun _ hlist => (h.allocate _).hand_living _ hlist) fun _ heq => heq
  | lookedUp db names size result => exact (h.allocate _).free (h.held_next _)
  | stopped method hself hlist himage stop => exact h.write _ _
  | @invoked id self handle image method hself hlist himage content made =>
      have hwritten := h.write handle (changed env self method image)
      have hself' : (w.write handle (changed env self method image)).object id = some self := hself
      have hliving := hwritten.living self (Table.mem_of_lookup _ hself')
      have hmodified := hwritten.modify hself' (f := fun self => { self with content })
        (fun _ => rfl) hliving (.inr ⟨rfl, rfl⟩)
      exact hmodified.bornAll hliving made
  | @saved id self handle image hself hlist himage =>
      have hliving := h.living self (Table.mem_of_lookup _ hself)
      exact (h.stored handle self.db self.newlyCreated _).modify hself (fun _ => rfl) hliving
        (.inr ⟨rfl, rfl⟩)
  | copied hself => exact h.born (h.living _ (Table.mem_of_lookup _ hself)) nofun
  | moved hself =>
      have hmoved := h.modify hself (f := fun self => { self with list := none }) (fun _ => rfl)
        nofun (.inl rfl)
      exact hmoved.born (h.living _ (Table.mem_of_lookup _ hself)) fun _ heq => heq
  | assigned hself hvalue => exact (h.assigned hself hvalue).release
  | dropped hself => exact (h.erase hself).release

theorem inv_step (h : Inv none w) (call : Call) : Inv none (step env w call) :=
  h.outcome (step_outcome env h call)

theorem inv_after (h : Inv none w) (calls : List Call) :
    Inv none (Run.after (step env) w calls) := by
  apply Run.after_of_invariant (I := Inv none)
  · exact fun _ call h => inv_step h call
  · exact h

theorem inv_run (databases : DatabaseId → Image) (calls : List Call) :
    Inv none (Run.after (step env) (World.start databases) calls) :=
  inv_after (inv_start databases) calls

/-! ## Sessions -/

/-- The databases, and the lists in memory as working copies. -/
def desk (w : World) : Desk DatabaseId Handle Image where
  stored db := some (w.databases db)
  copies handle := w.image (some handle)

/-- What an operation means for the working copies. -/
def actsOf (env : Env) (w : World) (op : Op) (result : Except Stop Unit) (w' : World) :
    List (Act DatabaseId Handle Image) :=
  if op.able w then
    match op, result with
    | .read db, .ok _ => [.checkout w.nextHandle db]
    | .create _, .ok _ => [.blank w.nextHandle env.created]
    | .invoke id method, _ => ((w.object id).bind fun self => self.list.map fun handle =>
        .change handle (changed env self method)).toList
    | .save id, .ok _ => ((w.object id).bind fun self => self.list.map fun handle =>
        .commit handle self.db).toList
    | .assign id _, .ok _ | .drop id, .ok _ =>
        ((((w.object id).bind Object.list).filter fun handle => !w'.living handle).map
          .discard).toList
    | _, _ => []
  else []

def acts (env : Env) (w : World) (call : Call) : List (Act DatabaseId Handle Image) :=
  actsOf (env.withNative call.native) w call.op (ending env w call) (step env w call)

/-! ## Operations as acts -/

theorem Desk.ext {d d' : Desk DatabaseId Handle Image} (hstored : ∀ db, d.stored db = d'.stored db)
    (hcopies : ∀ handle, d.copies handle = d'.copies handle) : d = d' := by
  cases d
  cases d'
  simp only [Desk.mk.injEq]
  exact ⟨funext hstored, funext hcopies⟩

theorem image_eq_none (h : w.living handle = false) : w.image (some handle) = none := by
  rw [← Option.isNone_iff_eq_none, ← Option.not_isSome, isSome_image, h]
  rfl

@[simp] theorem desk_modify (id : ObjectId) (f : Object → Object) (w : World) :
    desk (w.modify id f) = desk w := rfl

@[simp] theorem desk_erase (id : ObjectId) (w : World) : desk (w.erase id) = desk w := rfl

theorem desk_allocate (image : Image) :
    desk (w.allocate image) = (desk w).act (.blank w.nextHandle image) := by
  refine Desk.ext (fun _ => rfl) fun handle => ?_
  by_cases heq : handle = w.nextHandle
  · subst heq
    simpa [desk, Desk.act] using image_allocate image
  · simpa [desk, Desk.act, heq] using image_allocate_of_ne heq image

theorem desk_checkout (db : DatabaseId) :
    desk (w.allocate (w.databases db)) = (desk w).act (.checkout w.nextHandle db) :=
  desk_allocate _

theorem desk_write {image image' : Image} (f : Image → Image)
    (himage : w.image (some handle) = some image) (hf : f image = image') :
    desk (w.write handle image') = (desk w).act (.change handle f) := by
  refine Desk.ext (fun _ => rfl) fun other => ?_
  by_cases heq : other = handle
  · subst heq
    have hliving : w.living other = true := by
      rw [← isSome_image, himage]
      rfl
    simpa [desk, Desk.act, himage, hf] using image_write hliving image'
  · simpa [desk, Desk.act, heq] using image_write_of_ne heq image'

theorem desk_free : desk (w.free handle) = (desk w).act (.discard handle) := by
  refine Desk.ext (fun _ => rfl) fun other => ?_
  by_cases heq : other = handle
  · subst heq
    have hgone : (w.free other).living other = false := by
      by_contra hliving
      exact (living_free.mp (by simpa using hliving)).2 rfl
    simpa [desk, Desk.act] using image_eq_none hgone
  · simpa [desk, Desk.act, heq] using image_free_of_ne heq

/-- A list is discarded with its last pointer. -/
theorem desk_release {hand : Option Handle} (h : Inv hand w) : desk (w.release hand) =
    (desk w).after ((hand.filter fun handle => !(w.release hand).living handle).map
      Act.discard).toList := by
  cases hand with
  | none => rfl
  | some handle =>
      have hliving := h.hand_living handle rfl
      cases hheld : w.held handle with
      | true =>
          have hkept : w.release (some handle) = w := by simp [World.release, hheld]
          simp [hkept, hliving, Option.filter_some]
      | false =>
          have hfreed : w.release (some handle) = w.free handle := by simp [World.release, hheld]
          have hgone : (w.free handle).living handle = false := by
            by_contra hstays
            exact (living_free.mp (by simpa using hstays)).2 rfl
          simpa [hfreed, hgone, Option.filter_some] using desk_free

theorem desk_bornAll (self : Object) (made : List Content) (w : World) :
    desk (w.bornAll self made) = desk w := by
  induction made generalizing w with
  | nil => rfl
  | cons content made ih => exact ih (w.born { self with content })

theorem desk_outcome (h : Inv none w) (hable : op.able w = true)
    (hout : Outcome env w op result w') :
    desk w' = (desk w).after (actsOf env w op result w') := by
  unfold actsOf
  rw [if_pos hable]
  cases hout with
  | failed _ stop hnot =>
      cases op with
      | invoke id method => exact absurd rfl (hnot hable id method)
      | _ => rfl
  | refused db names size result => rfl
  | read db => exact desk_checkout db
  | created db => exact desk_allocate _
  | lookedUp db names size result =>
      have hnext := image_eq_none h.notLiving_next
      rw [desk_free, desk_allocate]
      refine Desk.ext (fun _ => rfl) fun handle => ?_
      by_cases heq : handle = w.nextHandle
      · subst heq
        simp [desk, Desk.act, hnext]
      · simp [desk, Desk.act, heq]
  | stopped method hself hlist himage stop =>
      simpa [hself, hlist] using desk_write _ himage rfl
  | invoked method hself hlist himage content made =>
      rw [desk_bornAll]
      simpa [hself, hlist] using desk_write _ himage rfl
  | @saved id self handle image hself hlist himage =>
      simp only [hself, hlist, Option.bind_some, Option.map_some, Option.toList_some,
        Desk.after_cons, Desk.after_nil, desk_modify]
      refine Desk.ext (fun db => ?_) fun _ => rfl
      by_cases heq : db = self.db
      · subst heq
        simp [desk, Desk.act, himage, World.log]
      · simp [desk, Desk.act, heq, World.log]
  | copied hself => rfl
  | moved hself => rfl
  | assigned hself hvalue =>
      simpa [hself] using desk_release (h.assigned hself hvalue)
  | dropped hself => simpa [hself] using desk_release (h.erase hself)

theorem step_of_not_able {call : Call} (h : call.op.able w = false) : step env w call = w := by
  rw [step, h]
  rfl

theorem desk_step (h : Inv none w) (call : Call) :
    desk (step env w call) = (desk w).after (acts env w call) := by
  cases hable : call.op.able w with
  | true => exact desk_outcome h hable (step_outcome env h call)
  | false =>
      have hacts : acts env w call = [] := by simp [acts, actsOf, hable]
      rw [hacts, step_of_not_able hable]
      rfl

/-- The operations of a run, as acts. -/
def allActs (env : Env) (w : World) (calls : List Call) : List (Act DatabaseId Handle Image) :=
  Run.emitted (step env) (acts env) w calls

theorem desk_run (h : Inv none w) (calls : List Call) :
    desk (Run.after (step env) w calls) = (desk w).after (allActs env w calls) := by
  apply Run.view_after (I := Inv none)
  · exact fun _ call hinv => inv_step hinv call
  · exact fun _ call hinv => desk_step hinv call
  · exact h

/-! ## One session -/

theorem living_release {hand : Option Handle} (h : (w.release hand).living handle = true) :
    w.living handle = true := by
  unfold World.release at h
  split at h
  · exact h
  · split at h
    · exact h
    · exact (living_free.mp h).1

theorem living_bornAll (self : Object) (made : List Content) (w : World) :
    (w.bornAll self made).living handle = w.living handle := by
  induction made generalizing w with
  | nil => rfl
  | cons content made ih => exact ih (w.born { self with content })

/-- Numbers of lists are not used again. -/
theorem Outcome.living (hout : Outcome env w op result w') (hlt : handle < w.nextHandle)
    (h : w'.living handle = true) : w.living handle = true := by
  have hallocated : ∀ image, (w.allocate image).living handle = true → w.living handle = true :=
    fun image hliving => (living_allocate.mp hliving).resolve_left (Nat.ne_of_lt hlt)
  cases hout with
  | failed _ stop _ => exact h
  | refused db names size result => exact h
  | read db => exact hallocated _ h
  | created db => exact hallocated _ h
  | lookedUp db names size result => exact hallocated _ (living_free.mp h).1
  | stopped method hself hlist himage stop => exact living_write.symm.trans h
  | invoked method hself hlist himage content made =>
      rw [living_bornAll] at h
      exact living_write.symm.trans h
  | saved hself hlist himage => exact h
  | copied hself => exact h
  | moved hself => exact h
  | assigned hself hvalue =>
      have hkept := living_release h
      exact hkept
  | dropped hself =>
      have hkept := living_release h
      exact hkept

theorem nextHandle_release (hand : Option Handle) (w : World) :
    (w.release hand).nextHandle = w.nextHandle := by
  unfold World.release
  split
  · rfl
  · split <;> rfl

theorem nextHandle_bornAll (self : Object) (made : List Content) (w : World) :
    (w.bornAll self made).nextHandle = w.nextHandle := by
  induction made generalizing w with
  | nil => rfl
  | cons content made ih => exact ih (w.born { self with content })

theorem Outcome.nextHandle_le (hout : Outcome env w op result w') :
    w.nextHandle ≤ w'.nextHandle := by
  cases hout with
  | read db => exact Nat.le_succ _
  | created db => exact Nat.le_succ _
  | lookedUp db names size result => exact Nat.le_succ _
  | invoked method hself hlist himage content made =>
      rw [nextHandle_bornAll]
      exact Nat.le_refl _
  | assigned hself hvalue =>
      rw [nextHandle_release]
      exact Nat.le_refl _
  | dropped hself =>
      rw [nextHandle_release]
      exact Nat.le_refl _
  | _ => exact Nat.le_refl _

theorem renews_discarded {list : Option Handle} {a : Act DatabaseId Handle Image}
    (hliving : w'.living handle = true)
    (ha : a ∈ ((list.filter fun handle => !w'.living handle).map Act.discard).toList) :
    a.renews handle = false := by
  obtain ⟨other, hother, rfl⟩ := Option.map_eq_some_iff.mp (Option.mem_toList.mp ha)
  have hgone : w'.living other = false := by simpa using (Option.filter_eq_some_iff.mp hother).2
  refine decide_eq_false fun heq => ?_
  rw [heq, hliving] at hgone
  cases hgone

/-- A list that stays in memory is neither read again nor discarded. -/
theorem renews_acts {call : Call} (hlt : handle < w.nextHandle)
    (hliving : (step env w call).living handle = true) :
    ∀ a ∈ acts env w call, a.renews handle = false := by
  intro a ha
  unfold acts actsOf at ha
  split at ha
  · split at ha
    · rw [List.mem_singleton.mp ha]
      exact decide_eq_false (Nat.ne_of_gt hlt)
    · rw [List.mem_singleton.mp ha]
      exact decide_eq_false (Nat.ne_of_gt hlt)
    · obtain ⟨self, -, hmap⟩ := Option.bind_eq_some_iff.mp (Option.mem_toList.mp ha)
      obtain ⟨other, -, rfl⟩ := Option.map_eq_some_iff.mp hmap
      rfl
    · obtain ⟨self, -, hmap⟩ := Option.bind_eq_some_iff.mp (Option.mem_toList.mp ha)
      obtain ⟨other, -, rfl⟩ := Option.map_eq_some_iff.mp hmap
      rfl
    · exact renews_discarded hliving ha
    · exact renews_discarded hliving ha
    · cases ha
  · cases ha

theorem renews_allActs (h : Inv none w) {calls : List Call} (hlt : handle < w.nextHandle)
    (hliving : (Run.after (step env) w calls).living handle = true) :
    w.living handle = true ∧ ∀ a ∈ allActs env w calls, a.renews handle = false := by
  induction calls generalizing w with
  | nil => exact ⟨hliving, nofun⟩
  | cons call calls ih =>
      have hout := step_outcome env h call
      obtain ⟨hstep, hrest⟩ := ih (inv_step h call) (Nat.lt_of_lt_of_le hlt hout.nextHandle_le)
        hliving
      refine ⟨hout.living hlt hstep, fun a ha => ?_⟩
      rcases List.mem_append.mp ha with hfirst | hlater
      · exact renews_acts hlt hstep a hfirst
      · exact hrest a hlater

/-- What a session sees: the list that it began with, after the calls through its own objects. -/
theorem image_run (env : Env) (h : Inv none w) (calls : List Call) (hlt : handle < w.nextHandle)
    (hliving : (Run.after (step env) w calls).living handle = true) :
    (Run.after (step env) w calls).image (some handle) =
      (w.image (some handle)).map (replay (changes handle (allActs env w calls))) := by
  have hcopies := copies_after (d := desk w) (renews_allActs h hlt hliving).2
  rw [← desk_run h calls] at hcopies
  exact hcopies

/-! ## What the objects of a session know -/

/-- The objects of a session have a property of their database and of their flag. -/
def Marked (handle : Handle) (p : DatabaseId → Bool → Prop) (w : World) : Prop :=
  ∀ self ∈ w.objects, self.list = some handle → p self.db self.newlyCreated

variable {p : DatabaseId → Bool → Prop}

theorem Marked.born {self : Object} (h : Marked handle p w)
    (hself : self.list = some handle → p self.db self.newlyCreated) :
    Marked handle p (w.born self) := by
  intro object hobject hlist
  rcases List.mem_cons.mp hobject with rfl | hold
  · exact hself hlist
  · exact h object hold hlist

theorem Marked.bornAll {self : Object} (h : Marked handle p w)
    (hself : self.list = some handle → p self.db self.newlyCreated) (made : List Content) :
    Marked handle p (w.bornAll self made) := by
  induction made generalizing w with
  | nil => exact h
  | cons content made ih =>
      have hborn : Marked handle p (w.born { self with content }) := h.born hself
      exact ih hborn

theorem Marked.modify (h : Marked handle p w) (hinv : Inv hand w) {id : ObjectId} {self : Object}
    {f : Object → Object} (hobject : w.object id = some self)
    (hf : (f self).list = some handle → p (f self).db (f self).newlyCreated) :
    Marked handle p (w.modify id f) := by
  intro object hmem hlist
  rcases Table.mem_modify Object.id hobject hinv.objects hmem with rfl | ⟨hold, -⟩
  · exact hf hlist
  · exact h object hold hlist

theorem Marked.release {hand : Option Handle} (h : Marked handle p w) :
    Marked handle p (w.release hand) := by
  unfold World.release
  split
  · exact h
  · split <;> exact h

/-- Only a save changes what an object knows of its list. -/
theorem Marked.outcome (h : Marked handle p w) (hsaves : ∀ db flag, p db flag → p db false)
    (hinv : Inv none w) (hlt : handle < w.nextHandle) (hout : Outcome env w op result w') :
    Marked handle p w' := by
  have hnext : ¬ (some w.nextHandle = some handle) := fun heq =>
    Nat.ne_of_gt hlt (Option.some.inj heq)
  have hknown : ∀ {id : ObjectId} {self : Object}, w.object id = some self →
      self.list = some handle → p self.db self.newlyCreated :=
    fun hself => h _ (Table.mem_of_lookup _ hself)
  cases hout with
  | failed _ stop _ => exact h
  | refused db names size result => exact h
  | read db => exact Marked.born (w := w.allocate _) h fun heq => absurd heq hnext
  | created db => exact Marked.born (w := w.allocate _) h fun heq => absurd heq hnext
  | lookedUp db names size result => exact h
  | stopped method hself hlist himage stop => exact h
  | @invoked id self other image method hself hlist himage content made =>
      have hp : self.list = some handle → p self.db self.newlyCreated := hknown hself
      have hwritten : Marked handle p (w.write other (changed env self method image)) := h
      have hmodified := hwritten.modify (hinv.write other (changed env self method image))
        (f := fun self => { self with content }) hself hp
      exact hmodified.bornAll hp made
  | @saved id self other image hself hlist himage =>
      have hp : self.list = some handle → p self.db self.newlyCreated := hknown hself
      have hstored := hinv.stored other self.db self.newlyCreated
        (Function.update w.databases self.db image)
      have hkept : Marked handle p ({ w with databases := Function.update w.databases self.db image }.log
          (.stored other self.db self.newlyCreated)) := h
      exact hkept.modify hstored (f := fun self => { self with newlyCreated := false }) hself
        fun heq => hsaves _ _ (hp heq)
  | copied hself => exact h.born (hknown hself)
  | moved hself =>
      have hmoved := h.modify hinv hself (f := fun self => { self with list := none }) nofun
      exact hmoved.born (hknown hself)
  | @assigned id other self value hself hvalue =>
      have hp : value.list = some handle → p value.db value.newlyCreated := hknown hvalue
      have hassigned := h.modify hinv hself (f := fun self => { value with id := self.id }) hp
      exact hassigned.release
  | dropped hself =>
      refine Marked.release fun object hobject => ?_
      exact h object ((Table.mem_erase_iff _).mp hobject).1

theorem marked_run (env : Env) (h : Marked handle p w) (hsaves : ∀ db flag, p db flag → p db false)
    (hinv : Inv none w) (hlt : handle < w.nextHandle) (calls : List Call) :
    Marked handle p (Run.after (step env) w calls) := by
  induction calls generalizing w with
  | nil => exact h
  | cons call calls ih =>
      have hout := step_outcome env hinv call
      exact ih (h.outcome hsaves hinv hlt hout) (inv_step hinv call)
        (Nat.lt_of_lt_of_le hlt hout.nextHandle_le)

/-! ## What is stored -/

variable {native native' : Native} {db : DatabaseId} {id : ObjectId}

theorem step_read (h : Inv none w) (hread : ending env w ⟨native, .read db⟩ = .ok ()) :
    step env w ⟨native, .read db⟩ =
      (w.allocate (w.databases db)).born ⟨0, db, some w.nextHandle, false, .manager⟩ := by
  have hout := step_outcome env h ⟨native, .read db⟩
  rw [hread] at hout
  generalize step env w ⟨native, .read db⟩ = after at hout ⊢
  cases hout
  rfl

theorem step_save (h : Inv none w) (hsave : ending env w ⟨native, .save id⟩ = .ok ()) :
    ∃ self handle image, w.object id = some self ∧ self.list = some handle ∧
      w.image (some handle) = some image ∧
      (step env w ⟨native, .save id⟩).databases = Function.update w.databases self.db image ∧
      (step env w ⟨native, .save id⟩).trace =
        .stored handle self.db self.newlyCreated :: w.trace := by
  have hout := step_outcome env h ⟨native, .save id⟩
  rw [hsave] at hout
  generalize step env w ⟨native, .save id⟩ = after at hout ⊢
  cases hout with
  | saved hself hlist himage => exact ⟨_, _, _, hself, hlist, himage, rfl, rfl⟩

/-- The operation stores a list in the database. -/
def Saves (env : Env) (db : DatabaseId) (w : World) (call : Call) : Prop :=
  ∃ id self, call.op = .save id ∧ ending env w call = .ok () ∧ w.object id = some self ∧ self.db = db

theorem writes_acts {call : Call} (hnot : ¬ Saves env db w call) :
    ∀ a ∈ acts env w call, a.writes db = false := by
  obtain ⟨native, op⟩ := call
  intro a ha
  unfold acts actsOf at ha
  split at ha
  · split at ha
    · rw [List.mem_singleton.mp ha]
      rfl
    · rw [List.mem_singleton.mp ha]
      rfl
    · obtain ⟨self, -, hmap⟩ := Option.bind_eq_some_iff.mp (Option.mem_toList.mp ha)
      obtain ⟨other, -, rfl⟩ := Option.map_eq_some_iff.mp hmap
      rfl
    · next id _ hop hending =>
      obtain ⟨self, hself, hmap⟩ := Option.bind_eq_some_iff.mp (Option.mem_toList.mp ha)
      obtain ⟨other, -, rfl⟩ := Option.map_eq_some_iff.mp hmap
      exact decide_eq_false fun heq => hnot ⟨id, self, hop, hending, hself, heq⟩
    · obtain ⟨other, -, rfl⟩ := Option.map_eq_some_iff.mp (Option.mem_toList.mp ha)
      rfl
    · obtain ⟨other, -, rfl⟩ := Option.map_eq_some_iff.mp (Option.mem_toList.mp ha)
      rfl
    · cases ha
  · cases ha

/-- Nothing but a save changes what is stored. -/
theorem databases_run (h : Inv none w) {calls : List Call}
    (hnone : Run.Along (step env) (fun w call => ¬ Saves env db w call) w calls) :
    (Run.after (step env) w calls).databases db = w.databases db := by
  have hwrites : ∀ a ∈ allActs env w calls, a.writes db = false := by
    induction calls generalizing w with
    | nil => exact nofun
    | cons call calls ih =>
        intro a ha
        rcases List.mem_append.mp ha with hfirst | hlater
        · exact writes_acts hnone.1 a hfirst
        · exact ih (inv_step h call) hnone.2 a hlater
  have hstored := stored_after (d := desk w) hwrites
  rw [← desk_run h calls] at hstored
  exact Option.some.inj hstored

/-- What is stored is what the session that was saved last had read when it began, after the calls
through its own objects. What other sessions have stored since it began is lost. The list is
stored as one that was not created. -/
theorem stored_by_session (env : Env) (databases : DatabaseId → Image)
    (before calls later : List Call) (native native' : Native) (db : DatabaseId) (id : ObjectId)
    (self : Object) :
    let w := Run.after (step env) (World.start databases) before
    let opened := step env w ⟨native, .read db⟩
    let w' := Run.after (step env) opened calls
    let saved := step env w' ⟨native', .save id⟩
    ending env w ⟨native, .read db⟩ = .ok () → w'.object id = some self →
    self.list = some w.nextHandle → ending env w' ⟨native', .save id⟩ = .ok () →
    Run.Along (step env) (fun w call => ¬ Saves env db w call) saved later →
      (Run.after (step env) saved later).databases db =
        replay (changes w.nextHandle (allActs env opened calls)) (w.databases db) ∧
      saved.trace = .stored w.nextHandle db false :: w'.trace := by
  intro w opened w' saved hread hself hlist hsave hlater
  have hinv : Inv none w := inv_run databases before
  have hinvOpened : Inv none opened := inv_step hinv _
  have hinv' : Inv none w' := inv_after hinvOpened calls
  have hopened : opened =
      (w.allocate (w.databases db)).born ⟨0, db, some w.nextHandle, false, .manager⟩ :=
    step_read hinv hread
  have hlt : w.nextHandle < opened.nextHandle := by
    rw [hopened]
    exact Nat.lt_succ_self _
  obtain ⟨object, handle, image, hobject, hhandle, himage, hdatabases, htrace⟩ :=
    step_save hinv' hsave
  obtain rfl : object = self := Option.some.inj (hobject.symm.trans hself)
  obtain rfl : handle = w.nextHandle := Option.some.inj (hhandle.symm.trans hlist)
  -- the objects that share the list know its database, and that it was read
  have hmarked : Marked w.nextHandle (fun db' flag => db' = db ∧ flag = false) opened := by
    rw [hopened]
    intro other hother heq
    rcases List.mem_cons.mp hother with rfl | hold
    · exact ⟨rfl, rfl⟩
    · have hliving := hinv.living other hold _ heq
      rw [hinv.notLiving_next] at hliving
      cases hliving
  obtain ⟨hdb, hflag⟩ := marked_run env hmarked (fun _ _ hp => ⟨hp.1, rfl⟩) hinvOpened hlt
    calls object (Table.mem_of_lookup _ hobject) hhandle
  have hsees := image_run env hinvOpened calls hlt (by rw [← isSome_image, himage]; rfl)
  have hbegin : opened.image (some w.nextHandle) = some (w.databases db) := by
    rw [hopened]
    exact image_allocate _
  rw [himage, hbegin] at hsees
  constructor
  · rw [databases_run (inv_step hinv' _) hlater, hdatabases, hdb, Function.update_self]
    exact Option.some.inj hsees
  · rw [htrace, hdb, hflag]

/-! ## Two sessions -/

def sampleEnv : Env where
  toEnv := Acl.sampleEnv
  created := ⟨⟨fun _ => none, []⟩, []⟩
  lookup _ _ := (0, 0, 0)
  canonicalize name := name

/-- Every database has an administration server and nothing else. -/
def sampleDatabases : DatabaseId → Image := fun _ => ⟨⟨fun _ => none, []⟩, [0x53]⟩

def sampleRole : Acl.Role := ⟨[0x52], List.cons_ne_nil _ _⟩

def succeeds (op : Op) : Call := ⟨Acl.sampleEnv.native, op⟩

/-- A second session inserts a role and is saved, and the first one clears the server. -/
def overlapping : List Call :=
  [succeeds (.read 0), succeeds (.invoke 1 .roles),
    succeeds (.invoke 2 (.set 0 sampleRole)), succeeds (.save 1),
    succeeds (.invoke 0 (.setAdminServer []))]

/-- The role is lost when the first session is saved. -/
theorem stored_by_session_overlapping :
    let opened := step sampleEnv (World.start sampleDatabases) (succeeds (.read 0))
    let w := Run.after (step sampleEnv) opened overlapping
    w.databases 0 = ⟨⟨fun num => if num = 5 then some [0x52] else none, []⟩, [0x53]⟩ ∧
      (step sampleEnv w (succeeds (.save 0))).databases 0 = ⟨⟨fun _ => none, []⟩, []⟩ := by
  refine ⟨rfl, ?_⟩
  exact (stored_by_session sampleEnv sampleDatabases [] overlapping [] Acl.sampleEnv.native
    Acl.sampleEnv.native 0 0 ⟨0, 0, some 0, false, .manager⟩ rfl rfl rfl rfl trivial).1

/-! ## Memory -/

/-- An object has its list as long as it was not moved from, and a list is freed once, when no
object has it any more. -/
theorem lists_freed (env : Env) (databases : DatabaseId → Image) (calls : List Call) :
    let w := Run.after (step env) (World.start databases) calls
    (∀ self ∈ w.objects, ∀ handle, self.list = some handle → (w.image (some handle)).isSome) ∧
      ∀ handle, frees w.trace handle =
        if .allocated handle ∈ w.trace ∧ w.held handle = false then 1 else 0 := by
  intro w
  have h : Inv none w := inv_run databases calls
  refine ⟨fun self hself handle hlist => ?_, fun handle => ?_⟩
  · rw [isSome_image]
    exact h.living self hself handle hlist
  · have hfreed := h.freed handle
    have hallocated := h.allocated handle
    have hmem : .allocated handle ∈ w.trace ↔ handle < w.nextHandle := by
      rw [← List.count_pos_iff]
      show 0 < allocations w.trace handle ↔ _
      rw [hallocated]
      split <;> simp_all
    have hliving : w.living handle = true ↔ w.held handle = true := by
      refine ⟨fun hliving => (h.held handle hliving).resolve_right nofun, fun hheld => ?_⟩
      obtain ⟨self, hself, hlist⟩ := held_iff.mp hheld
      exact h.living self hself handle hlist
    have hlt := h.blocks_lt handle
    rw [hallocated] at hfreed
    cases hheld : w.held handle <;> cases hlive : w.living handle <;>
      simp_all

end Dmn.AclSession
