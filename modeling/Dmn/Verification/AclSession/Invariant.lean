import Dmn.Library.Run
import Dmn.Model.AclSession

/-! # Lists and the objects that hold them

A list is in memory as long as an object has a pointer to it. Inside of an operation one more
pointer may be on its way to an object, or from one. -/

namespace Dmn.AclSession

variable {w : World} {hand : Option Handle} {handle other : Handle} {id : ObjectId}
  {self : Object} {f : Object → Object} {image : Image}

def World.living (handle : Handle) (w : World) : Bool :=
  w.memory.any fun block => block.handle = handle

def allocations (trace : List Event) (handle : Handle) : Nat := trace.count (.allocated handle)

def frees (trace : List Event) (handle : Handle) : Nat := trace.count (.freed handle)

/-! ## Memory -/

theorem image_some (handle : Handle) (w : World) : w.image (some handle) =
    (Table.lookup Block.handle handle w.memory).map Block.image := rfl

theorem living_iff : w.living handle = true ↔ handle ∈ w.memory.map Block.handle := by
  simp [World.living]

theorem isSome_image (handle : Handle) (w : World) :
    (w.image (some handle)).isSome = w.living handle := by
  rw [image_some, Option.isSome_map, Table.lookup, List.isSome_find?]
  rfl

theorem exists_image (h : w.living handle = true) : ∃ image, w.image (some handle) = some image :=
  Option.isSome_iff_exists.mp ((isSome_image handle w).trans h)

theorem image_write (h : w.living handle = true) (image : Image) :
    (w.write handle image).image (some handle) = some image := by
  rw [← isSome_image, image_some, Option.isSome_map] at h
  obtain ⟨block, hblock⟩ := Option.isSome_iff_exists.mp h
  have hmodified : Table.lookup Block.handle handle (w.write handle image).memory =
      some { block with image } := by
    have hkey : block.handle = handle := Table.key_of_lookup Block.handle hblock
    exact Table.lookup_modify Block.handle hblock hkey (.inl rfl)
  rw [image_some, hmodified]
  rfl

theorem image_write_of_ne (hne : other ≠ handle) (image : Image) :
    (w.write handle image).image (some other) = w.image (some other) := by
  rw [image_some, World.write, Table.lookup_modify_of_ne _ _ _ hne]
  · rfl
  · exact fun _ => rfl

theorem handles_write (handle : Handle) (image : Image) (w : World) :
    (w.write handle image).memory.map Block.handle = w.memory.map Block.handle := by
  refine Table.map_modify Block.handle ?_ _
  exact fun _ => rfl

theorem living_write : (w.write handle image).living other = w.living other := by
  rw [Bool.eq_iff_iff, living_iff, living_iff, handles_write]

theorem living_allocate : (w.allocate image).living handle = true ↔
    handle = w.nextHandle ∨ w.living handle = true := by
  rw [living_iff, living_iff]
  exact List.mem_cons

theorem image_allocate (image : Image) :
    (w.allocate image).image (some w.nextHandle) = some image := by
  have hlookup : Table.lookup Block.handle w.nextHandle (w.allocate image).memory =
      some ⟨w.nextHandle, image⟩ := Table.lookup_cons_of_eq Block.handle _ rfl
  rw [image_some, hlookup]
  rfl

theorem image_allocate_of_ne (hne : handle ≠ w.nextHandle) (image : Image) :
    (w.allocate image).image (some handle) = w.image (some handle) := by
  have hlookup : Table.lookup Block.handle handle (w.allocate image).memory =
      Table.lookup Block.handle handle w.memory :=
    Table.lookup_cons_of_ne Block.handle _ (Ne.symm hne)
  rw [image_some, hlookup]
  rfl

theorem living_free :
    (w.free handle).living other = true ↔ w.living other = true ∧ other ≠ handle := by
  simp only [living_iff, World.free, List.mem_map]
  constructor
  · rintro ⟨block, hblock, rfl⟩
    obtain ⟨hmem, hne⟩ := (Table.mem_erase_iff _).mp hblock
    exact ⟨⟨block, hmem, rfl⟩, hne⟩
  · rintro ⟨⟨block, hmem, rfl⟩, hne⟩
    exact ⟨block, (Table.mem_erase_iff _).mpr ⟨hmem, hne⟩, rfl⟩

theorem image_free_of_ne (hne : other ≠ handle) :
    (w.free handle).image (some other) = w.image (some other) := by
  rw [image_some, World.free, Table.lookup_erase_of_ne _ _ hne]
  rfl

theorem held_iff : w.held handle = true ↔ ∃ self ∈ w.objects, self.list = some handle := by
  simp [World.held]

/-! ## Counting -/

theorem allocations_allocate (w : World) (image : Image) (handle : Handle) :
    allocations (w.allocate image).trace handle =
      allocations w.trace handle + if w.nextHandle = handle then 1 else 0 := by
  simp [allocations, World.allocate, World.log, List.count_cons]

theorem frees_allocate (w : World) (image : Image) (handle : Handle) :
    frees (w.allocate image).trace handle = frees w.trace handle := by
  simp [frees, World.allocate, World.log]

theorem allocations_free (w : World) (handle other : Handle) :
    allocations (w.free handle).trace other = allocations w.trace other := by
  simp [allocations, World.free, World.log]

theorem frees_free (w : World) (handle other : Handle) : frees (w.free handle).trace other =
    frees w.trace other + if handle = other then 1 else 0 := by
  simp [frees, World.free, World.log, List.count_cons]

/-! ## The invariant -/

/-- `hand` is the pointer that is on its way. -/
structure Inv (hand : Option Handle) (w : World) : Prop where
  objects : (w.objects.map Object.id).Nodup
  objects_lt : ∀ self ∈ w.objects, self.id < w.nextObject
  blocks : (w.memory.map Block.handle).Nodup
  blocks_lt : ∀ handle, w.living handle = true → handle < w.nextHandle
  living : ∀ self ∈ w.objects, ∀ handle, self.list = some handle → w.living handle = true
  hand_living : ∀ handle, hand = some handle → w.living handle = true
  held : ∀ handle, w.living handle = true → w.held handle = true ∨ hand = some handle
  allocated : ∀ handle, allocations w.trace handle = if handle < w.nextHandle then 1 else 0
  freed : ∀ handle, frees w.trace handle + (if w.living handle then 1 else 0) =
    allocations w.trace handle

theorem inv_start (databases : DatabaseId → Image) : Inv none (World.start databases) where
  objects := List.nodup_nil
  objects_lt := nofun
  blocks := List.nodup_nil
  blocks_lt := nofun
  living := nofun
  hand_living := nofun
  held := nofun
  allocated _ := rfl
  freed _ := rfl

namespace Inv

theorem notLiving_next (h : Inv hand w) : w.living w.nextHandle = false := by
  by_contra hliving
  exact absurd (h.blocks_lt _ (by simpa using hliving)) (Nat.lt_irrefl _)

/-! ## Lists -/

theorem allocate (h : Inv none w) (image : Image) : Inv (some w.nextHandle) (w.allocate image) where
  objects := h.objects
  objects_lt := h.objects_lt
  blocks := by
    refine List.nodup_cons.mpr ⟨?_, h.blocks⟩
    rw [← living_iff, h.notLiving_next]
    exact Bool.false_ne_true
  blocks_lt handle hliving := by
    rcases living_allocate.mp hliving with rfl | hold
    · exact Nat.lt_succ_self _
    · exact Nat.lt_succ_of_lt (h.blocks_lt handle hold)
  living self hself handle hlist := living_allocate.mpr (.inr (h.living self hself handle hlist))
  hand_living handle heq := living_allocate.mpr (.inl (Option.some.inj heq).symm)
  held handle hliving := by
    rcases living_allocate.mp hliving with rfl | hold
    · exact .inr rfl
    · exact .inl ((h.held handle hold).resolve_right nofun)
  allocated handle := by
    have hcount := h.allocated handle
    rw [allocations_allocate, hcount]
    show _ = if handle < w.nextHandle + 1 then 1 else 0
    grind
  freed handle := by
    have hcount := h.freed handle
    rw [allocations_allocate, frees_allocate, ← hcount]
    by_cases heq : w.nextHandle = handle
    · subst heq
      simp [living_allocate, h.notLiving_next]
    · simp [living_allocate, heq, Ne.symm heq]

theorem free (h : Inv (some handle) w) (hheld : w.held handle = false) : Inv none (w.free handle) where
  objects := h.objects
  objects_lt := h.objects_lt
  blocks := h.blocks.sublist (List.filter_sublist.map _)
  blocks_lt other hliving := h.blocks_lt other (living_free.mp hliving).1
  living self hself other hlist := by
    refine living_free.mpr ⟨h.living self hself other hlist, ?_⟩
    rintro rfl
    have hheld' : w.held other = true := held_iff.mpr ⟨self, hself, hlist⟩
    rw [hheld] at hheld'
    cases hheld'
  hand_living := nofun
  held other hliving := by
    obtain ⟨hold, hne⟩ := living_free.mp hliving
    refine .inl ((h.held other hold).resolve_right fun heq => ?_)
    exact hne (Option.some.inj heq).symm
  allocated other := by
    rw [allocations_free]
    exact h.allocated other
  freed other := by
    have hcount := h.freed other
    rw [allocations_free, frees_free, ← hcount]
    by_cases heq : handle = other
    · subst heq
      simp [living_free, h.hand_living handle rfl]
    · simp [living_free, heq, Ne.symm heq]

theorem write (h : Inv hand w) (handle : Handle) (image : Image) :
    Inv hand (w.write handle image) where
  objects := h.objects
  objects_lt := h.objects_lt
  blocks := by
    rw [handles_write]
    exact h.blocks
  blocks_lt other hliving := h.blocks_lt other (living_write.symm.trans hliving)
  living self hself other hlist := living_write.trans (h.living self hself other hlist)
  hand_living other heq := living_write.trans (h.hand_living other heq)
  held other hliving := h.held other (living_write.symm.trans hliving)
  allocated := h.allocated
  freed other := by
    rw [living_write]
    exact h.freed other

theorem stored (h : Inv hand w) (handle : Handle) (db : DatabaseId) (newlyCreated : Bool)
    (databases : DatabaseId → Image) :
    Inv hand ({ w with databases }.log (.stored handle db newlyCreated)) where
  objects := h.objects
  objects_lt := h.objects_lt
  blocks := h.blocks
  blocks_lt := h.blocks_lt
  living := h.living
  hand_living := h.hand_living
  held := h.held
  allocated other := by
    refine Eq.trans ?_ (h.allocated other)
    simp [allocations, World.log]
  freed other := by
    have hfrees : frees (.stored handle db newlyCreated :: w.trace) other = frees w.trace other := by
      simp [frees]
    have hallocations : allocations (.stored handle db newlyCreated :: w.trace) other =
        allocations w.trace other := by
      simp [allocations]
    have hcount := h.freed other
    rw [← hfrees, ← hallocations] at hcount
    exact hcount

/-! ## Objects -/

/-- An object gets the pointer. -/
theorem born (h : Inv hand w) (hliving : ∀ handle, self.list = some handle → w.living handle = true)
    (hhand : ∀ handle, hand = some handle → self.list = some handle) : Inv none (w.born self) where
  objects := by
    refine List.nodup_cons.mpr ⟨fun hmem => ?_, h.objects⟩
    obtain ⟨object, hobject, heq⟩ := List.mem_map.mp hmem
    exact absurd (h.objects_lt object hobject) (by rw [heq]; exact Nat.lt_irrefl _)
  objects_lt object hobject := by
    rcases List.mem_cons.mp hobject with rfl | hold
    · exact Nat.lt_succ_self _
    · exact Nat.lt_succ_of_lt (h.objects_lt object hold)
  blocks := h.blocks
  blocks_lt := h.blocks_lt
  living object hobject handle hlist := by
    rcases List.mem_cons.mp hobject with rfl | hold
    · exact hliving handle hlist
    · exact h.living object hold handle hlist
  hand_living := nofun
  held handle hmem := by
    refine .inl (held_iff.mpr ?_)
    rcases h.held handle hmem with hheld | heq
    · obtain ⟨object, hobject, hlist⟩ := held_iff.mp hheld
      exact ⟨object, List.mem_cons_of_mem _ hobject, hlist⟩
    · exact ⟨_, List.mem_cons_self, hhand handle heq⟩
  allocated := h.allocated
  freed := h.freed

/-- An object changes, and gives its pointer away. -/
theorem modify (h : Inv none w) (hself : w.object id = some self) (hid : ∀ self, (f self).id = self.id)
    (hliving : ∀ handle, (f self).list = some handle → w.living handle = true)
    (hhand : hand = self.list ∨ hand = none ∧ (f self).list = self.list) :
    Inv hand (w.modify id f) where
  objects := by
    have hids : (w.modify id f).objects.map Object.id = w.objects.map Object.id :=
      Table.map_modify Object.id hid w.objects
    rw [hids]
    exact h.objects
  objects_lt := Table.forall_key_modify (p := (· < w.nextObject)) Object.id hid h.objects_lt
  blocks := h.blocks
  blocks_lt := h.blocks_lt
  living object hobject handle hlist := by
    rcases Table.mem_modify Object.id hself h.objects hobject with rfl | ⟨hmem, -⟩
    · exact hliving handle hlist
    · exact h.living object hmem handle hlist
  hand_living handle heq := by
    rcases hhand with rfl | ⟨rfl, -⟩
    · exact h.living self (Table.mem_of_lookup _ hself) handle heq
    · cases heq
  held handle hmem := by
    obtain ⟨object, hobject, hlist⟩ := held_iff.mp ((h.held handle hmem).resolve_right nofun)
    by_cases hkey : object.id = id
    · obtain rfl : object = self := by
        have hlookup := Table.lookup_of_mem Object.id hobject h.objects
        rw [hkey] at hlookup
        exact Option.some.inj (hlookup.symm.trans hself)
      rcases hhand with rfl | ⟨rfl, hkept⟩
      · exact .inr hlist
      · exact .inl (held_iff.mpr ⟨f object, Table.mem_modify_self Object.id hself,
          hkept.trans hlist⟩)
    · exact .inl (held_iff.mpr ⟨object, Table.mem_modify_of_ne Object.id hobject hkey, hlist⟩)
  allocated := h.allocated
  freed := h.freed

theorem erase (h : Inv none w) (hself : w.object id = some self) :
    Inv self.list (w.erase id) where
  objects := h.objects.sublist (List.filter_sublist.map _)
  objects_lt object hobject := h.objects_lt object ((Table.mem_erase_iff _).mp hobject).1
  blocks := h.blocks
  blocks_lt := h.blocks_lt
  living object hobject := h.living object ((Table.mem_erase_iff _).mp hobject).1
  hand_living handle heq := h.living self (Table.mem_of_lookup _ hself) handle heq
  held handle hmem := by
    obtain ⟨object, hobject, hlist⟩ := held_iff.mp ((h.held handle hmem).resolve_right nofun)
    by_cases hkey : object.id = id
    · obtain rfl : object = self := by
        have hlookup := Table.lookup_of_mem Object.id hobject h.objects
        rw [hkey] at hlookup
        exact Option.some.inj (hlookup.symm.trans hself)
      exact .inr hlist
    · exact .inl (held_iff.mpr ⟨object, (Table.mem_erase_iff _).mpr ⟨hobject, hkey⟩, hlist⟩)
  allocated := h.allocated
  freed := h.freed

theorem release (h : Inv hand w) : Inv none (w.release hand) := by
  unfold World.release
  split
  · exact h
  · next handle =>
    split
    · next hheld =>
      exact ⟨h.objects, h.objects_lt, h.blocks, h.blocks_lt, h.living, nofun,
        fun other hliving => .inl ((h.held other hliving).elim id fun heq =>
          (Option.some.inj heq) ▸ hheld), h.allocated, h.freed⟩
    · next hheld => exact h.free (by simpa using hheld)

end Inv

end Dmn.AclSession
