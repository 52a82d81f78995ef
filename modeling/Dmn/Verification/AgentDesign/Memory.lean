import Dmn.Model.AttachedObject
import Dmn.Verification.LockerMemory

/-! # Memory and the rest of the world

Work on the memory leaves the note and the database as they are. An exception that leaves the scope of
an owner frees its memory. -/

namespace Dmn.AttachedObject

open Exec Native Locker

variable {α : Type} {start : Heap} {F : World → Prop}

/-- An exception, with what holds of the memory and of the rest of the world. -/
def Stops (F : World → Prop) (heap : Heap → Prop) (stop : Stop) (s : Called World) : Prop :=
  stop ≠ .undefined ∧ heap s.value.heap ∧ F s.value

/-- The property does not speak of the memory. -/
def OfRest (F : World → Prop) : Prop := ∀ w heap, F w → F { w with heap := heap }

theorem meets_onHeap_of_rest (hF : OfRest F) {P R : Heap → Prop} {Q : α → Heap → Prop}
    {x : Heap.M α}
    (hx : Meets (fun s : Called Heap => P s.value) x (fun a s => Q a s.value) (Throws R)) :
    Meets (fun s => F s.value ∧ P s.value.heap) (onHeap x)
      (fun a s => F s.value ∧ Q a s.value.heap) (Stops F R) := by
  refine Meets.of_start fun s₀ hs₀ => ?_
  unfold onHeap Native.part
  refine Meets.focus (hx.weaken ?_ (fun _ _ hs => hs) fun _ _ hs => hs)
    (fun a t ht => ⟨hF _ _ hs₀.1, ht⟩) fun stop t ht => ⟨ht.1, ht.2, hF _ _ hs₀.1⟩
  rintro s rfl
  exact hs₀.2

/-- The program ends what an exception leaves behind. -/
theorem meets_leaving (hF : OfRest F) {P : Called World → Prop} {x : M α}
    {Q : α → Called World → Prop} {R R' : Heap → Prop} {leave : Heap.M Unit}
    (hleave : Meets (fun s : Called Heap => R s.value) leave (fun _ s => R' s.value) (Throws R'))
    (hx : Meets P x Q (Stops F R)) :
    Meets P (tryCatch x fun stop => do
      onHeap leave
      throw stop) Q (Stops F R') := by
  refine hx.tryCatch fun stop => ?_
  rintro s ⟨hstop, hheap, hrest⟩
  have hdone : Meets (fun s => F s.value ∧ R s.value.heap) (do
      onHeap leave
      throw stop : M α) Q (Stops F R') :=
    (meets_onHeap_of_rest hF hleave).bind fun _ => Meets.throw fun t ht => ⟨hstop, ht.2, ht.1⟩
  exact hdone s ⟨hrest, hheap⟩

/-- An exception destroys the locker. -/
theorem meets_guarded_of_rest (hF : OfRest F) {locker : Locker} {P : Called World → Prop} {x : M α}
    {Q : α → Called World → Prop}
    (hx : Meets P x Q (Stops F fun heap => ∃ bytes, Owns start bytes locker heap)) :
    Meets P (guarded locker x) Q (Stops F (Left start)) := by
  refine meets_leaving hF (Meets.of_exists fun bytes => ?_) hx
  have hdestroy : Meets (fun s : Called Heap => Owns start bytes locker s.value) locker.destroy
      (fun _ s => Settled start s.value) (Throws (Left start)) := meets_destroy_of_owns
  exact hdestroy.weaken (fun _ hs => hs) (fun _ _ hs => hs.left) fun _ _ hs => hs

end Dmn.AttachedObject
