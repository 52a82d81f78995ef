import Dmn.Verification.AgentDesign.Memory
import Dmn.Verification.AgentDesign.Setters

/-! # The run object of a new agent

An object is allocated, an item is made to refer to it, and its data are written. When one of these
steps stops, the object is freed. -/

namespace Dmn.AgentDesign

open Exec Native Agent AttachedObject Locker

variable {α : Type} {env : Env} {w : World} {bytes : List UInt8} {items : List Item} {taken : ℕ}

/-! ## Data -/

theorem plain_assistRuninfoItem : Plain assistRuninfoItem :=
  plain_asciiBytes (by decide) (by decide)

theorem Plain.fromString (hascii : Lmbcs.KeepsAscii env.codePage) {key : List UInt8}
    (h : Plain key) : Lmbcs.fromString env.codePage key = key := by
  obtain ⟨text, htext, hlength, rfl⟩ := h
  exact hascii.fromString_asciiBytes htext hlength

theorem Env.native_objects (env : Env) : env.objects.native = env.native := rfl

/-- What the object of a new agent has. -/
def runData (env : Env) : List UInt8 :=
  env.records.write odsAssistRunObjectHeader (.runObjectHeader 1) ++
    env.records.write odsAssistRunObjectEntry .runObjectEntry

/-- The item that refers to the object. -/
def runInfoItem (env : Env) (rrv : ℕ) : Item :=
  ⟨assistRuninfoItem, Note.itemSummary, typeObject,
    env.descriptors.write objectDescriptor ⟨assistRunData, rrv⟩⟩

/-- The number of the next object is new. -/
structure Numbered (w : World) : Prop where
  next : 0 < w.rrvs.next
  lt : ∀ object ∈ w.objects, object.rrv < w.rrvs.next

theorem Numbered.lookup (h : Numbered w) :
    Table.lookup DbObject.rrv w.rrvs.next w.objects = none := by
  rw [Table.lookup_eq_none_iff]
  exact fun object hobject => Nat.ne_of_lt (h.lt object hobject)

/-- The program has an object with these bytes. It has put the items, and given some blocks of memory
away. -/
structure Stage (w : World) (bytes : List UInt8) (items : List Item) (taken : ℕ) (v : World) :
    Prop where
  items : v.items = w.items ++ items
  objects : v.objects = w.objects ++ [⟨w.rrvs.next, bytes⟩]
  rrvs : v.rrvs = w.rrvs.opens
  taken : v.taken.length = w.taken.length + taken

theorem Stage.heap {v : World} (h : Stage w bytes items taken v) (heap : Heap) :
    Stage w bytes items taken { v with heap := heap } := ⟨h.items, h.objects, h.rrvs, h.taken⟩

/-- An exception, in a world with an object. -/
def Stopped (w : World) : (Heap → Prop) → Stop → Called World → Prop :=
  Stops fun v => ∃ bytes items taken, Stage w bytes items taken v

/-- Work on the memory leaves the rest of the world. -/
theorem meets_onHeap {P R : Heap → Prop} {Q : α → Heap → Prop} {x : Heap.M α}
    (hx : Meets (fun s : Called Heap => P s.value) x (fun a s => Q a s.value) (Throws R)) :
    Meets (fun s => Stage w bytes items taken s.value ∧ P s.value.heap) (onHeap x)
      (fun a s => Stage w bytes items taken s.value ∧ Q a s.value.heap) (Stopped w R) :=
  (meets_onHeap_of_rest (fun _ heap hstage => hstage.heap heap) hx).weaken (fun _ hs => hs)
    (fun _ _ hs => hs) fun _ _ hs => ⟨hs.1, hs.2.1, bytes, items, taken, hs.2.2⟩

/-- An exception destroys the locker. -/
theorem meets_guarded_object {locker : Locker} {P : Called World → Prop} {x : AttachedObject.M α}
    {Q : α → Called World → Prop} (hx : Meets P x Q
      (Stopped w fun heap => ∃ bytes, Owns w.heap bytes locker heap)) :
    Meets P (AttachedObject.guarded locker x) Q (Stopped w (Left w.heap)) :=
  meets_guarded_of_rest (fun _ heap ⟨bytes, items, taken, hstage⟩ =>
    ⟨bytes, items, taken, hstage.heap heap⟩) hx

/-- Two writes fill a block. -/
theorem exec_fill {first second : List UInt8} (hlength : first.length + second.length = bytes.length)
    (hsize : bytes.length < 2 ^ 32) : ∃ c, c.buffer = first ++ second ∧
      exec (do
        Cursor.write first
        Cursor.write second) (Cursor.make (some bytes)) = (.ok (), c) := by
  have hmake : Cursor.make (some bytes) = Cursor.filled [] bytes := rfl
  have hwhole : ([] : List UInt8).length + bytes.length < 2 ^ 32 := by
    rwa [List.length_nil, Nat.zero_add]
  have hrest : first.length + (bytes.drop first.length).length < 2 ^ 32 := by
    rw [List.length_drop]
    omega
  have hfit : second.length ≤ (bytes.drop first.length).length := by
    rw [List.length_drop]
    omega
  have hfirst : exec (Cursor.write first) (Cursor.make (some bytes)) =
      (.ok (), Cursor.filled first (bytes.drop first.length)) := by
    rw [hmake, Cursor.exec_write_filled (by omega) hwhole, List.nil_append]
  have hsecond := Cursor.exec_write_filled hfit hrest
  refine ⟨_, ?_, (exec_bind_of_ok hfirst).trans hsecond⟩
  rw [List.drop_drop, List.drop_eq_nil_of_le (by omega)]
  exact List.append_nil _

/-- The memory of the locker is filled. -/
theorem meets_fill {locker : Locker} {first second : List UInt8} {size : ℕ}
    (hlength : first.length + second.length = size) (hsize : size < 2 ^ 32)
    {R : Heap → Prop} :
    Meets (fun s => Stage w bytes items taken s.value ∧ Owned w.heap size locker s.value.heap)
      (onHeap (locker.through do
        Cursor.write first
        Cursor.write second))
      (fun _ s => Stage w bytes items taken s.value ∧
        Owns w.heap (first ++ second) locker s.value.heap) (Stopped w R) := by
  rintro s ⟨hstage, data, howns, rfl⟩
  obtain ⟨c, hc, hfill⟩ := exec_fill hlength hsize
  have hbuffer : c.buffer.length = data.length := by rw [hc, List.length_append, hlength]
  have hthrough : Meets
      (fun s => Stage w bytes items taken s.value ∧ Owns w.heap data locker s.value.heap)
      (onHeap (locker.through do
        Cursor.write first
        Cursor.write second))
      (fun _ s => Stage w bytes items taken s.value ∧ Owns w.heap c.buffer locker s.value.heap)
      (Stopped w R) := meets_onHeap (meets_through hfill hbuffer)
  rw [← hc]
  exact hthrough s ⟨hstage, howns⟩

/-- The constructor. -/
theorem meets_construct {size : ℕ} (hsize : size < 2 ^ 32) (objectType : UInt16) :
    Meets (fun s => s.value = w) (construct env.objects objectType size)
      (fun self s => ((∃ bytes, bytes.length = size ∧ Stage w bytes [] 0 s.value) ∧
        s.value.heap = w.heap) ∧ self = ⟨objectType, w.rrvs.next⟩)
      (fun stop s => stop ≠ .undefined ∧ s.value = w) := by
  rintro s rfl
  have hcall : exec (nsfDbAllocObject env.objects size) s =
      if (env.native.status s.calls).isError then
        (.ok (env.native.status s.calls, 0), { s with calls := s.calls + 1 })
      else (.ok (env.native.status s.calls, s.value.rrvs.next), ⟨s.calls + 1, { s.value with
        objects := s.value.objects ++ [⟨s.value.rrvs.next,
          (List.range (size % 2 ^ 32)).map (env.native.garbage s.calls)⟩]
        rrvs := s.value.rrvs.opens }⟩) := by
    rw [nsfDbAllocObject, exec_bind_of_ok (exec_get s), exec_bind_of_ok (exec_call s),
      Env.native_objects]
    cases (env.native.status s.calls).isError <;> rfl
  rw [construct]
  cases hstatus : (env.native.status s.calls).isError with
  | true =>
      rw [hstatus, if_pos rfl] at hcall
      rw [exec_bind_of_ok hcall, exec_bind, Status.exec_throwIfError, hstatus]
      exact ⟨Stop.noConfusion, rfl⟩
  | false =>
      rw [hstatus, if_neg Bool.false_ne_true] at hcall
      rw [exec_bind_of_ok hcall, exec_bind, Status.exec_throwIfError, hstatus]
      refine ⟨⟨⟨_, ?_, (List.append_nil _).symm, rfl, rfl, rfl⟩, rfl⟩, rfl⟩
      rw [List.length_map, List.length_range, Nat.mod_eq_of_lt hsize]

theorem exec_getHandle_object (h : Numbered w) (objectType : UInt16) (s : Called World) :
    exec (AttachedObject.getHandle ⟨objectType, w.rrvs.next⟩) s = (.ok w.rrvs.next, s) := by
  rw [AttachedObject.getHandle, if_neg (Nat.ne_of_gt h.next)]
  rfl

/-- A call that takes the block of the locker, if it reports no error. -/
theorem meets_take {locker : Locker} {data : List UInt8} {items' : List Item} {bytes' : List UInt8}
    {x : AttachedObject.M Status} (hx : ∀ s : Called World, Stage w bytes items taken s.value →
      Owns w.heap data locker s.value.heap → ∃ result n v, exec x s = (.ok result, ⟨n, v⟩) ∧
        if result.isError then v = s.value
        else Stage w bytes' items' (taken + 1) v ∧ v.heap = s.value.heap.erase locker.hdl_)
    (message : String) :
    Meets (fun s => Stage w bytes items taken s.value ∧ Owns w.heap data locker s.value.heap)
      (do
        let result ← x
        result.throwIfError message)
      (fun _ s => Stage w bytes' items' (taken + 1) s.value ∧ Settled w.heap s.value.heap)
      (Stopped w fun heap => ∃ bytes, Owns w.heap bytes locker heap) := by
  rintro s ⟨hstage, howns⟩
  obtain ⟨result, n, v, hexec, hresult⟩ := hx s hstage howns
  rw [exec_bind_of_ok hexec, Status.exec_throwIfError]
  cases herror : result.isError with
  | true =>
      rw [if_pos herror] at hresult
      subst hresult
      exact ⟨Stop.noConfusion, ⟨data, howns⟩, bytes, items, taken, hstage⟩
  | false =>
      rw [herror, if_neg Bool.false_ne_true] at hresult
      refine ⟨hresult.1, ?_⟩
      change Settled w.heap v.heap
      rw [hresult.2]
      exact howns.toHas.erase

theorem exec_onHeap_block {hdl : ℕ} {block : Block} {s : Called World}
    (h : s.value.heap.get? hdl = some block) :
    exec (onHeap (Heap.block hdl)) s = (.ok block, s) := by
  have hblock : exec (Heap.block hdl) ⟨s.calls, s.value.heap⟩ = (.ok block, _) := exec_block h
  rw [onHeap, Native.part, exec_focus]
  simp only [hblock]

/-- `NSFItemAppendObject`, with a block that has the type and the value. -/
theorem exec_nsfItemAppendObject {key value : List UInt8} (hlength : key.length < 2 ^ 16)
    {type : UInt16} {locker : Locker} {s : Called World}
    (hstage : Stage w bytes items taken s.value)
    (howns : Owns w.heap (NoteValue.itemBytes type value) locker s.value.heap) :
    ∃ result n v, exec (nsfItemAppendObject env.objects key locker.hdl_ locker.size_) s =
        (.ok result, ⟨n, v⟩) ∧
      if result.isError then v = s.value
      else Stage w bytes (items ++ [⟨key, Note.itemSummary, type, value⟩]) (taken + 1) v ∧
        v.heap = s.value.heap.erase locker.hdl_ := by
  rw [nsfItemAppendObject, exec_bind_of_ok (exec_onHeap_block howns.block),
    exec_bind_of_ok (exec_call s), Env.native_objects]
  cases hstatus : (env.native.status s.calls).isError with
  | true => exact ⟨env.native.status s.calls, s.calls + 1, s.value, rfl, by rw [if_pos hstatus]⟩
  | false =>
      refine ⟨env.native.status s.calls, s.calls + 1, _, rfl, ?_⟩
      rw [hstatus, if_neg Bool.false_ne_true]
      have htaken := hstage.taken
      refine ⟨⟨?_, hstage.objects, hstage.rrvs, ?_⟩, rfl⟩
      · simp only [howns.size_, List.take_length, NoteValue.littleEndian_itemBytes,
          NoteValue.drop_itemBytes, UInt16.ofNat_toNat, Nat.mod_eq_of_lt hlength, hstage.items,
          List.append_assoc]
      · simp only [World.takes, List.length_cons]
        omega

/-- `append_to_note`. -/
theorem meets_appendToNote (hw : Numbered w) {key : List UInt8}
    (hkey : Lmbcs.fromString env.codePage key = key) (hlength : key.length < 2 ^ 16)
    (objectType : UInt16) :
    Meets (fun s => Stage w bytes items taken s.value ∧ Settled w.heap s.value.heap)
      (appendToNote env.objects ⟨objectType, w.rrvs.next⟩ key)
      (fun _ s => Stage w bytes (items ++ [⟨key, Note.itemSummary, typeObject,
        env.descriptors.write objectDescriptor ⟨objectType, w.rrvs.next⟩⟩]) (taken + 1) s.value ∧
          Settled w.heap s.value.heap)
      (Stopped w (Left w.heap)) := by
  have hsize : 2 + (env.descriptors.size objectDescriptor).toNat < 2 ^ 32 := by
    have hlt := (env.descriptors.size objectDescriptor).toNat_lt
    omega
  have hallocate : Meets
      (fun s => Stage w bytes items taken s.value ∧ Settled w.heap s.value.heap)
      (onHeap (allocateImpl env.native (2 + (env.descriptors.size objectDescriptor).toNat) .take))
      (fun locker s => Stage w bytes items taken s.value ∧
        Owned w.heap (2 + (env.descriptors.size objectDescriptor).toNat) locker s.value.heap)
      (Stopped w (Left w.heap)) := meets_onHeap (meets_allocateImpl hsize)
  unfold appendToNote
  refine Meets.bind_of_eq (fun s hs => by
    rw [exec_getHandle_object hw]
    exact ⟨hs, rfl⟩) (hallocate.bind fun lock => meets_guarded_object ?_)
  simp only [Cursor.writeObject_some, Cursor.writeInteger]
  refine (meets_fill ?_ hsize).bind fun _ => meets_take (fun s hstage howns => ?_) _
  · rw [Cursor.length_integerBytes, Ods.length_write]
    rfl
  · change ∃ result n v, exec (nsfItemAppendObject env.objects
      (Lmbcs.fromString env.codePage key) lock.hdl_ lock.size_) s = (.ok result, ⟨n, v⟩) ∧ _
    rw [hkey]
    exact exec_nsfItemAppendObject hlength hstage howns

/-- `NSFDbWriteObject`, with a block of the size of the object. -/
theorem exec_nsfDbWriteObject (hw : Numbered w) {data : List UInt8}
    (hdata : data.length = bytes.length) {locker : Locker} {s : Called World}
    (hstage : Stage w bytes items taken s.value) (howns : Owns w.heap data locker s.value.heap) :
    ∃ result n v, exec (nsfDbWriteObject env.objects w.rrvs.next locker.hdl_ locker.size_) s =
        (.ok result, ⟨n, v⟩) ∧
      if result.isError then v = s.value
      else Stage w data items (taken + 1) v ∧ v.heap = s.value.heap.erase locker.hdl_ := by
  have hlookup : Table.lookup DbObject.rrv w.rrvs.next s.value.objects =
      some ⟨w.rrvs.next, bytes⟩ := by
    rw [hstage.objects]
    exact Table.lookup_append_of_none DbObject.rrv _ hw.lookup rfl
  rw [nsfDbWriteObject, exec_bind_of_ok (exec_onHeap_block howns.block),
    exec_bind_of_ok (exec_call s), Env.native_objects]
  cases hstatus : (env.native.status s.calls).isError with
  | true => exact ⟨env.native.status s.calls, s.calls + 1, s.value, rfl, by rw [if_pos hstatus]⟩
  | false =>
      rw [if_neg Bool.false_ne_true, exec_bind_of_ok (Native.exec_value _), hlookup]
      simp only
      rw [if_neg (by rw [howns.size_, hdata]; exact Nat.lt_irrefl _)]
      refine ⟨env.native.status s.calls, s.calls + 1, _, rfl, ?_⟩
      rw [hstatus, if_neg Bool.false_ne_true]
      have htaken := hstage.taken
      refine ⟨⟨hstage.items, ?_, hstage.rrvs, ?_⟩, rfl⟩
      · simp only [hstage.objects, howns.size_, List.take_length]
        rw [Table.modify_append_of_none DbObject.rrv hw.lookup rfl, hdata, List.drop_length,
          List.append_nil]
      · simp only [World.takes, List.length_cons]
        omega

/-- `write`. -/
theorem meets_write (hw : Numbered w) {data : List UInt8} (hdata : data.length = bytes.length)
    {locker : Locker} (objectType : UInt16) :
    Meets (fun s => Stage w bytes items taken s.value ∧ Owns w.heap data locker s.value.heap)
      (AttachedObject.write env.objects ⟨objectType, w.rrvs.next⟩ locker)
      (fun _ s => Stage w data items (taken + 1) s.value ∧ Settled w.heap s.value.heap)
      (Stopped w (Left w.heap)) := by
  unfold AttachedObject.write
  refine meets_guarded_object (Meets.of_start fun s₀ hs₀ => ?_)
  rw [if_neg (not_not.mpr hs₀.2.own_)]
  refine Meets.weaken (Meets.bind_of_eq (fun s hs => by
    rw [exec_getHandle_object hw]
    exact ⟨hs, rfl⟩) (meets_take (fun s hstage howns =>
      exec_nsfDbWriteObject hw hdata hstage howns) _)) ?_ (fun _ _ hs => hs) fun _ _ hs => hs
  rintro s rfl
  exact hs₀

/-- What an exception leaves of an object that was allocated, if the last call was to free it. -/
structure Freed (env : Env) (w : World) (s : Called World) : Prop where
  rrvs : s.value.rrvs = w.rrvs.opens.closes w.rrvs.next
  objects : ∃ bytes, s.value.objects = if (env.native.status (s.calls - 1)).isError
    then w.objects ++ [⟨w.rrvs.next, bytes⟩] else w.objects

/-- The cleanup frees the object. -/
theorem meets_inScope (hw : Numbered w) (objectType : UInt16) {P : Called World → Prop}
    {x : AttachedObject.M α} {Q : α → Called World → Prop}
    (hx : Meets P x Q (Stopped w (Left w.heap))) :
    Meets P (AttachedObject.inScope env.objects ⟨objectType, w.rrvs.next⟩ x) Q
      (fun stop s => stop ≠ .undefined ∧ Left w.heap s.value.heap ∧ Freed env w s) := by
  refine hx.tryCatch fun stop => ?_
  rintro s ⟨hstop, hheap, bytes, items, taken, hstage⟩
  have hfree : exec (AttachedObject.destroy env.objects ⟨objectType, w.rrvs.next⟩) s =
      (.ok (), ⟨s.calls + 1, { s.value with
        objects := if (env.native.status s.calls).isError then s.value.objects
          else Table.erase DbObject.rrv w.rrvs.next s.value.objects
        rrvs := s.value.rrvs.closes w.rrvs.next }⟩) := by
    rw [AttachedObject.destroy, if_neg (Nat.ne_of_gt hw.next)]
    rfl
  rw [exec_bind_of_ok hfree]
  refine ⟨hstop, hheap, ?_, bytes, ?_⟩
  · change s.value.rrvs.closes w.rrvs.next = _
    rw [hstage.rrvs]
  · change (if (env.native.status s.calls).isError then s.value.objects
      else Table.erase DbObject.rrv w.rrvs.next s.value.objects) = _
    rw [hstage.objects, Table.erase_append_of_none DbObject.rrv hw.lookup rfl]
    rfl

/-- The size of the object. -/
def runSize (env : Env) : ℕ := (env.records.size odsAssistRunObjectHeader).toNat +
  (env.records.size odsAssistRunObjectEntry).toNat

theorem runSize_lt (env : Env) : runSize env < 2 ^ 32 := by
  have hheader := (env.records.size odsAssistRunObjectHeader).toNat_lt
  have hentry := (env.records.size odsAssistRunObjectEntry).toNat_lt
  unfold runSize
  omega

theorem length_runData (env : Env) : (runData env).length = runSize env := by
  rw [runData, List.length_append, Ods.length_write, Ods.length_write, runSize]

/-- The object is filled. -/
theorem meets_fillObject (hascii : Lmbcs.KeepsAscii env.codePage) (hw : Numbered w)
    (hbytes : bytes.length = runSize env) :
    Meets (fun s => Stage w bytes [] 0 s.value ∧ Settled w.heap s.value.heap)
      (do
        appendToNote env.objects ⟨assistRunData, w.rrvs.next⟩ assistRuninfoItem
        let lock ← onHeap (allocateImpl env.native (runSize env) .take)
        AttachedObject.guarded lock do
          onHeap <| lock.through do
            Cursor.writeObject env.records (.runObjectHeader 1) (some odsAssistRunObjectHeader)
            Cursor.writeObject env.records .runObjectEntry (some odsAssistRunObjectEntry)
        AttachedObject.write env.objects ⟨assistRunData, w.rrvs.next⟩ lock)
      (fun _ s => Stage w (runData env) [runInfoItem env w.rrvs.next] 2 s.value ∧
        Settled w.heap s.value.heap) (Stopped w (Left w.heap)) := by
  have hkey := plain_assistRuninfoItem.fromString hascii
  have hallocate : Meets
      (fun s => Stage w bytes [runInfoItem env w.rrvs.next] 1 s.value ∧
        Settled w.heap s.value.heap)
      (onHeap (allocateImpl env.native (runSize env) .take))
      (fun locker s => Stage w bytes [runInfoItem env w.rrvs.next] 1 s.value ∧
        Owned w.heap (runSize env) locker s.value.heap)
      (Stopped w (Left w.heap)) := meets_onHeap (meets_allocateImpl (runSize_lt env))
  refine (meets_appendToNote hw hkey (by decide) assistRunData).bind fun _ =>
    hallocate.bind fun lock => ?_
  simp only [Cursor.writeObject_some]
  refine (meets_guarded_object (meets_fill ?_ (runSize_lt env))).bind fun _ =>
    meets_write hw ((length_runData env).trans hbytes.symm) assistRunData
  rw [Ods.length_write, Ods.length_write, runSize]

/-- `set_run_info`. -/
theorem meets_setRunInfo (hascii : Lmbcs.KeepsAscii env.codePage) (hw : Numbered w) :
    Meets (fun s => s.value = w) (setRunInfo env)
      (fun _ s => Stage w (runData env) [runInfoItem env w.rrvs.next] 2 s.value ∧
        Settled w.heap s.value.heap)
      (fun stop s => stop ≠ .undefined ∧ Left w.heap s.value.heap ∧
        (s.value = w ∨ Freed env w s)) := by
  unfold setRunInfo
  refine Meets.bind_of_eq ((meets_construct (runSize_lt env) assistRunData).weaken
    (fun _ hs => hs) (fun _ _ hs => hs) fun _ s hs => ⟨hs.1, ?_, .inl hs.2⟩) ?_
  · rw [hs.2]
    exact (Settled.refl w.heap).left
  · -- a released object has nothing to destroy
    refine Meets.bind ((meets_inScope hw assistRunData ?_).weaken (fun _ hs => hs)
      (fun _ _ hs => hs) fun _ _ hs => ⟨hs.1, hs.2.1, .inr hs.2.2⟩) fun _ =>
        Meets.pure fun _ hs => hs
    rintro s ⟨⟨bytes, hbytes, hstage⟩, hheap⟩
    refine meets_fillObject hascii hw hbytes s ⟨hstage, ?_⟩
    rw [hheap]
    exact Settled.refl w.heap

end Dmn.AgentDesign
