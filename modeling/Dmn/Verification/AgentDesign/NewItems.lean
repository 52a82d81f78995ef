import Dmn.Verification.AgentDesign.Memory
import Dmn.Verification.AgentDesign.Setters
import Dmn.Verification.DecoderBounds

/-! # The items of a new agent -/

namespace Dmn.AgentDesign

open Exec Native Effects Agent AttachedObject Locker

variable {α : Type} {env : Env}

/-! ## The items of a new note -/

/-- The items up to the run object. Of the item for compiled code, the bytes behind the type are not
known. -/
def newItems (env : Env) (title spare : List UInt8) : List Item :=
  [textItem env assistFlagsItem env.assistFlags itemSign,
    Note.stored assistLastrunItem typeTime (TimeDate.bytes ⟨0, 0⟩) itemSign,
    NoteValue.integerItem assistDoccountItem 0 itemSign,
    textItem env generatorItem (Lmbcs.asciiBytes "dmn-cpp".toList) 0,
    textItem env fieldTitle title itemSign,
    textItem env designComment [] itemSign,
    triggerItem env .none,
    infoItem env .none,
    Note.stored assistExactionItem typeLsobject spare itemSign,
    recordItem env assistQueryItem typeQuery cdQueryHeader
      (.queryHeader env.sigQueryHeader (UInt8.ofNat (env.records.size cdQueryHeader).toNat))]

theorem nodup_newItems (env : Env) (title spare : List UInt8) :
    ((newItems env title spare).map Item.name).Nodup := by
  have hnames : (newItems env title spare).map Item.name =
      [assistFlagsItem, assistLastrunItem, assistDoccountItem, generatorItem, fieldTitle,
        designComment, assistTriggerItem, assistInfoItem, assistExactionItem, assistQueryItem] := rfl
  rw [hnames]
  decide

/-- Items of different names are put behind each other. -/
theorem foldl_put_of_nodup {first second : List Item}
    (h : ((first ++ second).map Item.name).Nodup) : second.foldl put first = first ++ second := by
  induction second generalizing first with
  | nil => exact (List.append_nil first).symm
  | cons item second ih =>
      have hnone : Table.lookup Item.name item.name first = none := by
        rw [Table.lookup_eq_none_iff]
        intro row hrow heq
        rw [List.map_append, List.map_cons, List.nodup_append] at h
        exact h.2.2 row.name (List.mem_map_of_mem hrow) item.name List.mem_cons_self heq
      rw [List.foldl_cons, put, Table.put_of_lookup_none Item.name hnone, ih, List.append_assoc,
        List.singleton_append]
      rwa [List.append_assoc, List.singleton_append]

/-- The items up to the one for compiled code. -/
def fieldItems (env : Env) (title : List UInt8) : List Item :=
  [textItem env assistFlagsItem env.assistFlags itemSign,
    Note.stored assistLastrunItem typeTime (TimeDate.bytes ⟨0, 0⟩) itemSign,
    NoteValue.integerItem assistDoccountItem 0 itemSign,
    textItem env generatorItem (Lmbcs.asciiBytes "dmn-cpp".toList) 0,
    textItem env fieldTitle title itemSign,
    textItem env designComment [] itemSign,
    triggerItem env .none,
    infoItem env .none]

/-- The item for compiled code. -/
def actionExItem (spare : List UInt8) : Item :=
  Note.stored assistExactionItem typeLsobject spare itemSign

/-- The item of the query. -/
def queryItem (env : Env) : Item :=
  recordItem env assistQueryItem typeQuery cdQueryHeader
    (.queryHeader env.sigQueryHeader (UInt8.ofNat (env.records.size cdQueryHeader).toNat))

/-- The items of a new note are put one after the other. -/
theorem writes_setFields (hascii : Lmbcs.KeepsAscii env.codePage) (title : List UInt8)
    (s : Called (List Item)) : Writes (fieldItems env title) (setFields env title) s :=
  Performs.bind (writes_setText hascii plain_assistFlagsItem _ itemSign s) (List.cons_ne_nil _ _)
    fun _ s₁ _ => Performs.bind (writes_setTime hascii plain_assistLastrunItem ⟨0, 0⟩ itemSign s₁)
      (List.cons_ne_nil _ _) fun _ s₂ _ =>
    Performs.bind (writes_setInteger hascii plain_assistDoccountItem 0 itemSign s₂)
      (List.cons_ne_nil _ _) fun _ s₃ _ =>
    Performs.bind (writes_setText hascii plain_generatorItem _ 0 s₃) (List.cons_ne_nil _ _)
      fun _ s₄ _ => Performs.bind (writes_setText hascii plain_fieldTitle title itemSign s₄)
        (List.cons_ne_nil _ _) fun _ s₅ _ =>
      Performs.bind (writes_setText hascii plain_designComment [] itemSign s₅)
        (List.cons_ne_nil _ _) fun _ s₆ _ => writes_setTrigger hascii .none s₆

theorem foldl_put_newItems (env : Env) (title spare : List UInt8) :
    put (put ((fieldItems env title).foldl put []) (actionExItem spare)) (queryItem env) =
      newItems env title spare := by
  have hnodup : (([] ++ newItems env title spare).map Item.name).Nodup :=
    nodup_newItems env title spare
  refine Eq.trans ?_ (foldl_put_of_nodup hnodup)
  simp only [fieldItems, actionExItem, queryItem, newItems, List.foldl_cons, List.foldl_nil]

/-! ## Exceptions -/

/-- The program has no undefined behaviour. -/
def Defined (x : Note.M α) : Prop := ∀ s, Decoder.InBounds (exec x s)

theorem Defined.bind {β : Type} {x : Note.M α} {f : α → Note.M β} (hx : Defined x)
    (hf : ∀ a, Defined (f a)) : Defined (x >>= f) :=
  fun s => Decoder.inBounds_bind (hx s) fun a t _ => hf a t

theorem Defined.pure (a : α) : Defined (Pure.pure a : Note.M α) := Decoder.inBounds_ok a

theorem Defined.throws (error : Error) : Defined (throw (.throws error) : Note.M α) :=
  Decoder.inBounds_throws error

theorem Defined.call : Defined (Native.call env.native : Note.M Status) :=
  fun s => Decoder.inBounds_ok (env.native.status s.calls) _

theorem Defined.update (f : List Item → List Item) : Defined (Native.update f) :=
  fun _ => Decoder.inBounds_ok () _

theorem Defined.value : Defined (Native.value : Note.M (List Item)) :=
  fun s => Decoder.inBounds_ok s.value s

theorem Defined.throwIfError (result : Status) (message : String) :
    Defined (result.throwIfError message : Note.M Unit) := by
  unfold Status.throwIfError
  split
  · exact .throws _
  · exact .pure ()

theorem Defined.has (key : List UInt8) : Defined (Note.has env.codePage key) :=
  .bind .value fun _ => .pure _

theorem Defined.itemInfo (key : List UInt8) : Defined (Note.itemInfo env.native key) := by
  refine .bind .value fun items => ?_
  split
  · exact .throws _
  · exact .bind .call fun _ => .bind (.throwIfError _ _) fun _ => .pure _

theorem Defined.set (key : List UInt8) (type : UInt16) (buffer : List UInt8) (flags : UInt16) :
    Defined (Note.set env.codePage env.native key type buffer flags) := by
  refine .bind (.has key) fun present => ?_
  split
  · refine .bind (.has key) fun present => ?_
    split
    · exact .bind (.itemInfo key) fun _ => .bind .call fun _ => .bind (.throwIfError _ _)
        fun _ => .update _
    · exact .throws _
  · exact .bind .call fun _ => .bind (.throwIfError _ _) fun _ => .update _

/-- What stops the items of a new note is an exception. -/
theorem Defined.setFields (title : List UInt8) : Defined (setFields env title) := by
  refine .bind (.set _ _ _ _) fun _ => .bind (.set _ _ _ _) fun _ => .bind (.set _ _ _ _) fun _ =>
    .bind (.set _ _ _ _) fun _ => .bind (.set _ _ _ _) fun _ => .bind (.set _ _ _ _) fun _ =>
      .bind (.set _ _ _ _) fun _ => .set _ _ _ _

/-! ## Memory -/

variable {w : World} {items items' : List Item}

/-- The world with these items, and with some memory. -/
structure Noted (w : World) (items : List Item) (v : World) : Prop where
  items : v.items = items
  objects : v.objects = w.objects
  rrvs : v.rrvs = w.rrvs
  taken : v.taken = w.taken

theorem Noted.heap {v : World} (h : Noted w items v) (heap : Heap) :
    Noted w items { v with heap := heap } := ⟨h.items, h.objects, h.rrvs, h.taken⟩

/-- An exception, with any items. -/
def Dropped (w : World) : (Heap → Prop) → Stop → Called World → Prop :=
  Stops fun v => ∃ items, Noted w items v

theorem ofRest_dropped (w : World) : OfRest fun v => ∃ items, Noted w items v :=
  fun _ heap ⟨items, hnoted⟩ => ⟨items, hnoted.heap heap⟩

theorem meets_onHeap_noted {P R : Heap → Prop} {Q : α → Heap → Prop} {x : Heap.M α}
    (hx : Meets (fun s : Called Heap => P s.value) x (fun a s => Q a s.value) (Throws R)) :
    Meets (fun s => Noted w items s.value ∧ P s.value.heap) (onHeap x)
      (fun a s => Noted w items s.value ∧ Q a s.value.heap) (Dropped w R) :=
  (meets_onHeap_of_rest (fun _ heap hnoted => hnoted.heap heap) hx).weaken (fun _ hs => hs)
    (fun _ _ hs => hs) fun _ _ hs => ⟨hs.1, hs.2.1, items, hs.2.2⟩

/-- Work on the memory gives a known value. -/
theorem meets_onHeap_noted_bind {β : Type} {P Q R : Heap → Prop} {x : Heap.M α}
    {f : α → AttachedObject.M β} {a₀ : α} {S : β → Called World → Prop}
    (hx : Meets (fun s : Called Heap => P s.value) x (fun a s => Q s.value ∧ a = a₀) (Throws R))
    (hf : Meets (fun s => Noted w items s.value ∧ Q s.value.heap) (f a₀) S (Dropped w R)) :
    Meets (fun s => Noted w items s.value ∧ P s.value.heap) (onHeap x >>= f) S (Dropped w R) := by
  have hheap : Meets (fun s => Noted w items s.value ∧ P s.value.heap) (onHeap x)
      (fun a s => Noted w items s.value ∧ Q s.value.heap ∧ a = a₀) (Dropped w R) :=
    meets_onHeap_noted (Q := fun a heap => Q heap ∧ a = a₀) hx
  exact Meets.bind_of_eq (hheap.weaken (fun _ hs => hs)
    (fun _ _ hs => ⟨⟨hs.1, hs.2.1⟩, hs.2.2⟩) fun _ _ hs => hs) hf

/-- Items are put while the memory stays as it is. -/
theorem meets_onItems {P : Heap → Prop} {x : Note.M Unit} (hdefined : Defined x)
    (hitems : ∀ n t, exec x ⟨n, items⟩ = (.ok (), t) → t.value = items') :
    Meets (fun s => Noted w items s.value ∧ P s.value.heap) (onItems x)
      (fun _ s => Noted w items' s.value ∧ P s.value.heap) (Dropped w P) := by
  rintro ⟨n, v⟩ ⟨hnoted, hheap⟩
  obtain rfl : v.items = items := hnoted.items
  have hsafe : Decoder.InBounds (exec x ⟨n, v.items⟩) := hdefined ⟨n, v.items⟩
  rw [onItems, Native.part, exec_focus]
  simp only
  rcases hexec : exec x ⟨n, v.items⟩ with ⟨stop | _, t⟩
  · rw [hexec] at hsafe
    exact ⟨fun heq => hsafe (congrArg Except.error heq), hheap, t.value,
      ⟨rfl, hnoted.objects, hnoted.rrvs, hnoted.taken⟩⟩
  · exact ⟨⟨hitems n t hexec, hnoted.objects, hnoted.rrvs, hnoted.taken⟩, hheap⟩

/-- A value is taken apart. -/
theorem exec_takeApart (type : UInt16) (bytes : List UInt8) : ∃ c,
    c.buffer = NoteValue.itemBytes type bytes ∧ exec (do
      let typ ← Cursor.readInteger 2
      let span ← Cursor.load ((NoteValue.itemBytes type bytes).length - 2)
      pure (UInt16.ofNat typ, span)) (Cursor.make (some (NoteValue.itemBytes type bytes))) =
        (.ok (type, bytes), c) := by
  have hspan : exec (Cursor.load ((NoteValue.itemBytes type bytes).length - 2))
      (NoteValue.behindType type bytes) = (.ok bytes, NoteValue.behindType type bytes) :=
    NoteValue.exec_loadData type bytes
  refine ⟨NoteValue.behindType type bytes, rfl, ?_⟩
  rw [exec_bind_of_ok (NoteValue.exec_readType type bytes), exec_bind_of_ok hspan,
    UInt16.ofNat_toNat]
  rfl

/-- The type is written in front of what the memory has. -/
theorem exec_writeType (type : UInt16) {bytes : List UInt8} (hfit : 2 ≤ bytes.length)
    (hsize : bytes.length < 2 ^ 32) : ∃ c,
    c.buffer = NoteValue.itemBytes type (bytes.drop 2) ∧
      exec (Cursor.writeInteger 2 type.toNat) (Cursor.make (some bytes)) = (.ok (), c) := by
  have hlength : (Cursor.integerBytes 2 type.toNat).length = 2 := Cursor.length_integerBytes 2 _
  have hwhole : ([] : List UInt8).length + bytes.length < 2 ^ 32 := by
    rw [List.length_nil, Nat.zero_add]
    exact hsize
  have hwrite := Cursor.exec_write_filled (hlength.trans_le hfit) hwhole
  rw [hlength, List.nil_append] at hwrite
  exact ⟨_, rfl, hwrite⟩

variable {key : List UInt8} {type : UInt16} {bytes : List UInt8} {flags : UInt16} {start : Heap}

/-- An item is put. -/
theorem meets_onItems_set (hascii : Lmbcs.KeepsAscii env.codePage) (hkey : Plain key)
    {P : Heap → Prop} :
    Meets (fun s => Noted w items s.value ∧ P s.value.heap)
      (onItems (Note.set env.codePage env.native key type bytes flags))
      (fun _ s => Noted w (put items (Note.stored key type bytes flags)) s.value ∧ P s.value.heap)
      (Dropped w P) :=
  meets_onItems (.set key type bytes flags) fun n _ hset =>
    (writes_set hascii hkey type bytes flags ⟨n, items⟩).of_ok hset

/-- The value is read through a locker of its own. -/
theorem meets_setOwned (hascii : Lmbcs.KeepsAscii env.codePage) (hkey : Plain key) {hdl : ℕ} :
    Meets (fun s => Noted w items s.value ∧
        Has start ⟨1, NoteValue.itemBytes type bytes⟩ hdl s.value.heap)
      (setOwned env key ⟨hdl, (NoteValue.itemBytes type bytes).length⟩ flags)
      (fun _ s => Noted w (put items (Note.stored key type bytes flags)) s.value ∧
        Has start ⟨1, NoteValue.itemBytes type bytes⟩ hdl s.value.heap)
      (Dropped w (Has start ⟨1, NoteValue.itemBytes type bytes⟩ hdl)) := by
  obtain ⟨c, hc, htaken⟩ := exec_takeApart type bytes
  have hborrow : Meets
      (fun s : Called Heap => Has start ⟨1, NoteValue.itemBytes type bytes⟩ hdl s.value)
      (do
        let hdl ← MemoryOwner.getHandle ⟨hdl, (NoteValue.itemBytes type bytes).length⟩
        Locker.make env.native hdl (NoteValue.itemBytes type bytes).length .borrow)
      (fun cursor s => Has start ⟨2, NoteValue.itemBytes type bytes⟩ hdl s.value ∧
        cursor = ⟨hdl, (NoteValue.itemBytes type bytes).length, .borrow⟩)
      (Throws (Has start ⟨1, NoteValue.itemBytes type bytes⟩ hdl)) := by
    intro s hs
    rw [MemoryOwner.getHandle, if_neg hs.ne_zero, pure_bind]
    exact meets_borrow s hs
  have hread : Meets
      (fun s : Called Heap => Has start ⟨2, NoteValue.itemBytes type bytes⟩ hdl s.value)
      (Locker.through ⟨hdl, (NoteValue.itemBytes type bytes).length, .borrow⟩ do
        let typ ← Cursor.readInteger 2
        let span ← Cursor.load ((NoteValue.itemBytes type bytes).length - 2)
        pure (UInt16.ofNat typ, span))
      (fun a s => Has start ⟨2, NoteValue.itemBytes type bytes⟩ hdl s.value ∧ a = (type, bytes))
      (Throws (Has start ⟨2, NoteValue.itemBytes type bytes⟩ hdl)) := by
    intro s hs
    rw [exec_through hs.block Ownership.noConfusion rfl htaken, hc]
    exact ⟨hs.modify fun block => { block with bytes := NoteValue.itemBytes type bytes }, rfl⟩
  unfold setOwned
  exact meets_onHeap_noted_bind hborrow <| (meets_leaving (ofRest_dropped w) meets_giveBack
    (meets_onHeap_noted_bind hread (meets_onItems_set hascii hkey))).bind fun _ =>
      meets_onHeap_noted meets_giveBack

/-- `set_action_ex`, whose memory is freed in any case. -/
theorem meets_setActionEx (hascii : Lmbcs.KeepsAscii env.codePage) :
    Meets (fun s => Noted w items s.value ∧ Settled start s.value.heap) (setActionEx env)
      (fun _ s => (∃ spare : List UInt8, spare.length = 2 ∧
        Noted w (put items (actionExItem spare)) s.value) ∧ Settled start s.value.heap)
      (Dropped w (Left start)) := by
  unfold setActionEx
  refine (meets_onHeap_noted (meets_allocateImpl (by decide))).bind fun lock =>
    Meets.of_start ?_
  rintro s ⟨hnoted, bytes, howns, hlength⟩
  have hfit : 2 ≤ bytes.length := by omega
  have hsize : bytes.length < 2 ^ 32 := by omega
  obtain ⟨c, hc, hwrite⟩ := exec_writeType typeLsobject hfit hsize
  have hspare : (bytes.drop 2).length = 2 := by
    rw [List.length_drop, hlength]
  have hbuffer : c.buffer.length = bytes.length := by
    rw [hc, NoteValue.length_itemBytes, hspare, hlength]
  have hfill : Meets (fun s => Noted w items s.value ∧ Owns start bytes lock s.value.heap)
      (guarded lock (onHeap (lock.through (Cursor.writeInteger 2 typeLsobject.toNat))))
      (fun _ s => Noted w items s.value ∧
        Owns start (NoteValue.itemBytes typeLsobject (bytes.drop 2)) lock s.value.heap)
      (Dropped w (Left start)) := by
    refine meets_guarded_of_rest (ofRest_dropped w) ?_
    rw [← hc]
    exact meets_onHeap_noted (meets_through hwrite hbuffer)
  have hvalue : Meets (fun s : Called Heap =>
        Owns start (NoteValue.itemBytes typeLsobject (bytes.drop 2)) lock s.value)
      (MemoryOwner.value lock)
      (fun val s => Has start ⟨1, NoteValue.itemBytes typeLsobject (bytes.drop 2)⟩ lock.hdl_
        s.value ∧ val = ⟨lock.hdl_, (NoteValue.itemBytes typeLsobject (bytes.drop 2)).length⟩)
      (Throws (Left start)) := by
    intro s hs
    rw [exec_value_of_owns hs]
    exact ⟨hs.toHas, rfl⟩
  have howning : Meets (fun s => Noted w items s.value ∧ Has start
        ⟨1, NoteValue.itemBytes typeLsobject (bytes.drop 2)⟩ lock.hdl_ s.value.heap)
      (owning ⟨lock.hdl_, (NoteValue.itemBytes typeLsobject (bytes.drop 2)).length⟩
        (setOwned env assistExactionItem
          ⟨lock.hdl_, (NoteValue.itemBytes typeLsobject (bytes.drop 2)).length⟩ itemSign))
      (fun _ s => Noted w (put items (actionExItem (bytes.drop 2))) s.value ∧ Has start
        ⟨1, NoteValue.itemBytes typeLsobject (bytes.drop 2)⟩ lock.hdl_ s.value.heap)
      (Dropped w (Left start)) :=
    meets_leaving (ofRest_dropped w) (meets_destroy_owner.weaken (fun _ hs => hs)
      (fun _ _ hs => hs.left) fun _ _ hs => hs) (meets_setOwned hascii plain_assistExactionItem)
  refine Meets.weaken (P := fun s => Noted w items s.value ∧ Owns start bytes lock s.value.heap)
    (hfill.bind fun _ => meets_onHeap_noted_bind hvalue (howning.bind fun _ =>
      meets_onHeap_noted meets_destroy_owner)) ?_
    (fun _ _ hs => ⟨⟨bytes.drop 2, hspare, hs.1⟩, hs.2⟩) fun _ _ hs => hs
  rintro t rfl
  exact ⟨hnoted, howns⟩

theorem meets_setItems (hascii : Lmbcs.KeepsAscii env.codePage) (title : List UInt8) :
    Meets (fun s => Noted w [] s.value ∧ Settled start s.value.heap) (setItems env title)
      (fun _ s => (∃ spare : List UInt8, spare.length = 2 ∧
        Noted w (newItems env title spare) s.value) ∧ Settled start s.value.heap)
      (Dropped w (Left start)) := by
  have hleft : ∀ stop s, Dropped w (Settled start) stop s → Dropped w (Left start) stop s :=
    fun _ _ hs => ⟨hs.1, hs.2.1.left, hs.2.2⟩
  have hfields : Meets (fun s => Noted w [] s.value ∧ Settled start s.value.heap)
      (onItems (setFields env title))
      (fun _ s => Noted w ((fieldItems env title).foldl put []) s.value ∧
        Settled start s.value.heap) (Dropped w (Left start)) :=
    (meets_onItems (.setFields title) fun n _ hset =>
      (writes_setFields hascii title ⟨n, []⟩).of_ok hset).weaken (fun _ hs => hs)
        (fun _ _ hs => hs) hleft
  unfold setItems
  refine hfields.bind fun _ => (meets_setActionEx hascii).bind fun _ => ?_
  rintro s ⟨⟨spare, hspare, hnoted⟩, hsettled⟩
  refine (meets_onItems_set hascii plain_assistQueryItem).weaken (fun _ hs => hs)
    (fun _ t ht => ⟨⟨spare, hspare, ?_⟩, ht.2⟩) hleft s ⟨hnoted, hsettled⟩
  rw [← foldl_put_newItems]
  exact ht.1

end Dmn.AgentDesign
