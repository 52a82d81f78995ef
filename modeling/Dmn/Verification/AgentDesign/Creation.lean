import Dmn.Verification.AgentDesign.Coherence
import Dmn.Verification.AgentDesign.NewItems
import Dmn.Verification.AgentDesign.RunObject

/-! # New agents

A new agent has a run object of its own. When the creation stops, the object that it has allocated is
freed, and the memory as well. -/

namespace Dmn.AgentDesign

open Exec Native Agent AttachedObject Locker

variable {env : Env} {w : World}

/-! ## `create` -/

/-- What a call of `create` that returns leaves. The items are those of the new note. -/
structure Created (env : Env) (title : List UInt8) (w v : World) : Prop where
  items : ∃ spare : List UInt8, spare.length = 2 ∧
    v.items = newItems env title spare ++ [runInfoItem env w.rrvs.next]
  objects : v.objects = w.objects ++ [⟨w.rrvs.next, runData env⟩]
  rrvs : v.rrvs = w.rrvs.opens
  heap : Settled w.heap v.heap
  taken : v.taken.length = w.taken.length + 2

/-- What a call of `create` that throws leaves. -/
structure Abandoned (env : Env) (w : World) (s : Called World) : Prop where
  heap : Left w.heap s.value.heap
  object : (s.value.objects = w.objects ∧ s.value.rrvs = w.rrvs) ∨ Freed env w s

theorem Noted.numbered {items : List Item} {v : World} (h : Noted w items v) (hw : Numbered w) :
    Numbered v := by
  refine ⟨?_, ?_⟩
  · rw [h.rrvs]
    exact hw.next
  · rw [h.objects, h.rrvs]
    exact hw.lt

/-- The run object of a new note, whose items are put. -/
theorem meets_setRunInfo_noted (hascii : Lmbcs.KeepsAscii env.codePage) (hw : Numbered w)
    {title spare : List UInt8} (hspare : spare.length = 2) :
    Meets (fun s => Noted w (newItems env title spare) s.value ∧ Settled w.heap s.value.heap)
      (setRunInfo env) (fun _ s => Created env title w s.value)
      (fun stop s => stop ≠ .undefined ∧ Abandoned env w s) := by
  refine Meets.of_start fun s₀ ⟨hnoted, hsettled⟩ => ?_
  refine (meets_setRunInfo hascii (hnoted.numbered hw)).weaken (fun s hs => by rw [hs])
    (fun _ t ⟨hstage, hheap⟩ => ?_) fun stop t ⟨hstop, hleft, ht⟩ => ⟨hstop, ?_, ?_⟩
  · refine ⟨⟨spare, hspare, ?_⟩, ?_, ?_, hsettled.trans hheap, ?_⟩
    · rw [hstage.items, hnoted.items, hnoted.rrvs]
    · rw [hstage.objects, hnoted.objects, hnoted.rrvs]
    · rw [hstage.rrvs, hnoted.rrvs]
    · rw [hstage.taken, hnoted.taken]
  · exact hsettled.left_of_left hleft
  · rcases ht with hsame | hfreed
    · rw [hsame]
      exact .inl ⟨hnoted.objects, hnoted.rrvs⟩
    · refine .inr ⟨?_, ?_⟩
      · rw [hfreed.rrvs, hnoted.rrvs]
      · rw [← hnoted.objects, ← hnoted.rrvs]
        exact hfreed.objects

/-- A call of `create` makes the whole agent, or leaves no object behind that it could free. -/
theorem meets_create (hascii : Lmbcs.KeepsAscii env.codePage) (hw : Numbered w)
    (title : List UInt8) :
    Meets (fun s => s.value = w) (create env title) (fun _ s => Created env title w s.value)
      (fun stop s => stop ≠ .undefined ∧ Abandoned env w s) := by
  have hthrow : ∀ error : Error, ∀ s : Called World, s.value = w →
      Stop.throws error ≠ .undefined ∧ Abandoned env w s := by
    intro error s hs
    refine ⟨Stop.noConfusion, ?_, .inl ?_⟩ <;> rw [hs]
    · exact (Settled.refl w.heap).left
    · exact ⟨rfl, rfl⟩
  have hitems : Meets (fun s => Noted w [] s.value ∧ Settled w.heap s.value.heap)
      (setItems env title) (fun _ s => (∃ spare : List UInt8, spare.length = 2 ∧
        Noted w (newItems env title spare) s.value) ∧ Settled w.heap s.value.heap)
      (fun stop s => stop ≠ .undefined ∧ Abandoned env w s) :=
    (meets_setItems hascii title).weaken (fun _ hs => hs) (fun _ _ hs => hs)
      fun stop s ⟨hstop, hleft, items, hnoted⟩ => ⟨hstop, hleft, .inl ⟨hnoted.objects, hnoted.rrvs⟩⟩
  have hnote : Meets (fun s : Called World => s.value = w) (do
      let result ← Native.call env.native
      result.throwIfError "Failed to create note"
      Native.update fun w : World => { w with items := [] }
      setItems env title
      setRunInfo env) (fun _ s => Created env title w s.value)
      (fun stop s => stop ≠ .undefined ∧ Abandoned env w s) := by
    refine (meets_call fun _ hs => hs).bind fun result =>
      (meets_throwIfError fun s hs => hthrow _ s hs).bind fun _ =>
        (meets_update ?_).bind fun _ => hitems.bind fun _ => ?_
    · rintro s rfl
      exact ⟨⟨rfl, rfl, rfl, rfl⟩, Settled.refl _⟩
    · rintro s ⟨⟨spare, hspare, hnoted⟩, hsettled⟩
      exact meets_setRunInfo_noted hascii hw hspare s ⟨hnoted, hsettled⟩
  unfold create
  refine (meets_call fun _ hs => hs).bind fun result => ?_
  cases result.isNotFound with
  | true => exact hnote
  | false =>
      exact (meets_throwIfError fun s hs => hthrow _ s hs).bind fun _ =>
        Meets.bind (Q := fun _ _ => False) (Meets.throw fun s hs => hthrow _ s hs)
          fun _ _ hs => hs.elim

/-! ## From the creation on -/

/-- A new agent has its title, no comment, and the items of a trigger. -/
theorem Created.follows {title : List UInt8} {v : World} (h : Created env title w v) (n : ℕ) :
    Follows env ⟨⟨n, .created v.items⟩, title, [], fun group => group = .trigger⟩ := by
  obtain ⟨spare, -, hitems⟩ := h.items
  have hlookup : ∀ item ∈ newItems env title spare,
      Table.lookup Item.name item.name v.items = some item := by
    intro item hitem
    rw [hitems, Table.lookup, List.find?_append, ← Table.lookup,
      Table.lookup_of_mem Item.name hitem (nodup_newItems env title spare)]
    rfl
  refine ⟨hlookup (textItem env fieldTitle title itemSign) (by simp [newItems]),
    hlookup (textItem env designComment [] itemSign) (by simp [newItems]), ?_⟩
  intro group hgroup
  obtain rfl : group = .trigger := of_decide_eq_true hgroup
  refine ⟨[triggerItem env .none, infoItem env .none], ⟨.none, rfl⟩, fun item hitem => ?_⟩
  refine hlookup item ?_
  rcases List.mem_pair.mp hitem with rfl | rfl <;> simp [newItems]

/-- All along a run from the creation of an agent on, it has the title and the comment of the last call
that returned, at first the title it was created with. The items of its trigger and those of its code
are of one call each, unless the last call that changed them has thrown. A call of `save` that returns
has stored all of them. -/
theorem shows_of_created (hascii : Lmbcs.KeepsAscii env.codePage) (hw : Numbered w)
    {title : List UInt8} {n : ℕ} {t : Called World}
    (h : exec (create env title) ⟨n, w⟩ = (.ok (), t)) (ops : List Op) :
    Run.Along (track env) (Shows env)
      ⟨⟨t.calls, .created t.value.items⟩, title, [], fun group => group = .trigger⟩ ops :=
  shows_along hascii (((meets_create hascii hw title).of_ok rfl h).follows t.calls) ops

theorem valid_noBlocks : ∀ entry ∈ ([] : List (ℕ × Block)), 0 < entry.1 ∧ entry.1 ≤ 0 :=
  List.forall_mem_nil _

/-- A world with neither memory nor objects. -/
def emptyWorld : World := ⟨⟨[], 0, valid_noBlocks⟩, [], [], Ledger.Book.start, []⟩

theorem numbered_emptyWorld : Numbered emptyWorld := ⟨Nat.one_pos, List.forall_mem_nil _⟩

theorem shows_of_created_sample :
    let t := (exec (create sampleEnv [0x41]) ⟨0, emptyWorld⟩).2
    Run.Along (track sampleEnv) (Shows sampleEnv)
      ⟨⟨t.calls, .created t.value.items⟩, [0x41], [], fun group => group = .trigger⟩
      [.setTrigger .scheduled, .setTitle [0x42], .save] :=
  shows_of_created Lmbcs.keepsAscii_utf8 numbered_emptyWorld (Prod.ext rfl rfl) _

/-! ## Runs -/

/-- The agents that were created, with the numbers of their run objects and their items. -/
structure Agents where
  world : Called World
  created : List (ℕ × List Item)

/-- A call of `create`, whose exceptions are caught. -/
def attempt (env : Env) (s : Agents) (title : List UInt8) : Agents :=
  match exec (create env title) s.world with
  | (.ok _, t) => ⟨t, (s.world.value.rrvs.next, t.value.items) :: s.created⟩
  | (.error _, t) => ⟨t, s.created⟩

/-- The object and the items of an agent. -/
structure Complete (env : Env) (objects : List DbObject) (agent : ℕ × List Item) : Prop where
  object : Table.lookup DbObject.rrv agent.1 objects = some ⟨agent.1, runData env⟩
  items : ∃ title spare : List UInt8, agent.2 = newItems env title spare ++ [runInfoItem env agent.1]

/-- Of the memory, there are the blocks of the start, and others that were never locked. -/
structure Unlocked (start heap : Heap) : Prop where
  old : ∀ hdl ≤ start.last, heap.get? hdl = start.get? hdl
  new : ∀ hdl block, start.last < hdl → heap.get? hdl = some block → block.locks = 0
  last : start.last ≤ heap.last

/-- The handles that are open are those of the agents, each of which has its object. -/
structure Kept (env : Env) (start : Heap) (s : Agents) : Prop where
  opened : s.world.value.rrvs.Open (s.created.map Prod.fst)
  lt : ∀ object ∈ s.world.value.objects, object.rrv < s.world.value.rrvs.next
  complete : ∀ agent ∈ s.created, Complete env s.world.value.objects agent
  heap : Unlocked start s.world.value.heap

theorem Kept.numbered {start : Heap} {s : Agents} (h : Kept env start s) :
    Numbered s.world.value := ⟨h.opened.next, h.lt⟩

theorem Unlocked.left {start heap heap' : Heap} (h : Unlocked start heap) (hleft : Left heap heap') :
    Unlocked start heap' := by
  obtain ⟨⟨leaked, hfresh, hother, hlocks⟩, hlast⟩ := hleft
  have hstart := h.last
  refine ⟨fun hdl hhdl => ?_, fun hdl block hhdl hblock => ?_, hstart.trans hlast⟩
  · rw [hother hdl (by omega), h.old hdl hhdl]
  · by_cases heq : hdl = leaked
    · rw [heq] at hblock
      exact hlocks block hblock
    · rw [hother hdl heq] at hblock
      exact h.new hdl block hhdl hblock

theorem Complete.append {objects : List DbObject} {agent : ℕ × List Item}
    (h : Complete env objects agent) (more : List DbObject) :
    Complete env (objects ++ more) agent where
  object := by
    rw [Table.lookup, List.find?_append, ← Table.lookup, h.object]
    rfl
  items := h.items

/-- What a call does, which is safe. -/
structure Attempts (env : Env) (start : Heap) (s : Agents) (title : List UInt8) : Prop where
  defined : (exec (create env title) s.world).1 ≠ .error .undefined
  returned : ∀ t, exec (create env title) s.world = (.ok (), t) →
    Created env title s.world.value t.value
  thrown : ∀ stop t, exec (create env title) s.world = (.error stop, t) →
    Abandoned env s.world.value t
  kept : Kept env start (attempt env s title)

theorem Kept.of_created {start : Heap} {s : Agents} {title : List UInt8} {t : Called World}
    (h : Kept env start s) (hcreated : Created env title s.world.value t.value) :
    Kept env start ⟨t, (s.world.value.rrvs.next, t.value.items) :: s.created⟩ where
  opened := by
    rw [List.map_cons, hcreated.rrvs]
    exact h.opened.opens
  lt object hobject := by
    rw [hcreated.objects] at hobject
    rw [hcreated.rrvs]
    rcases List.mem_append.mp hobject with hold | hnew
    · exact Nat.lt_succ_of_lt (h.lt object hold)
    · rw [List.mem_singleton.mp hnew]
      exact Nat.lt_succ_self _
  complete agent hagent := by
    rw [hcreated.objects]
    rcases List.mem_cons.mp hagent with rfl | hold
    · obtain ⟨spare, -, hitems⟩ := hcreated.items
      exact ⟨Table.lookup_append_of_none DbObject.rrv _ h.numbered.lookup rfl,
        title, spare, hitems⟩
    · exact (h.complete agent hold).append _
  heap := h.heap.left hcreated.heap.left

theorem Kept.of_abandoned {start : Heap} {s : Agents} {t : Called World} (h : Kept env start s)
    (hthrown : Abandoned env s.world.value t) : Kept env start ⟨t, s.created⟩ := by
  have hheap := h.heap.left hthrown.heap
  rcases hthrown.object with ⟨hobjects, hrrvs⟩ | ⟨hrrvs, bytes, hobjects⟩
  · refine ⟨by rw [hrrvs]; exact h.opened, ?_, ?_, hheap⟩
    · rw [hobjects, hrrvs]
      exact h.lt
    · rw [hobjects]
      exact h.complete
  · have hlt : ∀ object ∈ s.world.value.objects, object.rrv < t.value.rrvs.next := by
      intro object hobject
      rw [hrrvs]
      exact Nat.lt_succ_of_lt (h.lt object hobject)
    refine ⟨by rw [hrrvs]; exact h.opened.opens.closes, ?_, ?_, hheap⟩ <;> rw [hobjects] <;>
      split
    · refine List.forall_mem_append.mpr ⟨hlt, List.forall_mem_singleton.mpr ?_⟩
      rw [hrrvs]
      exact Nat.lt_succ_self _
    · exact hlt
    · exact fun agent hagent => (h.complete agent hagent).append _
    · exact h.complete

theorem attempts_of_kept (hascii : Lmbcs.KeepsAscii env.codePage) {start : Heap} {s : Agents}
    (h : Kept env start s) (title : List UInt8) : Attempts env start s title := by
  have hcreate := meets_create hascii h.numbered title s.world rfl
  rcases hexec : exec (create env title) s.world with ⟨stop | _, t⟩ <;> rw [hexec] at hcreate
  · refine ⟨?_, ?_, ?_, ?_⟩
    · rw [hexec]
      exact fun heq => hcreate.1 (Except.error.inj heq)
    · rw [hexec]
      exact fun _ heq => by cases heq
    · rw [hexec]
      rintro _ _ ⟨⟩
      exact hcreate.2
    · rw [attempt, hexec]
      exact h.of_abandoned hcreate.2
  · refine ⟨?_, ?_, ?_, ?_⟩
    · rw [hexec]
      exact fun heq => by cases heq
    · rw [hexec]
      rintro _ ⟨⟩
      exact hcreate
    · rw [hexec]
      exact fun _ _ heq => by cases heq
    · rw [attempt, hexec]
      exact h.of_created hcreate

/-- All along a run of calls of `create`, each agent that was created has a run object of its own,
which its last item refers to, and the handles of the objects that are open are those of these agents.
A call that throws has freed its object, if it had one, and has left the memory as it was, up to one
block that could not be locked. -/
theorem attempts_along (hascii : Lmbcs.KeepsAscii env.codePage) {start : Heap} {s : Agents}
    (h : Kept env start s) (titles : List (List UInt8)) :
    Run.Along (attempt env) (Attempts env start) s titles :=
  Run.along_of_invariant (fun s title (hs : Kept env start s) =>
    (attempts_of_kept hascii hs title).kept) (fun s title (hs : Kept env start s) =>
      attempts_of_kept hascii hs title) h titles

theorem kept_emptyWorld : Kept env emptyWorld.heap ⟨⟨0, emptyWorld⟩, []⟩ where
  opened := Ledger.Book.open_start
  lt := List.forall_mem_nil _
  complete := List.forall_mem_nil _
  heap :=
    { old _ _ := rfl
      new _ _ _ hblock := by cases hblock
      last := Nat.le_refl _ }

theorem attempts_along_sample :
    Run.Along (attempt sampleEnv) (Attempts sampleEnv emptyWorld.heap) ⟨⟨0, emptyWorld⟩, []⟩
      [[0x41], [0x42]] :=
  attempts_along Lmbcs.keepsAscii_utf8 kept_emptyWorld _

end Dmn.AgentDesign
