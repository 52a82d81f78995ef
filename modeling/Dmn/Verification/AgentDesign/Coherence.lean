import Dmn.Verification.AgentDesign.Runs

/-! # What an agent says of itself

The title and the comment are those of the last call that has returned. The items of a trigger, and
those of a code, belong together as long as no call has stopped between them. -/

namespace Dmn.AgentDesign

open Exec Native Effects Agent

variable {env : Env} {s : Called NoteState} {op : Op} {design : Design} {key : List UInt8}

/-! ## The keys of a call -/

def signatureItem : List UInt8 := Lmbcs.asciiBytes "$Signature".toList

/-- The items that a call can put. -/
def Op.keys : Op → List (List UInt8)
  | setTitle _ => [fieldTitle]
  | setComment _ => [designComment]
  | setLotusScript _ | setFormula _ => [assistActionItem, assistTypeItem, designFlagsItem]
  | setTrigger _ => [assistTriggerItem, assistInfoItem]
  | save => [assistVersionItem, assistExactionItem, signatureItem]

/-- Only the items of these keys are put. -/
def Within (keys : List (List UInt8)) : Effect → Prop
  | .put item => item.name ∈ keys
  | .compile => assistExactionItem ∈ keys
  | .sign => signatureItem ∈ keys
  | .store => True

theorem within_put {keys : List (List UInt8)} (items : List Item)
    (hkeys : items.map Item.name = keys) : ∀ effect ∈ items.map Effect.put, Within keys effect := by
  subst hkeys
  intro effect heffect
  obtain ⟨item, hitem, rfl⟩ := List.mem_map.mp heffect
  exact List.mem_map_of_mem hitem

theorem within_whole {effects : List Effect} (h : op.Whole env s effects) :
    ∀ effect ∈ effects, Within op.keys effect := by
  cases op with
  | setTitle title =>
      obtain rfl := h
      exact within_put [_] rfl
  | setComment comment =>
      obtain rfl := h
      exact within_put [_] rfl
  | setLotusScript code =>
      obtain rfl := h
      exact within_put _ rfl
  | setFormula memory =>
      obtain ⟨spare, rfl⟩ := h
      exact within_put _ rfl
  | setTrigger trigger =>
      obtain rfl := h
      exact within_put [_, _] rfl
  | save =>
      obtain ⟨now, value, -, -, rfl⟩ := h
      intro effect heffect
      simp only [saveEffects, List.mem_append, List.mem_singleton] at heffect
      rcases heffect with rfl | hcompile | rfl | rfl
      · exact List.mem_cons_self
      · split at hcompile
        · obtain rfl := List.mem_singleton.mp hcompile
          exact List.mem_cons_of_mem _ List.mem_cons_self
        · cases hcompile
      · exact List.mem_cons_of_mem _ (List.mem_cons_of_mem _ List.mem_cons_self)
      · trivial

theorem lookup_apply {keys : List (List UInt8)} {effect : Effect} (heffect : Within keys effect)
    (hkey : key ∉ keys) (design : Design) :
    Table.lookup Item.name key (design.apply env effect).items =
      Table.lookup Item.name key design.items := by
  have hput : ∀ item : Item, item.name ∈ keys → Table.lookup Item.name key
      (put design.items item) = Table.lookup Item.name key design.items := by
    intro item hitem
    exact Table.lookup_put_of_ne Item.name design.items fun heq => hkey (heq ▸ hitem)
  cases effect with
  | put item => exact hput item heffect
  | compile => exact hput _ (by rwa [env.name_compiled])
  | sign => exact hput _ (by rwa [env.name_signature])
  | store => rfl

theorem lookup_foldl {keys : List (List UInt8)} {effects : List Effect}
    (heffects : ∀ effect ∈ effects, Within keys effect) (hkey : key ∉ keys) (design : Design) :
    Table.lookup Item.name key (effects.foldl (Design.apply env) design).items =
      Table.lookup Item.name key design.items := by
  induction effects generalizing design with
  | nil => rfl
  | cons effect effects ih =>
      rw [List.foldl_cons, ih (fun e he => heffects e (List.mem_cons_of_mem _ he)),
        lookup_apply (heffects effect List.mem_cons_self) hkey]

/-! ## One call -/

/-- What a call does. One that throws may have done a part of it. -/
theorem exists_done (hascii : Lmbcs.KeepsAscii env.codePage) (s : Called NoteState) (op : Op) :
    ∃ done, Done (op.Whole env s) (op.returns env s) done ∧
      seen (step env s op) = done.foldl (Design.apply env) (seen s) :=
  (op.begins hascii s).done fun _ => Op.Whole.ne_nil

theorem within_done {returned : Bool} {done : List Effect}
    (h : Done (op.Whole env s) returned done) : ∀ effect ∈ done, Within op.keys effect := by
  cases returned with
  | true => exact within_whole h
  | false =>
      rcases h with rfl | ⟨effects, hwhole, hpart, -⟩
      · exact List.forall_mem_nil _
      · exact fun effect heffect => within_whole hwhole effect (hpart.mem heffect)

/-- The items of other keys stay. -/
theorem lookup_step (hascii : Lmbcs.KeepsAscii env.codePage) (s : Called NoteState)
    (hkey : key ∉ op.keys) : Table.lookup Item.name key (seen (step env s op)).items =
      Table.lookup Item.name key (seen s).items := by
  obtain ⟨done, hdone, hseen⟩ := exists_done hascii s op
  rw [hseen]
  exact lookup_foldl (within_done hdone) hkey _

theorem seen_step_of_returns (hascii : Lmbcs.KeepsAscii env.codePage)
    (h : op.returns env s = true) : ∃ effects, op.Whole env s effects ∧
      seen (step env s op) = effects.foldl (Design.apply env) (seen s) := by
  obtain ⟨done, hdone, hseen⟩ := exists_done hascii s op
  rw [h] at hdone
  exact ⟨done, hdone, hseen⟩

/-- A call with one item that throws has not put it. -/
theorem seen_step_of_throws (hascii : Lmbcs.KeepsAscii env.codePage) {effect : Effect}
    (hop : ∀ effects, op.Whole env s effects → effects = [effect])
    (h : op.returns env s = false) : seen (step env s op) = seen s := by
  obtain ⟨done, hdone, hseen⟩ := exists_done hascii s op
  rw [h] at hdone
  rcases hdone with rfl | ⟨effects, hwhole, hpart, hne⟩
  · exact hseen
  · rw [hop effects hwhole] at hpart hne
    rcases List.prefix_cons_iff.mp hpart with rfl | ⟨rest, rfl, hrest⟩
    · exact hseen
    · rw [List.prefix_nil.mp hrest] at hne
      exact absurd rfl hne

/-! ## Groups of items -/

inductive Group where
  | trigger
  | code
  deriving DecidableEq

/-- The items that a group can be made of. -/
def Group.Items (env : Env) : Group → List Item → Prop
  | trigger, items => ∃ trigger, items = [triggerItem env trigger, infoItem env trigger]
  | code, items => (∃ code, items = lotusScriptItems env code) ∨
      ∃ memory spare, items = formulaItems env memory spare

def Group.keys : Group → List (List UInt8)
  | trigger => [assistTriggerItem, assistInfoItem]
  | code => [assistActionItem, assistTypeItem, designFlagsItem]

/-- The items of the group are those of one call. -/
def Group.Whole (env : Env) (group : Group) (items : List Item) : Prop :=
  ∃ written, group.Items env written ∧
    ∀ item ∈ written, Table.lookup Item.name item.name items = some item

def Op.group : Op → Option Group
  | setTitle _ | setComment _ | save => none
  | setLotusScript _ | setFormula _ => some .code
  | setTrigger _ => some .trigger

theorem Group.map_name {group : Group} {written : List Item} (h : group.Items env written) :
    written.map Item.name = group.keys := by
  cases group with
  | trigger =>
      obtain ⟨trigger, rfl⟩ := h
      rfl
  | code =>
      rcases h with ⟨code, rfl⟩ | ⟨memory, spare, rfl⟩ <;> rfl

theorem Group.nodup_keys (group : Group) : group.keys.Nodup := by
  cases group <;> decide

theorem lookup_foldl_put_of_notMem {written items : List Item} (h : key ∉ written.map Item.name) :
    Table.lookup Item.name key (written.foldl put items) = Table.lookup Item.name key items := by
  induction written generalizing items with
  | nil => rfl
  | cons item written ih =>
      rw [List.map_cons, List.mem_cons, not_or] at h
      rw [List.foldl_cons, ih h.2]
      exact Table.lookup_put_of_ne Item.name items (Ne.symm h.1)

/-- Of different names, all items are there. -/
theorem lookup_foldl_put {written : List Item} (hnames : (written.map Item.name).Nodup)
    (items : List Item) : ∀ item ∈ written,
      Table.lookup Item.name item.name (written.foldl put items) = some item := by
  induction written generalizing items with
  | nil => exact List.forall_mem_nil _
  | cons first written ih =>
      obtain ⟨hfirst, hrest⟩ := List.nodup_cons.mp hnames
      refine List.forall_mem_cons.mpr ⟨?_, ih hrest _⟩
      rw [List.foldl_cons, lookup_foldl_put_of_notMem hfirst]
      exact Table.lookup_put_self Item.name first items

theorem Group.whole_of_returns (hascii : Lmbcs.KeepsAscii env.codePage) {group : Group}
    (hgroup : op.group = some group) (h : op.returns env s = true) :
    group.Whole env (seen (step env s op)).items := by
  obtain ⟨effects, hwhole, hseen⟩ := seen_step_of_returns hascii h
  have hwritten : ∃ written, group.Items env written ∧ effects = written.map .put := by
    cases op with
    | setTitle | setComment | save => cases hgroup
    | setLotusScript code =>
        cases hgroup
        exact ⟨_, .inl ⟨code, rfl⟩, hwhole⟩
    | setFormula memory =>
        cases hgroup
        obtain ⟨spare, rfl⟩ := hwhole
        exact ⟨_, .inr ⟨memory, spare, rfl⟩, rfl⟩
    | setTrigger trigger =>
        cases hgroup
        exact ⟨_, ⟨trigger, rfl⟩, hwhole⟩
  obtain ⟨written, hitems, rfl⟩ := hwritten
  refine ⟨written, hitems, ?_⟩
  rw [hseen, foldl_put]
  exact lookup_foldl_put (by rw [Group.map_name hitems]; exact group.nodup_keys) _

theorem Group.not_mem_keys {group : Group} (hgroup : op.group ≠ some group)
    (hkey : key ∈ group.keys) : key ∉ op.keys := by
  have hdisjoint : ∀ key ∈ group.keys, key ∉ op.keys := by
    cases op <;> cases group <;> simp only [Op.keys, Group.keys] <;>
      first | exact absurd rfl hgroup | decide
  exact hdisjoint key hkey

/-- Another call leaves the items of a group. -/
theorem Group.whole_of_other (hascii : Lmbcs.KeepsAscii env.codePage) {group : Group}
    (hgroup : op.group ≠ some group) (h : group.Whole env (seen s).items) :
    group.Whole env (seen (step env s op)).items := by
  obtain ⟨written, hitems, hwritten⟩ := h
  refine ⟨written, hitems, fun item hitem => ?_⟩
  have hname : item.name ∈ group.keys := by
    rw [← Group.map_name hitems]
    exact List.mem_map_of_mem hitem
  rw [lookup_step hascii s (Group.not_mem_keys hgroup hname)]
  exact hwritten item hitem

/-! ## Runs -/

/-- The note, with the last title and the last comment that were set. A group is intact as long as
no call has stopped between its items. -/
structure Tracked where
  note : Called NoteState
  title : List UInt8
  comment : List UInt8
  intact : Group → Bool

def track (env : Env) (s : Tracked) (op : Op) : Tracked where
  note := step env s.note op
  title := match op with
    | .setTitle title => if op.returns env s.note then title else s.title
    | _ => s.title
  comment := match op with
    | .setComment comment => if op.returns env s.note then comment else s.comment
    | _ => s.comment
  intact group :=
    if op.group = some group then op.returns env s.note ||
      (s.intact group && decide (seen (step env s.note op) = seen s.note))
    else s.intact group

structure Follows (env : Env) (s : Tracked) : Prop where
  title : Table.lookup Item.name fieldTitle (seen s.note).items =
    some (textItem env fieldTitle s.title itemSign)
  comment : Table.lookup Item.name designComment (seen s.note).items =
    some (textItem env designComment s.comment itemSign)
  whole : ∀ group, s.intact group = true → group.Whole env (seen s.note).items

variable {tracked : Tracked}

/-- The item of a text that one kind of call sets. -/
theorem lookup_text_step (hascii : Lmbcs.KeepsAscii env.codePage) {text last : List UInt8}
    (hwhole : ∀ effects, op.Whole env s effects → effects = [.put (textItem env key text itemSign)])
    (h : Table.lookup Item.name key (seen s).items = some (textItem env key last itemSign)) :
    Table.lookup Item.name key (seen (step env s op)).items =
      some (textItem env key (if op.returns env s then text else last) itemSign) := by
  cases hreturns : op.returns env s with
  | true =>
      obtain ⟨effects, heffects, hseen⟩ := seen_step_of_returns hascii hreturns
      rw [hseen, hwhole effects heffects]
      exact Table.lookup_put_self Item.name (textItem env key text itemSign) (seen s).items
  | false =>
      rw [seen_step_of_throws hascii hwhole hreturns]
      exact h

theorem Follows.track (hascii : Lmbcs.KeepsAscii env.codePage) (h : Follows env tracked)
    (op : Op) : Follows env (track env tracked op) where
  title := by
    cases op with
    | setTitle title => exact lookup_text_step hascii (fun _ heffects => heffects) h.title
    | setComment | setLotusScript | setFormula | setTrigger | save =>
        exact (lookup_step hascii tracked.note (by simp only [Op.keys]; decide)).trans h.title
  comment := by
    cases op with
    | setComment comment => exact lookup_text_step hascii (fun _ heffects => heffects) h.comment
    | setTitle | setLotusScript | setFormula | setTrigger | save =>
        exact (lookup_step hascii tracked.note (by simp only [Op.keys]; decide)).trans h.comment
  whole group hintact := by
    simp only [AgentDesign.track] at hintact
    by_cases hgroup : op.group = some group
    · rw [if_pos hgroup, Bool.or_eq_true, Bool.and_eq_true, decide_eq_true_eq] at hintact
      rcases hintact with hreturns | ⟨hbefore, hseen⟩
      · exact Group.whole_of_returns hascii hgroup hreturns
      · change group.Whole env (seen (step env tracked.note op)).items
        rw [hseen]
        exact h.whole group hbefore
    · rw [if_neg hgroup] at hintact
      exact Group.whole_of_other hascii hgroup (h.whole group hintact)

/-- A text that is got is that of the item, or empty where the memory could not be locked. -/
theorem eq_of_getText {items : List Item} {text value : List UInt8} {flags : UInt16} {n : ℕ}
    {t : Called (List Item)} (hplain : key.take (key.length % 2 ^ 16) = key)
    (hitem : Table.lookup Item.name key items = some (textItem env key text flags))
    (h : exec (getText env key) ⟨n, items⟩ = (.ok value, t)) :
    value = [] ∨ value = Lmbcs.toString env.codePage (Lmbcs.fromString env.codePage text) := by
  obtain ⟨found, u, hget, hvalue⟩ := exec_bind_eq_ok h
  cases hvalue
  cases found with
  | none => exact .inl rfl
  | some found =>
      obtain ⟨item, v, hfound, -, hconvert⟩ := NoteValue.exec_get_eq_ok_some hget
      rw [hplain, hitem] at hfound
      cases hfound
      obtain ⟨⟨cs, hconverted⟩, -⟩ := exec_onCursor_eq_ok hconvert
      have htext := NoteValue.exec_convertString env.values (Lmbcs.fromString env.codePage text)
      obtain ⟨hsome, -⟩ := Prod.mk.inj (hconverted.symm.trans htext)
      exact .inr (Option.some.inj (Except.ok.inj hsome))

theorem eq_of_onHandle {text value : List UInt8} {flags : UInt16} {t : Called NoteState}
    (hplain : key.take (key.length % 2 ^ 16) = key)
    (hitem : Table.lookup Item.name key (seen s).items = some (textItem env key text flags))
    (h : exec (onHandle env (getText env key)) s = (.ok value, t)) :
    value = [] ∨ value = Lmbcs.toString env.codePage (Lmbcs.fromString env.codePage text) := by
  rcases exec_onHandle env (getText env key) s with ⟨stop, u, hstop, -⟩ | ⟨n, v, -, hexec⟩
  · rw [hstop] at h
    cases h
  · obtain ⟨hvalue, -⟩ := Prod.mk.inj (hexec.symm.trans h)
    have hget : exec (getText env key) ⟨n, (seen s).items⟩ = (.ok value, _) := Prod.ext hvalue rfl
    exact eq_of_getText hplain hitem hget

/-- What a program sees behind a call. -/
structure Shows (env : Env) (s : Tracked) (op : Op) : Prop where
  follows : Follows env (track env s op)
  title : ∀ value t, exec (onHandle env (getTitle env)) (track env s op).note = (.ok value, t) →
    value = [] ∨ value = Lmbcs.toString env.codePage
      (Lmbcs.fromString env.codePage (track env s op).title)
  comment : ∀ value t, exec (onHandle env (getComment env)) (track env s op).note =
    (.ok value, t) → value = [] ∨ value = Lmbcs.toString env.codePage
      (Lmbcs.fromString env.codePage (track env s op).comment)
  stored : op = .save → op.returns env s.note = true →
    (seen (track env s op).note).stored = some (seen (track env s op).note).items

theorem shows_of_follows (hascii : Lmbcs.KeepsAscii env.codePage) (h : Follows env tracked)
    (op : Op) : Shows env tracked op where
  follows := h.track hascii op
  title _ _ hget := eq_of_onHandle (by decide) (h.track hascii op).title hget
  comment _ _ hget := eq_of_onHandle (by decide) (h.track hascii op).comment hget
  stored := by
    rintro rfl hreturns
    obtain ⟨effects, ⟨now, value, -, -, rfl⟩, hseen⟩ := seen_step_of_returns hascii hreturns
    change (seen (step env tracked.note .save)).stored =
      some (seen (step env tracked.note .save)).items
    simp only [hseen, saveEffects, List.foldl_append]
    rfl

/-- All along a run, an agent has the title and the comment of the last call that returned. The items
of its trigger and those of its code are of one call each, unless the last call that changed them has
thrown. A call of `save` that returns has stored all of them. -/
theorem shows_along (hascii : Lmbcs.KeepsAscii env.codePage) (h : Follows env tracked)
    (ops : List Op) : Run.Along (track env) (Shows env) tracked ops :=
  Run.along_of_invariant (fun s op (hs : Follows env s) => hs.track hascii op)
    (fun s op (hs : Follows env s) => shows_of_follows hascii hs op) h ops

end Dmn.AgentDesign
