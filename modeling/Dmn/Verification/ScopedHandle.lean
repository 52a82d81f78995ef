import Dmn.Library.Run
import Dmn.Model.ScopedHandle

/-! # What becomes of wrapped handles

Each time a handle is wrapped, it is in one wrapper until it is released or passed to the cleanup
function that it was wrapped with. -/

namespace Dmn.ScopedHandle

open Exec

variable {T Cleanup Thread : Type} {w : World T Cleanup Thread}
  {hand : List (Wrapper T Cleanup Thread)} {self source : Wrapper T Cleanup Thread}
  {event : Event T Cleanup Thread} {id : ObjectId}
  {f : Wrapper T Cleanup Thread → Wrapper T Cleanup Thread} {thread : Thread}

/-! ## Wrappers -/

theorem exec_this (hself : Table.lookup Wrapper.id id w.wrappers = some self) :
    exec (this id : M T Cleanup Thread _) w = (.ok self, w) := by
  rw [this, exec_bind_of_ok (exec_get w), hself]
  rfl

theorem lookup_clear [Inhabited T] (hself : Table.lookup Wrapper.id id w.wrappers = some self) :
    Table.lookup Wrapper.id id (w.clear id).wrappers = some { self with hdl := default } := by
  have hid : self.id = id := Table.key_of_lookup Wrapper.id hself
  exact Table.lookup_modify Wrapper.id hself hid (.inl rfl)

theorem lookup_clear_of_ne [Inhabited T] (w : World T Cleanup Thread) {other : ObjectId}
    (hne : other ≠ id) : Table.lookup Wrapper.id other (w.clear id).wrappers =
      Table.lookup Wrapper.id other w.wrappers := by
  refine Table.lookup_modify_of_ne Wrapper.id ?_ w.wrappers hne
  exact fun _ => rfl

theorem exists_lookup_of_alive (h : w.alive id = true) :
    ∃ self, Table.lookup Wrapper.id id w.wrappers = some self := by
  cases hlookup : Table.lookup Wrapper.id id w.wrappers with
  | some self => exact ⟨self, rfl⟩
  | none =>
      rw [Table.lookup_eq_none_iff] at hlookup
      obtain ⟨self, hself, heq⟩ := List.any_eq_true.mp h
      exact absurd (of_decide_eq_true heq) (hlookup self hself)

theorem alive_of_usable (h : w.usable id = true) : w.alive id = true :=
  (Bool.and_eq_true_iff.mp h).1

theorem ids_modify (hid : ∀ self, (f self).id = self.id) :
    (w.modify id f).wrappers.map Wrapper.id = w.wrappers.map Wrapper.id :=
  Table.map_modify Wrapper.id hid w.wrappers

section Checks

variable [DecidableEq Thread]

theorem exec_checkThread (hself : Table.lookup Wrapper.id id w.wrappers = some self)
    (howner : self.owner = thread) :
    exec (checkThread thread id : M T Cleanup Thread Unit) w = (.ok (), w) := by
  rw [checkThread, exec_bind_of_ok (exec_this hself), if_pos howner]
  rfl

/-- A method that begins with `check_thread` does nothing on another thread. -/
theorem exec_checkThread_bind {α : Type} {x : M T Cleanup Thread α}
    (hself : Table.lookup Wrapper.id id w.wrappers = some self) (howner : self.owner ≠ thread) :
    (exec (checkThread thread id >>= fun _ => x) w).2 = w := by
  rw [checkThread, bind_assoc, exec_bind_of_ok (exec_this hself), if_neg howner]
  rfl

theorem exec_terminateUnlessOwner_bind {α : Type} {x : M T Cleanup Thread α}
    (hself : Table.lookup Wrapper.id id w.wrappers = some self) (howner : self.owner ≠ thread) :
    (exec (terminateUnlessOwner thread id >>= fun _ => x) w).2 = w := by
  rw [terminateUnlessOwner, bind_assoc, exec_bind_of_ok (exec_this hself), if_neg howner]
  rfl

theorem exec_terminateUnlessOwner (hself : Table.lookup Wrapper.id id w.wrappers = some self)
    (howner : self.owner = thread) :
    exec (terminateUnlessOwner thread id : M T Cleanup Thread Unit) w = (.ok (), w) := by
  rw [terminateUnlessOwner, exec_bind_of_ok (exec_this hself), if_pos howner]
  rfl

end Checks

/-! ## Counting -/

/-- Which wrappings are counted, by their numbers and handles. -/
abbrev Counted (T : Type) := Nat → T → Bool

def Event.manages (p : Counted T) : Event T Cleanup Thread → Bool
  | managed wrapping handle _ _ => p wrapping handle
  | released _ _ | cleaned _ _ _ _ => false

/-- The handle is released, or passed to a cleanup function. -/
def Event.ends (p : Counted T) : Event T Cleanup Thread → Bool
  | released wrapping handle => p wrapping handle
  | cleaned wrapping handle _ _ => p wrapping handle
  | managed _ _ _ _ => false

namespace World

variable (w : World T Cleanup Thread) (p : Counted T)

def managings : Nat := w.trace.countP (Event.manages p)

def endings : Nat := w.trace.countP (Event.ends p)

end World

/-- The wrappers that hold a handle that is counted. -/
def holders (wrappers : List (Wrapper T Cleanup Thread)) (p : Counted T) : Nat :=
  wrappers.countP fun self => p self.wrapping self.hdl

section

variable (p : Counted T)

theorem endings_log (event : Event T Cleanup Thread) :
    (w.log event).endings p = w.endings p + if event.ends p then 1 else 0 := by
  simp [World.endings, World.log, List.countP_cons]

theorem managings_log (event : Event T Cleanup Thread) :
    (w.log event).managings p = w.managings p + if event.manages p then 1 else 0 := by
  simp [World.managings, World.log, List.countP_cons]

theorem holders_cons (self : Wrapper T Cleanup Thread) :
    holders (self :: hand) p = holders hand p + if p self.wrapping self.hdl then 1 else 0 := by
  simp [holders, List.countP_cons]

theorem holders_append (hand wrappers : List (Wrapper T Cleanup Thread)) :
    holders (hand ++ wrappers) p = holders hand p + holders wrappers p :=
  List.countP_append

theorem holders_modify (hself : Table.lookup Wrapper.id id w.wrappers = some self) :
    holders (w.modify id f).wrappers p + (if p self.wrapping self.hdl then 1 else 0) =
      holders w.wrappers p + (if p (f self).wrapping (f self).hdl then 1 else 0) :=
  Table.countP_modify Wrapper.id (f := f)
    (fun self : Wrapper T Cleanup Thread => p self.wrapping self.hdl) hself

theorem holders_erase (hself : Table.lookup Wrapper.id id w.wrappers = some self)
    (hids : (w.wrappers.map Wrapper.id).Nodup) :
    holders (w.erase id).wrappers p + (if p self.wrapping self.hdl then 1 else 0) =
      holders w.wrappers p :=
  Table.countP_erase Wrapper.id
    (fun self : Wrapper T Cleanup Thread => p self.wrapping self.hdl) hself hids

end

/-- The wrapping of this number. -/
def numbered (wrapping : Nat) : Counted T := fun other _ => other = wrapping

variable [Inhabited T]

/-- Null is not counted. -/
def Proper (p : Counted T) : Prop := ∀ wrapping, p wrapping default = false

variable [DecidableEq T]

/-- The wrapping of this number, if its handle is not null. -/
def only (wrapping : Nat) : Counted T := fun other handle => other = wrapping && handle ≠ default

/-- All wrappings of this handle. -/
def handled (handle : T) : Counted T := fun _ other => other = handle

theorem proper_only (wrapping : Nat) : Proper (only wrapping : Counted T) := by simp [Proper, only]

theorem proper_handled {handle : T} (hne : handle ≠ default) : Proper (handled handle) :=
  fun _ => decide_eq_false (Ne.symm hne)

theorem only_eq_true {wrapping other : Nat} {handle : T} :
    only wrapping other handle = true ↔ other = wrapping ∧ handle ≠ default := by simp [only]

theorem managings_only_le (w : World T Cleanup Thread) (wrapping : Nat) :
    w.managings (only wrapping) ≤ w.managings (numbered wrapping) := by
  refine List.countP_mono_left fun event _ hevent => ?_
  cases event with
  | managed other handle cleanup thread =>
      exact decide_eq_true (only_eq_true.mp hevent).1
  | released other handle => cases hevent
  | cleaned other handle cleanup thread => cases hevent

/-! ## The invariant -/

/-- `hand` are members on their way from one wrapper to another, or to an end. -/
structure Inv (hand : List (Wrapper T Cleanup Thread)) (w : World T Cleanup Thread) : Prop where
  ids : (w.wrappers.map Wrapper.id).Nodup
  lt : ∀ self ∈ w.wrappers, self.id < w.nextId
  old : ∀ wrapping handle cleanup thread,
    .managed wrapping handle cleanup thread ∈ w.trace → wrapping < w.nextWrapping
  held : ∀ self ∈ hand ++ w.wrappers, self.hdl ≠ default →
    .managed self.wrapping self.hdl self.cleanup self.owner ∈ w.trace
  balance : ∀ p, Proper p → holders (hand ++ w.wrappers) p + w.endings p ≤ w.managings p
  once : ∀ wrapping, w.managings (numbered wrapping) ≤ 1
  kept : ∀ wrapping handle, handle ≠ default → ∀ cleanup thread,
    .managed wrapping handle (some cleanup) thread ∈ w.trace →
      holders (hand ++ w.wrappers) (only wrapping) + w.endings (only wrapping) = 1
  released : ∀ wrapping handle, handle ≠ default → .released wrapping handle ∈ w.trace →
    ∃ cleanup thread, .managed wrapping handle cleanup thread ∈ w.trace
  cleaned : ∀ wrapping handle cleanup thread,
    .cleaned wrapping handle cleanup thread ∈ w.trace →
      handle ≠ default ∧ .managed wrapping handle (some cleanup) thread ∈ w.trace

theorem inv_start : Inv [] (World.start : World T Cleanup Thread) :=
  ⟨List.nodup_nil, nofun, nofun, nofun, fun _ _ => Nat.le_refl 0, fun _ => Nat.zero_le 1, nofun,
    nofun, nofun⟩

/-- What is wrapped under a number is known by the number. -/
theorem Inv.managed_unique (h : Inv hand w) {wrapping : Nat} {handle handle' : T}
    {cleanup cleanup' : Option Cleanup} {thread thread' : Thread}
    (hmem : .managed wrapping handle cleanup thread ∈ w.trace)
    (hmem' : .managed wrapping handle' cleanup' thread' ∈ w.trace) :
    handle = handle' ∧ cleanup = cleanup' ∧ thread = thread' := by
  have honce := h.once wrapping
  rw [World.managings, List.countP_eq_length_filter] at honce
  have hfilter : ∀ handle c t, .managed wrapping handle c t ∈ w.trace →
      .managed wrapping handle c t ∈ w.trace.filter (Event.manages (numbered wrapping)) :=
    fun handle c t hm => List.mem_filter.mpr ⟨hm, by simp [Event.manages, numbered]⟩
  have hfirst := hfilter _ _ _ hmem
  have hsecond := hfilter _ _ _ hmem'
  rcases hlist : w.trace.filter (Event.manages (numbered wrapping)) with _ | ⟨event, rest⟩
  · rw [hlist] at hfirst
    cases hfirst
  · rw [hlist] at hfirst hsecond honce
    obtain rfl : rest = [] := by
      simpa using honce
    rw [List.mem_singleton] at hfirst hsecond
    rw [← hsecond] at hfirst
    exact (Event.managed.inj hfirst).2

/-- A number that was not given out counts nothing. -/
theorem Inv.managings_of_new (h : Inv hand w) {p : Counted T}
    (hp : ∀ wrapping handle, p wrapping handle = true → w.nextWrapping ≤ wrapping) :
    w.managings p = 0 := by
  refine List.countP_eq_zero.mpr fun event hevent hmanages => ?_
  cases event with
  | managed wrapping handle cleanup thread =>
      exact Nat.not_lt.mpr (hp wrapping handle hmanages)
        (h.old wrapping handle cleanup thread hevent)
  | released wrapping handle => cases hmanages
  | cleaned wrapping handle cleanup thread => cases hmanages

/-! ### Wrappers that may be overwritten -/

/-- The wrapper holds nothing that has a cleanup function. -/
def Wrapper.Spent (self : Wrapper T Cleanup Thread) : Prop :=
  self.hdl = default ∨ self.cleanup = none

theorem Inv.not_only_of_spent (h : Inv hand w) (hself : self ∈ w.wrappers) (hspent : self.Spent)
    {wrapping : Nat} {handle : T} {cleanup : Cleanup} {thread : Thread}
    (hmem : .managed wrapping handle (some cleanup) thread ∈ w.trace) :
    ¬ only wrapping self.wrapping self.hdl = true := by
  intro honly
  obtain ⟨rfl, hne⟩ := only_eq_true.mp honly
  rcases hspent with hnull | hnone
  · exact hne hnull
  · have hheld := h.held self (List.mem_append_right _ hself) hne
    rw [hnone] at hheld
    cases (h.managed_unique hheld hmem).2.1

/-! ### Members on their way -/

theorem Inv.lt_modify (h : Inv hand w) (hid : ∀ self, (f self).id = self.id) :
    ∀ self ∈ (w.modify id f).wrappers, self.id < w.nextId :=
  Table.forall_key_modify Wrapper.id (p := (· < w.nextId)) hid h.lt

/-- The wrapped handles are the same, whoever has them. -/
theorem Inv.regroup {hand' : List (Wrapper T Cleanup Thread)} {w' : World T Cleanup Thread}
    (h : Inv hand w) (htrace : w'.trace = w.trace) (hnext : w'.nextWrapping = w.nextWrapping)
    (hids : (w'.wrappers.map Wrapper.id).Nodup)
    (hlt : ∀ self ∈ w'.wrappers, self.id < w'.nextId)
    (hheld : ∀ self ∈ hand' ++ w'.wrappers, self.hdl ≠ default →
      .managed self.wrapping self.hdl self.cleanup self.owner ∈ w.trace)
    (hcount : ∀ p, Proper p →
      holders (hand' ++ w'.wrappers) p = holders (hand ++ w.wrappers) p) : Inv hand' w' := by
  have hendings : ∀ p, w'.endings p = w.endings p := by
    simp only [World.endings, htrace, implies_true]
  have hmanagings : ∀ p, w'.managings p = w.managings p := by
    simp only [World.managings, htrace, implies_true]
  refine ⟨hids, hlt, ?_, ?_, ?_, ?_, ?_, ?_, ?_⟩
  · rw [htrace, hnext]
    exact h.old
  · rw [htrace]
    exact hheld
  · intro p hp
    rw [hcount p hp, hendings, hmanagings]
    exact h.balance p hp
  · intro wrapping
    rw [hmanagings]
    exact h.once wrapping
  · intro wrapping handle hne cleanup thread hmem
    rw [htrace] at hmem
    rw [hcount _ (proper_only wrapping), hendings]
    exact h.kept wrapping handle hne cleanup thread hmem
  · rw [htrace]
    exact h.released
  · rw [htrace]
    exact h.cleaned

/-- The members of a wrapper are taken, and null is left. -/
theorem Inv.take (h : Inv hand w) (hself : Table.lookup Wrapper.id id w.wrappers = some self)
    (hid : ∀ self, (f self).id = self.id) (hnull : (f self).hdl = default) :
    Inv (self :: hand) (w.modify id f) := by
  have hcount : ∀ p, Proper p →
      holders (self :: hand ++ (w.modify id f).wrappers) p = holders (hand ++ w.wrappers) p := by
    intro p hp
    have hmodify := holders_modify (f := f) p hself
    rw [hnull, hp, if_neg Bool.false_ne_true] at hmodify
    rw [holders_append, holders_append, holders_cons]
    omega
  have hids : ((w.modify id f).wrappers.map Wrapper.id).Nodup := by
    rw [ids_modify hid]
    exact h.ids
  refine h.regroup rfl rfl hids (h.lt_modify hid) ?_ hcount
  intro other hother hne
  rcases List.mem_append.mp hother with hhand | hwrapper
  · rcases List.mem_cons.mp hhand with rfl | hhand
    · exact h.held _ (List.mem_append_right _ (Table.mem_of_lookup _ hself)) hne
    · exact h.held other (List.mem_append_left _ hhand) hne
  · rcases Table.mem_modify Wrapper.id hself h.ids hwrapper with rfl | ⟨hmem, _⟩
    · exact absurd hnull hne
    · exact h.held other (List.mem_append_right _ hmem) hne

theorem Inv.moved (h : Inv hand w) (moved : List ObjectId) : Inv hand { w with moved := moved } :=
  ⟨h.ids, h.lt, h.old, h.held, h.balance, h.once, h.kept, h.released, h.cleaned⟩

theorem Inv.moveOut (h : Inv hand w) (hself : Table.lookup Wrapper.id id w.wrappers = some self)
    (left : Option Cleanup) : Inv (self :: hand) (w.moveOut id left) := by
  have htaken : Inv (self :: hand)
      (w.modify id fun self => { self with hdl := default, cleanup := left }) :=
    h.take hself (fun _ => rfl) rfl
  exact htaken.moved (id :: w.moved)

/-- Members without a handle. -/
theorem Inv.empty (h : Inv hand w) (hnull : source.hdl = default) : Inv (source :: hand) w := by
  have hcount : ∀ p, Proper p →
      holders (source :: hand ++ w.wrappers) p = holders (hand ++ w.wrappers) p := by
    intro p hp
    rw [List.cons_append, holders_cons, hnull, hp, if_neg Bool.false_ne_true]
    rfl
  refine h.regroup rfl rfl h.ids h.lt ?_ hcount
  intro other hother hne
  rcases List.mem_cons.mp hother with rfl | hother
  · exact absurd hnull hne
  · exact h.held other hother hne

/-- Members are put into a wrapper that may be overwritten. -/
theorem Inv.give (h : Inv (source :: hand) w)
    (hself : Table.lookup Wrapper.id id w.wrappers = some self) (hspent : self.Spent)
    (hid : ∀ self, (f self).id = self.id) (hf : f self = { source with id := self.id }) :
    Inv hand (w.modify id f) := by
  have hmem := Table.mem_of_lookup _ hself
  have hcount : ∀ p, holders (hand ++ (w.modify id f).wrappers) p +
      (if p self.wrapping self.hdl then 1 else 0) = holders (source :: hand ++ w.wrappers) p := by
    intro p
    have hmodify := holders_modify (f := f) p hself
    have hmembers : (f self).wrapping = source.wrapping ∧ (f self).hdl = source.hdl := by
      rw [hf]
      exact ⟨rfl, rfl⟩
    rw [hmembers.1, hmembers.2] at hmodify
    rw [holders_append, holders_append, holders_cons]
    omega
  refine ⟨?_, h.lt_modify hid, h.old, ?_, ?_, h.once, ?_, h.released, h.cleaned⟩
  · rw [ids_modify hid]
    exact h.ids
  · intro other hother hne
    rcases List.mem_append.mp hother with hhand | hwrapper
    · exact h.held other (List.mem_append_left _ (List.mem_cons_of_mem _ hhand)) hne
    · rcases Table.mem_modify Wrapper.id hself h.ids hwrapper with rfl | ⟨hmem, _⟩
      · rw [hf] at hne ⊢
        exact h.held source (List.mem_append_left _ List.mem_cons_self) hne
      · exact h.held other (List.mem_append_right _ hmem) hne
  · intro p hp
    have hbalance := h.balance p hp
    have hholders := hcount p
    show holders (hand ++ (w.modify id f).wrappers) p + w.endings p ≤ w.managings p
    omega
  · intro wrapping handle hne cleanup thread hmanaged
    have hkept := h.kept wrapping handle hne cleanup thread hmanaged
    have hholders := hcount (only wrapping)
    rw [if_neg (h.not_only_of_spent hmem hspent hmanaged)] at hholders
    show holders (hand ++ (w.modify id f).wrappers) (only wrapping) +
      w.endings (only wrapping) = 1
    omega

/-- A wrapper is constructed from members. -/
theorem Inv.born (h : Inv (source :: hand) w) :
    Inv hand (w.born source.hdl source.wrapping source.cleanup source.owner) := by
  have hcount : ∀ p, holders (hand ++
      (w.born source.hdl source.wrapping source.cleanup source.owner).wrappers) p =
        holders (source :: hand ++ w.wrappers) p := by
    intro p
    simp only [World.born, holders_append, holders_cons]
    omega
  refine h.regroup rfl rfl ?_ ?_ ?_ fun p _ => hcount p
  · refine List.nodup_cons.mpr ⟨fun hmem => ?_, h.ids⟩
    obtain ⟨other, hother, heq⟩ := List.mem_map.mp hmem
    exact Nat.lt_irrefl _ (heq ▸ h.lt other hother)
  · intro other hother
    rcases List.mem_cons.mp hother with rfl | hother
    · exact Nat.lt_succ_self _
    · exact Nat.lt_succ_of_lt (h.lt other hother)
  · intro other hother hne
    rcases List.mem_append.mp hother with hhand | hwrapper
    · exact h.held other (List.mem_append_left _ (List.mem_cons_of_mem _ hhand)) hne
    · rcases List.mem_cons.mp hwrapper with rfl | hwrapper
      · exact h.held source (List.mem_append_left _ List.mem_cons_self) hne
      · exact h.held other (List.mem_append_right _ hwrapper) hne

/-- Members come to their end: they are released, or a cleanup function takes them. -/
theorem Inv.finish (h : Inv (source :: hand) w)
    (hevent : event = .released source.wrapping source.hdl ∨
      ∃ cleanup, source.cleanup = some cleanup ∧ source.hdl ≠ default ∧
        event = .cleaned source.wrapping source.hdl cleanup source.owner) :
    Inv hand (w.log event) := by
  have hends : ∀ p, event.ends p = p source.wrapping source.hdl := by
    rcases hevent with rfl | ⟨cleanup, _, _, rfl⟩
    · exact fun _ => rfl
    · exact fun _ => rfl
  have hmanages : ∀ wrapping handle cleanup thread,
      event ≠ .managed wrapping handle cleanup thread := by
    rcases hevent with rfl | ⟨cleanup, _, _, rfl⟩
    · exact nofun
    · exact nofun
  have hmanagings : ∀ p, (w.log event).managings p = w.managings p := by
    rcases hevent with rfl | ⟨cleanup, _, _, rfl⟩
    · exact fun p => managings_log p _
    · exact fun p => managings_log p _
  have hcount : ∀ p, holders (hand ++ w.wrappers) p + (w.log event).endings p =
      holders (source :: hand ++ w.wrappers) p + w.endings p := by
    intro p
    rw [endings_log, hends, holders_append, holders_append, holders_cons]
    omega
  have hold : ∀ {wrapping handle cleanup thread},
      .managed wrapping handle cleanup thread ∈ (w.log event).trace →
        .managed wrapping handle cleanup thread ∈ w.trace := fun hmem =>
    (List.mem_cons.mp hmem).resolve_left fun heq => hmanages _ _ _ _ heq.symm
  refine ⟨h.ids, h.lt, fun _ _ _ _ hmem => h.old _ _ _ _ (hold hmem), ?_, ?_, ?_, ?_, ?_, ?_⟩
  · intro other hother hne
    exact List.mem_cons_of_mem _ (h.held other (List.mem_cons_of_mem _ hother) hne)
  · intro p hp
    rw [hmanagings]
    exact Nat.le_trans (Nat.le_of_eq (hcount p)) (h.balance p hp)
  · intro wrapping
    rw [hmanagings]
    exact h.once wrapping
  · intro wrapping handle hne cleanup thread hmem
    exact (hcount (only wrapping)).trans (h.kept wrapping handle hne cleanup thread (hold hmem))
  · intro wrapping handle hne hmem
    rcases List.mem_cons.mp hmem with heq | hmem
    · rcases hevent with rfl | ⟨cleanup, _, _, rfl⟩
      · cases heq
        exact ⟨source.cleanup, source.owner, List.mem_cons_of_mem _
          (h.held source (List.mem_append_left _ List.mem_cons_self) hne)⟩
      · cases heq
    · obtain ⟨cleanup, thread, hmanaged⟩ := h.released wrapping handle hne hmem
      exact ⟨cleanup, thread, List.mem_cons_of_mem _ hmanaged⟩
  · intro wrapping handle cleanup thread hmem
    rcases List.mem_cons.mp hmem with heq | hmem
    · rcases hevent with rfl | ⟨cleanup', hcleanup, hne, rfl⟩
      · cases heq
      · cases heq
        have hheld := h.held source (List.mem_append_left _ List.mem_cons_self) hne
        rw [hcleanup] at hheld
        exact ⟨hne, List.mem_cons_of_mem _ hheld⟩
    · obtain ⟨hne, hmanaged⟩ := h.cleaned wrapping handle cleanup thread hmem
      exact ⟨hne, List.mem_cons_of_mem _ hmanaged⟩

/-- A handle comes into the hands of the library. -/
theorem Inv.wrap (h : Inv hand w) (source : Wrapper T Cleanup Thread)
    (hnext : source.wrapping = w.nextWrapping) :
    Inv (source :: hand) (w.wrap source.hdl source.cleanup source.owner) := by
  have hmanagings : ∀ p, (w.wrap source.hdl source.cleanup source.owner).managings p =
      w.managings p + if p source.wrapping source.hdl then 1 else 0 := by
    intro p
    rw [hnext]
    exact managings_log p _
  have hendings : ∀ p,
      (w.wrap source.hdl source.cleanup source.owner).endings p = w.endings p :=
    fun p => endings_log p _
  have hcount : ∀ p, holders (source :: hand ++ w.wrappers) p =
      holders (hand ++ w.wrappers) p + if p source.wrapping source.hdl then 1 else 0 :=
    fun p => holders_cons p _
  have hcases : ∀ {wrapping handle cleanup thread}, .managed wrapping handle cleanup thread ∈
      (w.wrap source.hdl source.cleanup source.owner).trace →
        (wrapping = source.wrapping ∧ handle = source.hdl) ∨
          .managed wrapping handle cleanup thread ∈ w.trace := by
    intro wrapping handle cleanup thread hmem
    rcases List.mem_cons.mp hmem with heq | hmem
    · obtain ⟨hwrapping, hhandle, -⟩ := Event.managed.inj heq
      exact .inl ⟨hwrapping.trans hnext.symm, hhandle⟩
    · exact .inr hmem
  refine ⟨h.ids, h.lt, ?_, ?_, ?_, ?_, ?_, ?_, ?_⟩
  · intro wrapping handle cleanup thread hmem
    rcases hcases hmem with ⟨hwrapping, -⟩ | hmem
    · rw [hwrapping, hnext]
      exact Nat.lt_succ_self _
    · exact Nat.lt_succ_of_lt (h.old wrapping handle cleanup thread hmem)
  · intro other hother hne
    rcases List.mem_cons.mp hother with rfl | hother
    · rw [hnext]
      exact List.mem_cons_self
    · exact List.mem_cons_of_mem _ (h.held other hother hne)
  · intro p hp
    have hbalance := h.balance p hp
    show holders (source :: hand ++ w.wrappers) p +
      (w.wrap source.hdl source.cleanup source.owner).endings p ≤
        (w.wrap source.hdl source.cleanup source.owner).managings p
    rw [hmanagings, hendings, hcount]
    omega
  · intro wrapping
    rw [hmanagings]
    by_cases hwrapping : wrapping = w.nextWrapping
    · have hzero : w.managings (numbered wrapping) = 0 := h.managings_of_new fun other handle hp =>
        Nat.le_of_eq (hwrapping.symm.trans (of_decide_eq_true hp).symm)
      rw [hzero]
      split <;> omega
    · have hother : ¬ (numbered wrapping source.wrapping source.hdl : Bool) = true := fun hp =>
        hwrapping ((of_decide_eq_true hp).symm.trans hnext)
      rw [if_neg hother]
      exact h.once wrapping
  · intro wrapping handle hne cleanup thread hmem
    show holders (source :: hand ++ w.wrappers) (only wrapping) +
      (w.wrap source.hdl source.cleanup source.owner).endings (only wrapping) = 1
    rw [hendings, hcount]
    rcases hcases hmem with ⟨rfl, rfl⟩ | hmem
    · have hbalance := h.balance (only source.wrapping) (proper_only _)
      have hzero : w.managings (only source.wrapping) = 0 :=
        h.managings_of_new fun other handle hp =>
          Nat.le_of_eq ((only_eq_true.mp hp).1.trans hnext).symm
      rw [if_pos (only_eq_true.mpr ⟨rfl, hne⟩)]
      omega
    · have hlt := h.old wrapping handle _ thread hmem
      have hother : ¬ only wrapping source.wrapping source.hdl = true := fun hp => by
        have hwrapping := (only_eq_true.mp hp).1
        omega
      rw [if_neg hother]
      exact h.kept wrapping handle hne cleanup thread hmem
  · intro wrapping handle hne hmem
    obtain ⟨cleanup, thread, hmanaged⟩ := h.released wrapping handle hne
      ((List.mem_cons.mp hmem).resolve_left nofun)
    exact ⟨cleanup, thread, List.mem_cons_of_mem _ hmanaged⟩
  · intro wrapping handle cleanup thread hmem
    obtain ⟨hne, hmanaged⟩ := h.cleaned wrapping handle cleanup thread
      ((List.mem_cons.mp hmem).resolve_left nofun)
    exact ⟨hne, List.mem_cons_of_mem _ hmanaged⟩

/-- A wrapper that may be overwritten may also be destroyed. -/
theorem Inv.erase (h : Inv hand w) (hself : Table.lookup Wrapper.id id w.wrappers = some self)
    (hspent : self.Spent) : Inv hand (w.erase id) := by
  have hmem := Table.mem_of_lookup _ hself
  have hcount : ∀ p, holders (hand ++ (w.erase id).wrappers) p +
      (if p self.wrapping self.hdl then 1 else 0) = holders (hand ++ w.wrappers) p := by
    intro p
    have herase := holders_erase p hself h.ids
    rw [holders_append, holders_append]
    omega
  refine ⟨h.ids.sublist (List.filter_sublist.map _), ?_, h.old, ?_, ?_, h.once, ?_, h.released,
    h.cleaned⟩
  · exact fun other hother => h.lt other ((Table.mem_erase_iff _).mp hother).1
  · intro other hother hne
    refine h.held other ?_ hne
    exact List.mem_append.mpr ((List.mem_append.mp hother).imp_right fun hmem =>
      ((Table.mem_erase_iff _).mp hmem).1)
  · intro p hp
    have hbalance := h.balance p hp
    have hholders := hcount p
    show holders (hand ++ (w.erase id).wrappers) p + w.endings p ≤ w.managings p
    omega
  · intro wrapping handle hne cleanup thread hmanaged
    have hkept := h.kept wrapping handle hne cleanup thread hmanaged
    have hholders := hcount (only wrapping)
    rw [if_neg (h.not_only_of_spent hmem hspent hmanaged)] at hholders
    show holders (hand ++ (w.erase id).wrappers) (only wrapping) + w.endings (only wrapping) = 1
    omega

/-! ## Operations -/

/-- What is known after `reset_unchecked` on a wrapper. -/
structure Reset (id : ObjectId) (w t : World T Cleanup Thread) : Prop where
  inv : Inv [] t
  spent : ∃ self, Table.lookup Wrapper.id id t.wrappers = some self ∧ self.Spent
  other : ∀ other, other ≠ id →
    Table.lookup Wrapper.id other t.wrappers = Table.lookup Wrapper.id other w.wrappers

theorem exec_resetUnchecked (h : Inv [] w)
    (hself : Table.lookup Wrapper.id id w.wrappers = some self) (howner : self.owner = thread) :
    ∃ t, exec (resetUnchecked thread id) w = (.ok (), t) ∧ Reset id w t := by
  rw [resetUnchecked, exec_bind_of_ok (exec_this hself)]
  cases hcleanup : self.cleanup with
  | none => exact ⟨w, rfl, h, ⟨self, hself, .inr hcleanup⟩, fun _ _ => rfl⟩
  | some cleanup =>
      by_cases hhdl : self.hdl = default
      · simp only [hhdl, if_true]
        exact ⟨w, rfl, h, ⟨self, hself, .inl hhdl⟩, fun _ _ => rfl⟩
      · simp only [hhdl, if_false]
        let event : Event T Cleanup Thread := .cleaned self.wrapping self.hdl cleanup thread
        have htaken : Inv [self] (w.clear id) := h.take hself (fun _ => rfl) rfl
        have hfinished : Inv [] ((w.clear id).log event) :=
          htaken.finish (.inr ⟨cleanup, hcleanup, hhdl, by rw [howner]⟩)
        exact ⟨_, rfl, hfinished, ⟨_, lookup_clear hself, .inl rfl⟩,
          fun other hne => lookup_clear_of_ne (w.log event) hne⟩

theorem inv_moveConstruct (h : Inv [] w)
    (hself : Table.lookup Wrapper.id id w.wrappers = some self) (left : Option Cleanup) :
    Inv [] (exec (moveConstruct id left) w).2 := by
  rw [moveConstruct, exec_bind_of_ok (exec_this hself)]
  exact (h.moveOut hself left).born

variable [DecidableEq Thread]

theorem inv_put (h : Inv [] w) (hself : Table.lookup Wrapper.id id w.wrappers = some self)
    (handle : T) : Inv [] (exec (put thread id handle) w).2 := by
  unfold put
  by_cases howner : self.owner = thread
  · obtain ⟨t, hexec, hreset⟩ := exec_resetUnchecked h hself howner
    obtain ⟨self', hself', hspent⟩ := hreset.spent
    have hresult : exec (reset thread id) w = (.ok (), t) := by
      rw [reset, exec_bind_of_ok (exec_checkThread hself howner), hexec]
    rw [exec_bind_of_ok (exec_checkThread hself howner), exec_bind_of_ok hresult,
      exec_bind_of_ok (exec_this hself'), exec_bind_of_ok (exec_get t)]
    have hwrapped := hreset.inv.wrap ⟨id, handle, t.nextWrapping, self'.cleanup, self'.owner⟩ rfl
    exact hwrapped.give hself' hspent (fun _ => rfl) rfl
  · rw [exec_checkThread_bind hself howner]
    exact h

theorem inv_release (h : Inv [] w) (hself : Table.lookup Wrapper.id id w.wrappers = some self) :
    Inv [] (exec (release thread id) w).2 := by
  unfold release
  by_cases howner : self.owner = thread
  · rw [exec_bind_of_ok (exec_checkThread hself howner), exec_bind_of_ok (exec_this hself)]
    have htaken : Inv [self] (w.clear id) := h.take hself (fun _ => rfl) rfl
    exact htaken.finish (.inl rfl)
  · rw [exec_checkThread_bind hself howner]
    exact h

theorem inv_reset (h : Inv [] w) (hself : Table.lookup Wrapper.id id w.wrappers = some self) :
    Inv [] (exec (reset thread id) w).2 := by
  unfold reset
  by_cases howner : self.owner = thread
  · obtain ⟨t, hexec, hreset⟩ := exec_resetUnchecked h hself howner
    rw [exec_bind_of_ok (exec_checkThread hself howner), hexec]
    exact hreset.inv
  · rw [exec_checkThread_bind hself howner]
    exact h

theorem exec_get_snd (hself : Table.lookup Wrapper.id id w.wrappers = some self) :
    (exec (get thread id) w).2 = w := by
  unfold get
  by_cases howner : self.owner = thread
  · rw [exec_bind_of_ok (exec_checkThread hself howner), exec_bind_of_ok (exec_this hself)]
    split <;> rfl
  · exact exec_checkThread_bind hself howner

theorem inv_moveAssign {other : ObjectId} (h : Inv [] w)
    (hself : Table.lookup Wrapper.id id w.wrappers = some self)
    (hsource : Table.lookup Wrapper.id other w.wrappers = some source) (left : Option Cleanup) :
    Inv [] (exec (moveAssign thread id other left) w).2 := by
  unfold moveAssign
  by_cases hsame : id = other
  · rw [if_pos hsame]
    exact h
  · rw [if_neg hsame]
    by_cases howner : self.owner = thread
    · obtain ⟨t, hexec, hreset⟩ := exec_resetUnchecked h hself howner
      obtain ⟨self', hself', hspent⟩ := hreset.spent
      have hsource' := (hreset.other other (Ne.symm hsame)).trans hsource
      rw [exec_bind_of_ok (exec_terminateUnlessOwner hself howner), exec_bind_of_ok hexec,
        exec_bind_of_ok (exec_this hsource')]
      have hself'' : Table.lookup Wrapper.id id (t.moveOut other left).wrappers = some self' := by
        rw [← hself']
        refine Table.lookup_modify_of_ne Wrapper.id ?_ t.wrappers hsame
        exact fun _ => rfl
      have hgiven : Inv [] ((t.moveOut other left).modify id
          fun self => { source with id := self.id }) :=
        (hreset.inv.moveOut hsource' left).give hself'' hspent (fun _ => rfl) rfl
      exact hgiven.moved _
    · rw [exec_terminateUnlessOwner_bind hself howner]
      exact h

theorem inv_destroy (h : Inv [] w) (hself : Table.lookup Wrapper.id id w.wrappers = some self) :
    Inv [] (exec (destroy thread id) w).2 := by
  unfold destroy
  by_cases howner : self.owner = thread
  · obtain ⟨t, hexec, hreset⟩ := exec_resetUnchecked h hself howner
    obtain ⟨self', hself', hspent⟩ := hreset.spent
    rw [exec_bind_of_ok (exec_terminateUnlessOwner hself howner), exec_bind_of_ok hexec]
    exact hreset.inv.erase hself' hspent
  · rw [exec_terminateUnlessOwner_bind hself howner]
    exact h

theorem inv_perform (h : Inv [] w) (thread : Thread) {op : Op T Cleanup Thread}
    (hable : op.able w = true) :
    Inv [] (exec (op.perform thread) w).2 := by
  cases op with
  | construct handle cleanup =>
      exact (h.wrap ⟨0, handle, w.nextWrapping, cleanup, thread⟩ rfl).born
  | constructEmpty cleanup =>
      have hempty : Inv [⟨0, default, 0, cleanup, thread⟩] w := h.empty rfl
      exact hempty.born
  | put id handle =>
      obtain ⟨self, hself⟩ := exists_lookup_of_alive (alive_of_usable hable)
      exact inv_put h hself handle
  | release id =>
      obtain ⟨self, hself⟩ := exists_lookup_of_alive (alive_of_usable hable)
      rw [Op.perform, exec_discard]
      exact inv_release h hself
  | reset id =>
      obtain ⟨self, hself⟩ := exists_lookup_of_alive (alive_of_usable hable)
      exact inv_reset h hself
  | get id =>
      obtain ⟨self, hself⟩ := exists_lookup_of_alive (alive_of_usable hable)
      rw [Op.perform, exec_discard, exec_get_snd hself]
      exact h
  | moveConstruct other left =>
      obtain ⟨source, hsource⟩ := exists_lookup_of_alive (alive_of_usable hable)
      exact inv_moveConstruct h hsource left
  | moveAssign id other left =>
      obtain ⟨halive, husable⟩ := Bool.and_eq_true_iff.mp hable
      obtain ⟨self, hself⟩ := exists_lookup_of_alive halive
      obtain ⟨source, hsource⟩ := exists_lookup_of_alive (alive_of_usable husable)
      exact inv_moveAssign h hself hsource left
  | destroy id =>
      obtain ⟨self, hself⟩ := exists_lookup_of_alive hable
      exact inv_destroy h hself

theorem inv_step (h : Inv [] w) (call : Thread × Op T Cleanup Thread) : Inv [] (step w call) := by
  unfold step
  split
  · exact h
  · next hrun =>
    have hable : call.2.able w = true := by
      simp only [Bool.or_eq_true, Bool.not_eq_true', not_or] at hrun
      simpa using hrun.2
    have hperform := inv_perform h call.1 hable
    rcases hresult : exec (call.2.perform call.1) w with ⟨(_ | _) | _, t⟩ <;>
      rw [hresult] at hperform
    · exact hperform
    · exact ⟨hperform.ids, hperform.lt, hperform.old, hperform.held, hperform.balance,
        hperform.once, hperform.kept, hperform.released, hperform.cleaned⟩
    · exact hperform

theorem inv_run (calls : List (Thread × Op T Cleanup Thread)) :
    Inv [] (Run.after step World.start calls) := by
  apply Run.after_of_invariant (I := Inv [])
  · exact fun _ call h => inv_step h call
  · exact inv_start

/-! ## What becomes of handles -/

structure Disposed (w : World T Cleanup Thread) : Prop where
  /-- A number stands for one wrapping. -/
  unique : ∀ wrapping handle cleanup thread handle' cleanup' thread',
    .managed wrapping handle cleanup thread ∈ w.trace →
      .managed wrapping handle' cleanup' thread' ∈ w.trace →
        handle = handle' ∧ cleanup = cleanup' ∧ thread = thread'
  /-- What was wrapped is not cleaned up twice, or after it was released. -/
  once : ∀ wrapping, w.endings (only wrapping) ≤ 1
  /-- A handle comes to an end at most as often as it was wrapped. -/
  handles : ∀ handle, handle ≠ default → w.endings (handled handle) ≤ w.managings (handled handle)
  /-- What is released was wrapped. -/
  released : ∀ wrapping handle, handle ≠ default → .released wrapping handle ∈ w.trace →
    ∃ cleanup thread, .managed wrapping handle cleanup thread ∈ w.trace
  /-- A handle goes to its cleanup function, on the thread that owned it. -/
  cleaned : ∀ wrapping handle cleanup thread, .cleaned wrapping handle cleanup thread ∈ w.trace →
    handle ≠ default ∧ .managed wrapping handle (some cleanup) thread ∈ w.trace
  /-- Without wrappers, everything with a cleanup function has come to its end. -/
  complete : w.wrappers = [] → ∀ wrapping handle, handle ≠ default → ∀ cleanup thread,
    .managed wrapping handle (some cleanup) thread ∈ w.trace → w.endings (only wrapping) = 1

/-- Wrapped handles are disposed of in every run of operations, on any threads. -/
theorem disposed_run (calls : List (Thread × Op T Cleanup Thread)) :
    Disposed (Run.after step World.start calls) := by
  have h : Inv [] (Run.after step World.start calls) := inv_run calls
  refine ⟨fun _ _ _ _ _ _ _ => h.managed_unique, fun wrapping => ?_, fun handle hne => ?_,
    h.released, h.cleaned, fun hempty wrapping handle hne cleanup thread hmem => ?_⟩
  · have hbalance := h.balance (only wrapping) (proper_only wrapping)
    have hle := managings_only_le (Run.after step World.start calls) wrapping
    have honce := h.once wrapping
    omega
  · have hbalance := h.balance (handled handle) (proper_handled hne)
    omega
  · have hkept := h.kept wrapping handle hne cleanup thread hmem
    rw [hempty] at hkept
    simpa [holders] using hkept

/-- Without a cleanup function, nothing happens to a handle when its wrapper is destroyed. A handle
that two wrappers have is cleaned up twice. -/
theorem not_disposed_by_handle :
    (¬ ∀ (calls : List (Nat × Op Nat Nat Nat)), (Run.after step World.start calls).wrappers = [] →
      ∀ wrapping handle, handle ≠ default → ∀ cleanup thread,
        .managed wrapping handle cleanup thread ∈ (Run.after step World.start calls).trace →
          (Run.after step World.start calls).endings (only wrapping) = 1) ∧
    ¬ ∀ (calls : List (Nat × Op Nat Nat Nat)) (handle : Nat), handle ≠ default →
      (Run.after step World.start calls).endings (handled handle) ≤ 1 := by
  constructor
  · intro h
    have hended := h [(0, .construct 7 none), (0, .destroy 0)] rfl 0 7 (by decide) none 0 (by decide)
    revert hended
    decide
  · intro h
    have honce := h [(0, .construct 7 (some 0)), (0, .construct 7 (some 0)), (0, .destroy 0),
      (0, .destroy 1)] 7 (by decide)
    revert honce
    decide

end Dmn.ScopedHandle
