import Dmn.Verification.Design.Retry

/-! # Automatic item names

The names come from a sequence number that is never reset, so that two automatic names are the same
only when the sequence has gone around between them. A name that was given to a column by hand can
be any, also one of the sequence. -/

namespace Dmn.Design.View

open Exec Native

variable (env : Env)

/-! ## The names of the columns -/

def nameAt (v : View) (i : Nat) : List UInt8 := ((v.columns[i]?).map Column.itemName).getD []

/-- The views have the same names and the same sequence number. -/
structure SameNames (v w : View) : Prop where
  names : w.columns.map Column.itemName = v.columns.map Column.itemName
  sequence : w.tableFormat.sequenceNumber = v.tableFormat.sequenceNumber

theorem SameNames.refl (v : View) : SameNames v v := ⟨rfl, rfl⟩

theorem SameNames.trans {u v w : View} (h : SameNames u v) (h' : SameNames v w) : SameNames u w :=
  ⟨h'.names.trans h.names, h'.sequence.trans h.sequence⟩

theorem nameAt_eq (v : View) (i : Nat) : nameAt v i = ((v.columns.map Column.itemName)[i]?).getD [] := by
  simp [nameAt]

theorem SameNames.nameAt_eq {v w : View} (h : SameNames v w) (i : Nat) : nameAt w i = nameAt v i := by
  rw [View.nameAt_eq, View.nameAt_eq, h.names]

theorem SameNames.length_eq {v w : View} (h : SameNames v w) :
    w.columns.length = v.columns.length := by
  simpa using congrArg List.length h.names

theorem nameAt_of_le {v : View} {i : Nat} (h : v.columns.length ≤ i) : nameAt v i = [] := by
  simp [nameAt, List.getElem?_eq_none h]

theorem SameNames.of_nameAt {v w : View} (hlength : w.columns.length = v.columns.length)
    (hnames : ∀ i, nameAt w i = nameAt v i)
    (hsequence : w.tableFormat.sequenceNumber = v.tableFormat.sequenceNumber) : SameNames v w := by
  refine ⟨List.ext_getElem (by simpa using hlength) fun i hi hi' => ?_, hsequence⟩
  have hname := hnames i
  rw [View.nameAt_eq, View.nameAt_eq, List.getElem?_eq_getElem hi, List.getElem?_eq_getElem hi'] at hname
  exact hname

theorem sameNames_modifyColumn (i : Nat) {f : Column → Column}
    (hf : ∀ c, (f c).itemName = c.itemName) (v : View) : SameNames v (modifyColumn i f v) := by
  refine ⟨?_, rfl⟩
  apply List.ext_getElem?
  intro j
  by_cases hij : i = j
  · subst hij
    cases hj : v.columns[i]? <;> simp [modifyColumn, hj, hf]
  · simp [modifyColumn, List.getElem?_modify_ne _ _ hij]

/-! ## Naming a column -/

theorem nameColumn_of_ne {v : View} {i : Nat} (h : nameAt v i ≠ []) : nameColumn i v = v := by
  cases hi : v.columns[i]? with
  | none => simp [nameColumn, hi]
  | some c =>
      have hname : c.itemName ≠ [] := by simpa [nameAt, hi] using h
      simp [nameColumn, hi, hname]

theorem nameAt_nameColumn {v : View} {i : Nat} (hi : i < v.columns.length) (h : nameAt v i = [])
    (j : Nat) : nameAt (nameColumn i v) j =
      if j = i then makeItemName v.tableFormat.sequenceNumber else nameAt v j := by
  obtain ⟨c, hc⟩ : ∃ c, v.columns[i]? = some c := ⟨_, List.getElem?_eq_getElem hi⟩
  have hname : c.itemName = [] := by simpa [nameAt, hc] using h
  by_cases hj : j = i
  · subst hj
    simp [nameColumn, hc, hname, nameAt, modifyColumn]
  · simp [nameColumn, hc, hname, nameAt, modifyColumn, hj, List.getElem?_modify_ne _ _ (Ne.symm hj)]

theorem sequence_nameColumn {v : View} {i : Nat} (hi : i < v.columns.length) (h : nameAt v i = []) :
    (nameColumn i v).tableFormat.sequenceNumber = v.tableFormat.sequenceNumber + 1 := by
  obtain ⟨c, hc⟩ : ∃ c, v.columns[i]? = some c := ⟨_, List.getElem?_eq_getElem hi⟩
  have hname : c.itemName = [] := by simpa [nameAt, hc] using h
  simp [nameColumn, hc, hname]

/-- The columns without a name in front of column `k`. -/
def unnamedBelow (v : View) (k : Nat) : Nat := (List.range k).countP fun i => nameAt v i = []

theorem unnamedBelow_succ (v : View) (k : Nat) :
    unnamedBelow v (k + 1) = unnamedBelow v k + if nameAt v k = [] then 1 else 0 := by
  simp [unnamedBelow, List.range_succ]

theorem unnamedBelow_lt {v : View} {i j : Nat} (hij : i < j) (hi : nameAt v i = []) :
    unnamedBelow v i < unnamedBelow v j := by
  induction j with
  | zero => omega
  | succ j ih =>
      rw [unnamedBelow_succ]
      rcases Nat.lt_succ_iff_lt_or_eq.mp hij with hlt | rfl
      · exact Nat.lt_of_lt_of_le (ih hlt) (Nat.le_add_right _ _)
      · simp [hi]

/-- What naming the columns in front of column `k` does. -/
structure NamedUpTo (v : View) (k : Nat) (w : View) : Prop where
  nameAt_eq : ∀ i, nameAt w i = if i < k ∧ nameAt v i = [] then
    makeItemName (v.tableFormat.sequenceNumber + UInt16.ofNat (unnamedBelow v i)) else nameAt v i
  sequence_eq : w.tableFormat.sequenceNumber =
    v.tableFormat.sequenceNumber + UInt16.ofNat (unnamedBelow v k)
  length_eq : w.columns.length = v.columns.length

theorem namedUpTo_spec {v : View} {k : Nat} (hk : k ≤ v.columns.length) :
    NamedUpTo v k (namedUpTo v k) := by
  induction k with
  | zero => exact ⟨fun i => by simp [namedUpTo], by simp [namedUpTo, unnamedBelow], rfl⟩
  | succ k ih =>
      obtain ⟨hnames, hsequence, hlength⟩ := ih (by omega)
      have hlast : nameAt (namedUpTo v k) k = nameAt v k := by simp [hnames]
      by_cases hempty : nameAt v k = []
      · have hempty' : nameAt (namedUpTo v k) k = [] := hlast.trans hempty
        have hlt : k < (namedUpTo v k).columns.length := by omega
        refine ⟨fun i => ?_, ?_, ?_⟩
        · rw [namedUpTo, nameAt_nameColumn hlt hempty', hnames, hsequence]
          by_cases hi : i = k
          · simp [hi, hempty]
          · have hiff : i < k + 1 ↔ i < k := by omega
            simp [hi, hiff]
        · rw [namedUpTo, sequence_nameColumn hlt hempty', hsequence, unnamedBelow_succ,
            if_pos hempty, UInt16.ofNat_add, UInt16.add_assoc]
          rfl
        · rw [namedUpTo, length_nameColumn, hlength]
      · rw [namedUpTo, nameColumn_of_ne (by rwa [hlast])]
        refine ⟨fun i => ?_, ?_, hlength⟩
        · rw [hnames]
          by_cases hi : i = k
          · simp [hi, hempty]
          · have hiff : i < k + 1 ↔ i < k := by omega
            simp [hiff]
        · rw [hsequence, unnamedBelow_succ, if_neg hempty, Nat.add_zero]

/-! ## A save attempt -/

theorem SameNames.nameColumn {v w : View} (h : SameNames v w) (i : Nat) :
    SameNames (nameColumn i v) (nameColumn i w) := by
  by_cases hne : nameAt v i = [] ∧ i < v.columns.length
  · obtain ⟨hempty, hi⟩ := hne
    have hempty' : nameAt w i = [] := (h.nameAt_eq i).trans hempty
    have hi' : i < w.columns.length := by
      rw [h.length_eq]
      exact hi
    apply SameNames.of_nameAt
    · rw [length_nameColumn, length_nameColumn, h.length_eq]
    · intro j
      rw [nameAt_nameColumn hi hempty, nameAt_nameColumn hi' hempty', h.sequence, h.nameAt_eq]
    · rw [sequence_nameColumn hi hempty, sequence_nameColumn hi' hempty', h.sequence]
  · have hsame : ∀ {u : View}, ¬ (nameAt u i = [] ∧ i < u.columns.length) →
        View.nameColumn i u = u := by
      intro u hu
      by_cases hempty : nameAt u i = []
      · have hnone : u.columns[i]? = none :=
          List.getElem?_eq_none (Nat.le_of_not_lt fun hi => hu ⟨hempty, hi⟩)
        simp [View.nameColumn, hnone]
      · exact nameColumn_of_ne hempty
    rw [hsame hne, hsame (by rwa [h.nameAt_eq, h.length_eq])]
    exact h

variable {u : View}

theorem sameNames_withFormula {α : Type} (i : Nat) (x : Formula.M α) :
    Preserves (SameNames u) (withFormula i x) := by
  refine Preserves.part_of_put fun formula v h => h.trans (sameNames_modifyColumn i ?_ v)
  exact fun _ => rfl

theorem sameNames_measureColumn (i : Nat) (itemName title : List UInt8) :
    Preserves (SameNames u) (measureColumn env i itemName title) := by
  refine .bind (sameNames_withFormula i _) fun _ => .bind ?_ fun _ =>
    .bind (sameNames_withFormula i _) fun _ => .pure _
  refine Preserves.update fun v h => h.trans (sameNames_modifyColumn i ?_ v)
  exact fun _ => rfl

/-- A column whose formula is not empty gets its name, whatever happens then. -/
theorem sameNames_encodeColumn (i : Nat) (s : Called View) :
    SameNames (nameColumn i s.value) (exec (encodeColumn env i) s).2.value := by
  have hupdate : exec (Native.update (nameColumn i)) s = (.ok (), ⟨s.calls, nameColumn i s.value⟩) :=
    rfl
  have hrest : Preserves (SameNames (nameColumn i s.value)) (do
      let v ← Native.value
      let itemName := ((v.columns[i]?).map Column.itemName).getD []
      let title := ((v.columns[i]?).map Column.title).getD []
      withFormula i (Formula.addItemName env.native env.engine itemName)
      measureColumn env i itemName title) :=
    .bind Reads.value.preserves fun v => .bind (sameNames_withFormula i _) fun _ =>
      sameNames_measureColumn env i _ _
  rw [encodeColumn, exec_bind_of_ok hupdate]
  exact hrest _ (.refl _)

/-- The step of the first loop names its column, unless the formula is empty or its size cannot be
looked up. -/
theorem sameNames_prepareColumn (i : Nat) (s : Called View) :
    SameNames (nameColumn i s.value) (exec (prepareColumn env i) s).2.value ∨
      (∃ stop, (exec (prepareColumn env i) s).1 = .error stop) ∧
        SameNames s.value (exec (prepareColumn env i) s).2.value := by
  have hsize : Reads (withFormula i (Formula.size env.native env.engine)) :=
    reads_withFormula i Formula.reads_size
  have hvalue := hsize s
  rw [prepareColumn, exec_bind]
  rcases hresult : exec (withFormula i (Formula.size env.native env.engine)) s with
    ⟨stop | size, t⟩ <;> rw [hresult] at hvalue
  · exact .inr ⟨⟨stop, rfl⟩, by rw [hvalue]; exact .refl _⟩
  · simp only
    split
    · exact .inr ⟨⟨_, rfl⟩, by rw [exec_throw, hvalue]; exact .refl _⟩
    · left
      rw [← hvalue]
      exact sameNames_encodeColumn env i t

/-- The columns are named one after the other, up to the place where the attempt stops. -/
theorem sameNames_prepareColumns (v : View) (count : Nat) : ∀ (i : Nat) (s : Called View),
    SameNames (namedUpTo v i) s.value → ∃ k, k ≤ i + count ∧
      SameNames (namedUpTo v k) (exec (prepareColumns env i count) s).2.value := by
  induction count with
  | zero => exact fun i s h => ⟨i, Nat.le_refl i, h⟩
  | succ count ih =>
      intro i s h
      have hstep := sameNames_prepareColumn env i s
      rw [prepareColumns, exec_bind]
      rcases hresult : exec (prepareColumn env i) s with ⟨stop | size, t⟩ <;> rw [hresult] at hstep
      · rcases hstep with hnamed | ⟨_, hsame⟩
        · exact ⟨i + 1, by omega, (h.nameColumn i).trans hnamed⟩
        · exact ⟨i, by omega, h.trans hsame⟩
      · rcases hstep with hnamed | ⟨⟨stop, hstop⟩, _⟩
        · obtain ⟨k, hk, hrest⟩ := ih (i + 1) t ((h.nameColumn i).trans hnamed)
          have hkept : ∀ rest, Preserves (SameNames (namedUpTo v k)) (Pure.pure (size + rest)) :=
            fun _ => .pure _
          exact ⟨k, by omega, preserves_behind hrest hkept⟩
        · cases hstop

theorem sameNames_withNote {α : Type} (x : Note.M α) : Preserves (SameNames u) (withNote x) :=
  Preserves.part_of_put fun _ _ h => h.trans ⟨rfl, rfl⟩

/-- An attempt names the columns up to some place, and changes nothing else of the names. -/
theorem sameNames_save (s : Called View) : ∃ k, k ≤ s.value.columns.length ∧
    SameNames (namedUpTo s.value k) (exec (save env) s).2.value := by
  obtain ⟨k, hk, hprepared⟩ := sameNames_prepareColumns env s.value s.value.columns.length 0 s
    (.refl s.value)
  refine ⟨k, by omega, ?_⟩
  generalize namedUpTo s.value k = u at hprepared
  have hbuilt : SameNames u (exec (buildViewFormat env) s).2.value := by
    rw [buildViewFormat, exec_bind_of_ok (Native.exec_value _)]
    refine preserves_behind hprepared fun columnsSize => ?_
    refine .bind (Preserves.update fun _ h => h.trans ⟨rfl, rfl⟩) fun _ => ?_
    refine .bind (Reads.allocate _).preserves fun locker => .bind (Preserves.withLocal ?_) fun _ =>
      .pure _
    exact preserves_fillViewFormat env fun v selection h => h.trans ⟨rfl, rfl⟩
  have hformats : SameNames u (exec (storeFormats env) s).2.value := by
    refine preserves_behind hbuilt fun viewFormat => ?_
    refine .bind (preserves_buildCollation env _) fun collation => .bind ?_ fun _ =>
      .bind (sameNames_withNote _) fun _ => sameNames_withNote _
    refine .bind (sameNames_withNote _) fun present => ?_
    split
    · exact sameNames_withNote _
    · exact .pure _
  refine preserves_behind hformats fun _ => ?_
  refine .bind (.bind ?_ fun _ => sameNames_withNote _) fun _ => sameNames_withNote _
  exact Preserves.part_of_put fun _ _ h => h.trans ⟨rfl, rfl⟩

/-! ## Runs -/

/-- What is done with a view as far as names go. -/
inductive NameOp where
  | column (blank : { c : Column // c.itemName = [] }) (title : List UInt8)
  | setItemName (i : Nat) (itemName : List UInt8)
  | change (f : { f : View → View // ∀ v, SameNames v (f v) })
  | save

/-- A view, and which of the generated names each column has: the numbers count the generated names
from the first one on. A name that was given by hand has no number. -/
structure Naming where
  called : Called View
  number : Nat → Option Nat
  generated : Nat

/-- The column gets a name between the two views. -/
def GetsName (v w : View) (i : Nat) : Prop := nameAt v i = [] ∧ nameAt w i ≠ []

instance (v w : View) (i : Nat) : Decidable (GetsName v w i) :=
  inferInstanceAs (Decidable (_ ∧ _))

def perform : NameOp → Naming → Naming
  | .column blank title, s =>
      { s with called := ⟨s.called.calls, s.called.value.column env.codePage blank title⟩ }
  | .setItemName i itemName, s =>
      { s with
        called := ⟨s.called.calls,
          modifyColumn i (fun c => c.setItemName env.codePage itemName) s.called.value⟩
        number := fun j => if j = i then none else s.number j }
  | .change f, s => { s with called := ⟨s.called.calls, f.val s.called.value⟩ }
  | .save, s =>
      let v := s.called.value
      let t := (exec (save env) s.called).2
      { called := t
        number := fun i =>
          if GetsName v t.value i then some (s.generated + unnamedBelow v i) else s.number i
        generated := s.generated +
          (List.range v.columns.length).countP fun i => GetsName v t.value i }

def performAll (ops : List NameOp) (s : Naming) : Naming := ops.foldl (fun s op => perform env op s) s

/-- Numbers are distinct, and the name of a column with a number is the one of the sequence. -/
structure Numbered (s : Naming) : Prop where
  sequence : s.called.value.tableFormat.sequenceNumber = UInt16.ofNat (1 + s.generated)
  name : ∀ i a, s.number i = some a → a < s.generated ∧
    nameAt s.called.value i = makeItemName (UInt16.ofNat (1 + a))
  distinct : ∀ i j a, s.number i = some a → s.number j = some a → i = j

theorem nameAt_column (blank : Column) (hblank : blank.itemName = []) (title : List UInt8) (v : View)
    (i : Nat) : nameAt (v.column env.codePage blank title) i = nameAt v i := by
  unfold column
  simp only
  split
  · rfl
  · by_cases hi : i < v.columns.length
    · simp [nameAt, List.getElem?_append_left hi]
    · rw [nameAt_of_le (v := v) (Nat.le_of_not_lt hi)]
      simp only [nameAt, List.getElem?_append_right (Nat.le_of_not_lt hi)]
      cases i - v.columns.length <;> simp [hblank]

theorem sequence_column (blank : Column) (title : List UInt8) (v : View) :
    (v.column env.codePage blank title).tableFormat = v.tableFormat := by
  unfold column
  simp only
  split <;> rfl

theorem nameAt_modifyColumn_of_ne {i j : Nat} (h : j ≠ i) (f : Column → Column) (v : View) :
    nameAt (modifyColumn i f v) j = nameAt v j := by
  simp [nameAt, modifyColumn, List.getElem?_modify_ne _ _ (Ne.symm h)]

/-- The columns that a save attempt names are those without a name up to some place. -/
theorem getsName_iff {v w : View} {k : Nat} (h : NamedUpTo v k w) (i : Nat) :
    GetsName v w i ↔ i < k ∧ nameAt v i = [] := by
  unfold GetsName
  rw [h.nameAt_eq]
  by_cases hi : i < k ∧ nameAt v i = []
  · simp [hi, makeItemName_ne_nil]
  · rw [if_neg hi]
    refine iff_of_false ?_ hi
    rintro ⟨hempty, hne⟩
    exact hne hempty

theorem countP_range_lt (p : Nat → Bool) {k n : Nat} (hk : k ≤ n) :
    (List.range n).countP (fun i => i < k && p i) = (List.range k).countP p := by
  induction n with
  | zero => simp [Nat.le_zero.mp hk]
  | succ n ih =>
      rcases Nat.lt_or_eq_of_le hk with hlt | rfl
      · have hn : ¬ n < k := by omega
        rw [List.range_succ, List.countP_append, ih (by omega)]
        simp [hn]
      · apply List.countP_congr
        intro i hi
        simp [List.mem_range.mp hi]

theorem NamedUpTo.trans {v w w' : View} {k : Nat} (h : NamedUpTo v k w) (hsame : SameNames w w') :
    NamedUpTo v k w' :=
  ⟨fun i => (hsame.nameAt_eq i).trans (h.nameAt_eq i), hsame.sequence.trans h.sequence_eq,
    hsame.length_eq.trans h.length_eq⟩

theorem countP_getsName {v w : View} {k : Nat} (hk : k ≤ v.columns.length) (h : NamedUpTo v k w) :
    (List.range v.columns.length).countP (fun i => GetsName v w i) = unnamedBelow v k := by
  rw [unnamedBelow, ← countP_range_lt _ hk]
  apply List.countP_congr
  intro i _
  simp [getsName_iff h]

/-- The new numbers start where the old ones end. -/
theorem numbered_save {s : Naming} (h : Numbered s) : Numbered (perform env .save s) := by
  obtain ⟨k, hk, hsame⟩ := sameNames_save env s.called
  have hnamed := (namedUpTo_spec hk).trans hsame
  have hcount := countP_getsName hk hnamed
  generalize hv : s.called.value = v at hk hnamed hcount
  generalize ht : (exec (save env) s.called).2 = t at hnamed hcount
  have hword : ∀ n, v.tableFormat.sequenceNumber + UInt16.ofNat n =
      UInt16.ofNat (1 + (s.generated + n)) := by
    intro n
    rw [← hv, h.sequence, ← UInt16.ofNat_add, Nat.add_assoc]
  have hcases : ∀ i a, (perform env .save s).number i = some a →
      ((i < k ∧ nameAt v i = []) ∧ a = s.generated + unnamedBelow v i) ∨
        ¬ (i < k ∧ nameAt v i = []) ∧ s.number i = some a := by
    intro i a hi
    simp only [perform, hv, ht, getsName_iff hnamed] at hi
    by_cases hnew : i < k ∧ nameAt v i = []
    · rw [if_pos hnew] at hi
      exact .inl ⟨hnew, (Option.some.inj hi).symm⟩
    · rw [if_neg hnew] at hi
      exact .inr ⟨hnew, hi⟩
  have hvalue : (perform env .save s).called.value = t.value := by rw [perform, ht]
  have hgenerated : (perform env .save s).generated = s.generated + unnamedBelow v k := by
    rw [← hcount, ← hv, ← ht]
    rfl
  refine ⟨?_, fun i a hi => ?_, fun i j a hi hj => ?_⟩
  · rw [hvalue, hgenerated, hnamed.sequence_eq, hword]
  · rw [hvalue, hgenerated, hnamed.nameAt_eq]
    rcases hcases i a hi with ⟨hnew, rfl⟩ | ⟨hold, hi⟩
    · rw [if_pos hnew, hword]
      exact ⟨Nat.add_lt_add_left (unnamedBelow_lt hnew.1 hnew.2) _, rfl⟩
    · obtain ⟨hlt, hname⟩ := h.name i a hi
      rw [if_neg hold, ← hv]
      exact ⟨Nat.lt_of_lt_of_le hlt (Nat.le_add_right _ _), hname⟩
  · rcases hcases i a hi with ⟨hnew, hi⟩ | ⟨_, hi⟩ <;> rcases hcases j a hj with ⟨hnew', hj⟩ | ⟨_, hj⟩
    · rcases Nat.lt_trichotomy i j with hlt | heq | hlt
      · have := unnamedBelow_lt hlt hnew.2
        omega
      · exact heq
      · have := unnamedBelow_lt hlt hnew'.2
        omega
    · have := (h.name j a hj).1
      omega
    · have := (h.name i a hi).1
      omega
    · exact h.distinct i j a hi hj

theorem numbered_perform (op : NameOp) {s : Naming} (h : Numbered s) :
    Numbered (perform env op s) := by
  cases op with
  | column blank title =>
      refine ⟨?_, fun i a hi => ?_, h.distinct⟩
      · simp only [perform, sequence_column, h.sequence]
      · simp only [perform, nameAt_column env _ blank.property]
        exact h.name i a hi
  | setItemName i itemName =>
      have hkept : ∀ j a, (if j = i then none else s.number j) = some a → j ≠ i ∧ s.number j = some a := by
        intro j a hj
        by_cases hji : j = i
        · rw [if_pos hji] at hj
          cases hj
        · exact ⟨hji, by rwa [if_neg hji] at hj⟩
      refine ⟨h.sequence, fun j a hj => ?_, fun j j' a hj hj' => ?_⟩
      · obtain ⟨hji, hj⟩ := hkept j a hj
        simp only [perform, nameAt_modifyColumn_of_ne hji]
        exact h.name j a hj
      · exact h.distinct j j' a (hkept j a hj).2 (hkept j' a hj').2
  | change f =>
      have hsame := f.property s.called.value
      refine ⟨hsame.sequence.trans h.sequence, fun i a hi => ?_, h.distinct⟩
      simp only [perform, hsame.nameAt_eq]
      exact h.name i a hi
  | save => exact numbered_save env h

theorem numbered_performAll (ops : List NameOp) {s : Naming} (h : Numbered s) :
    Numbered (performAll env ops s) := by
  induction ops generalizing s with
  | nil => exact h
  | cons op ops ih => exact ih (numbered_perform env op h)

/-- A new view: no columns, and the sequence starts at 1. -/
structure IsNew (v : View) : Prop where
  columns : v.columns = []
  sequence : v.tableFormat.sequenceNumber = 1

def unnumbered (s : Called View) : Naming := ⟨s, fun _ => none, 0⟩

theorem numbered_unnumbered {s : Called View} (h : IsNew s.value) : Numbered (unnumbered s) :=
  ⟨h.sequence, nofun, nofun⟩

/-! ## Equal names -/

theorem makeItemName_injective {a b : UInt16} (h : makeItemName a = makeItemName b) : a = b := by
  have hsmall : ∀ n : Nat, ∀ c ∈ '$' :: Nat.toDigits 10 n, c.toNat < 2 ^ 8 := by
    intro n c hc
    rcases List.mem_cons.mp hc with rfl | hc
    · decide
    · have hdigit := Nat.isDigit_of_mem_toDigits (by decide) (by decide) hc
      have hlast : c.toNat ≤ '9'.toNat := (Char.isDigit_iff_toNat.mp hdigit).2
      exact Nat.lt_of_le_of_lt hlast (by decide)
  have htext := congrArg (List.map fun byte : UInt8 => Char.ofNat byte.toNat) h
  rw [makeItemName, makeItemName, Lmbcs.map_ofNat_asciiBytes (hsmall _),
    Lmbcs.map_ofNat_asciiBytes (hsmall _)] at htext
  have hnat := congrArg (Nat.ofDigitChars 10 · 0) (List.cons.inj htext).2
  simp only [Nat.ofDigitChars_ten_toDigits] at hnat
  exact UInt16.toNat_inj.mp hnat

/-- In every run from a new view, a generated name is the one of another column only if that was
given by hand, or if the sequence has gone around between the two. -/
theorem number_of_nameAt_eq {s₀ : Called View} (hnew : IsNew s₀.value) (ops : List NameOp)
    {i j a : Nat} (hij : i ≠ j) (hi : (performAll env ops (unnumbered s₀)).number i = some a)
    (heq : nameAt (performAll env ops (unnumbered s₀)).called.value j =
      nameAt (performAll env ops (unnumbered s₀)).called.value i) :
    (performAll env ops (unnumbered s₀)).number j = none ∨
      ∃ b, (performAll env ops (unnumbered s₀)).number j = some b ∧ a ≠ b ∧
        a % 2 ^ 16 = b % 2 ^ 16 := by
  have hnumbered := numbered_performAll env ops (numbered_unnumbered hnew)
  generalize performAll env ops (unnumbered s₀) = s at hi heq hnumbered
  cases hj : s.number j with
  | none => exact .inl rfl
  | some b =>
      have hab : a ≠ b := by
        rintro rfl
        exact hij (hnumbered.distinct i j a hi hj)
      rw [(hnumbered.name i a hi).2, (hnumbered.name j b hj).2] at heq
      have hword := congrArg UInt16.toNat (makeItemName_injective heq)
      rw [UInt16.toNat_ofNat', UInt16.toNat_ofNat'] at hword
      exact .inr ⟨b, rfl, hab, by omega⟩

/-! ## A name of the sequence given by hand -/

/-- Two columns of which the first is named by hand like the first name of the sequence. -/
def byHandOps : List NameOp :=
  [.column ⟨columnOf compiledFormula, rfl⟩ [0x41], .column ⟨columnOf compiledFormula, rfl⟩ [0x42],
    .setItemName 0 [0x24, 0x31], .save]

def byHand : Naming := performAll recordedEnv byHandOps (unnumbered ⟨0, sampleView []⟩)

theorem number_of_nameAt_eq_byHand : byHand.number 0 = none ∨
    ∃ b, byHand.number 0 = some b ∧ 0 ≠ b ∧ 0 % 2 ^ 16 = b % 2 ^ 16 :=
  number_of_nameAt_eq recordedEnv ⟨rfl, rfl⟩ byHandOps (i := 1) (j := 0) (a := 0) (by decide)
    (by decide +kernel) (by decide +kernel)

theorem not_unique_of_byHand : ¬ ∀ (env : Env) (s₀ : Called View), IsNew s₀.value →
    ∀ (ops : List NameOp) (i j a : Nat), i ≠ j →
      (performAll env ops (unnumbered s₀)).number i = some a →
        nameAt (performAll env ops (unnumbered s₀)).called.value j ≠
          nameAt (performAll env ops (unnumbered s₀)).called.value i := by
  intro h
  exact h recordedEnv ⟨0, sampleView []⟩ ⟨rfl, rfl⟩ byHandOps 1 0 0 (by decide)
    (by decide +kernel) (by decide +kernel)

end Dmn.Design.View
