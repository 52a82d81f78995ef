import Dmn.Library.BoolText.Meaning
import Dmn.Verification.Dql.Rendering
import Dmn.Verification.Dql.Terms

/-! # Grouping in rendered expressions

`render_joined` decides about parentheses by the mode of a child alone, and the `not` case
sets none. So a parent reaches its whole children except where a child of `not` is more
than one operand, or where raw text brings its own `or` under an `and`. -/

namespace Dmn.Dql

open BoolText

universe u

variable {τ : Type u} (lex : Lexicon τ)

/-! ## What an expression means -/

mutual

/-- Every comparison, every `contains` and every term of a raw text is a leaf, and each
parent applies its operator to whole children. -/
noncomputable def denote : Expression → Option Meaning
  | e@⟨.comparison, _, _, _, _, _⟩ => (render e).toOption.map .leaf
  | e@⟨.contains, _, _, _, _, _⟩ => (render e).toOption.map .leaf
  | ⟨.logicalAnd, _, _, _, _, children⟩ => denoteJoined .and children
  | ⟨.logicalOr, _, _, _, _, children⟩ => denoteJoined .or children
  | ⟨.logicalNot, _, _, _, _, [child]⟩ => (denote child).map .neg
  | ⟨.logicalNot, _, _, _, _, _⟩ => none
  | ⟨.raw, _, _, _, raw, _⟩ => (lex.read raw).map (Disj.meaning lex)

noncomputable def denoteJoined (op : Meaning → Meaning → Meaning) :
    List Expression → Option Meaning
  | [] => none
  | [child] => denote child
  | child :: next :: rest => do
      let x ← denote child
      let y ← denoteJoined op (next :: rest)
      pure (op x y)

end

/-- The text of `e` is that of the parse tree `d`, which means the same as `e`. -/
structure ReadsAs (e : Expression) (d : Disj τ) : Prop where
  render_eq : render e = .ok (d.text lex)
  denote_eq : denote lex e = some (d.meaning lex)

def FaithfulAt (e : Expression) : Prop := ∃ d : Disj τ, ReadsAs lex e d

/-- At each node the text applies the operator to the whole children. -/
def Faithful (e : Expression) : Prop := ∀ s, Within s e → FaithfulAt lex s

variable {lex}

theorem ReadsAs.unique {e : Expression} {d d' : Disj τ} (h : ReadsAs lex e d)
    (h' : render e = .ok (d'.text lex)) : d = d' := by
  rw [h.render_eq] at h'
  exact Disj.text_injective (Except.ok.inj h')

theorem faithfulAt_iff {e : Expression} {d : Disj τ} {x : Meaning}
    (hrender : render e = .ok (d.text lex)) (hdenote : denote lex e = some x) :
    FaithfulAt lex e ↔ d.meaning lex = x := by
  constructor
  · rintro ⟨d', hd'⟩
    obtain rfl := hd'.unique hrender
    rw [hd'.denote_eq] at hdenote
    exact Option.some.inj hdenote
  · rintro rfl
    exact ⟨d, hrender, hdenote⟩

/-! ## The trees of joined children -/

/-- The tree of a child with the parentheses that `render_joined` sets. -/
def operandTree (child : Expression) (d : Disj τ) : Disj τ :=
  if needsParens child then .ofFactor (.group d) else d

/-- A child is read as `d`, and as `o` with its parentheses. -/
structure OperandReads (lex : Lexicon τ) (child : Expression) (o : Disj τ) : Prop where
  exists_reads : ∃ d, ReadsAs lex child d ∧ o = operandTree child d

theorem OperandReads.operandText {c : Expression} {o : Disj τ} (h : OperandReads lex c o) :
    OperandText c (o.text lex) := by
  obtain ⟨d, hd, rfl⟩ := h.exists_reads
  refine ⟨_, hd.render_eq, ?_⟩
  unfold parenthesized operandTree
  split
  · simp [Factor.text]
  · rfl

theorem OperandReads.denote_eq {c : Expression} {o : Disj τ} (h : OperandReads lex c o) :
    denote lex c = some (o.meaning lex) := by
  obtain ⟨d, hd, rfl⟩ := h.exists_reads
  rw [hd.denote_eq]
  unfold operandTree
  split <;> rfl

theorem exists_operandReads {cs : List Expression} (h : ∀ c ∈ cs, FaithfulAt lex c) :
    ∃ os, List.Forall₂ (OperandReads lex) cs os := by
  induction cs with
  | nil => exact ⟨[], .nil⟩
  | cons c cs ih =>
      obtain ⟨d, hd⟩ := h c List.mem_cons_self
      obtain ⟨os, hos⟩ := ih fun c' hc' => h c' (List.mem_cons_of_mem c hc')
      exact ⟨operandTree c d :: os, .cons ⟨d, hd, rfl⟩ hos⟩

theorem renderJoined_eq_of_reads {c : Expression} {cs : List Expression} {o : Disj τ}
    {os : List (Disj τ)} (ho : OperandReads lex c o)
    (hos : List.Forall₂ (OperandReads lex) cs os) (word : List Char) :
    renderJoined (c :: cs) word =
      .ok (o.text lex ++ os.flatMap fun o => word ++ o.text lex) := by
  have htexts : List.Forall₂ OperandText cs (os.map (Disj.text lex)) :=
    List.forall₂_map_right_iff.mpr (hos.imp fun _ _ h => h.operandText)
  rw [renderJoined_eq_ok_iff]
  exact ⟨_, _, ho.operandText, htexts, by rw [List.flatMap_map]⟩

theorem denoteJoined_eq {c : Expression} {cs : List Expression} {o : Disj τ}
    {os : List (Disj τ)} (ho : OperandReads lex c o)
    (hos : List.Forall₂ (OperandReads lex) cs os)
    (op : Meaning → Meaning → Meaning) :
    denoteJoined lex op (c :: cs) =
      some (joined op (o.meaning lex) (os.map (Disj.meaning lex))) := by
  induction hos generalizing c o with
  | nil => exact ho.denote_eq
  | cons ho' _ ih =>
      rw [denoteJoined, ho.denote_eq, ih ho']
      rfl

/-! ## Where the grouping is right -/

/-- The text of `e` is a single operand. -/
inductive OneOperand (lex : Lexicon τ) : Expression → Prop where
  | term {e} (h : e.mode = .comparison ∨ e.mode = .contains ∨ e.mode = .logicalNot) :
      OneOperand lex e
  | raw {e} (h : e.mode = .raw) (f : Factor τ) (hf : f.text lex = e.raw) : OneOperand lex e
  | parens {e c} (h : e.mode = .logicalAnd ∨ e.mode = .logicalOr) (hc : e.children = [c])
      (hp : needsParens c) : OneOperand lex e
  | single {e c} (h : e.mode = .logicalAnd ∨ e.mode = .logicalOr) (hc : e.children = [c])
      (hone : OneOperand lex c) : OneOperand lex e

/-- Raw text with an `or` on its top level. -/
def RawOr (lex : Lexicon τ) (e : Expression) : Prop :=
  e.mode = .raw ∧ ∃ (c : Conj τ) (d : Disj τ), (Disj.or c d).text lex = e.raw

/-- The condition on one node. -/
def GroupedAt (lex : Lexicon τ) (e : Expression) : Prop :=
  match e.mode with
  | .comparison | .contains => ∃ a, render e = .ok (lex.text a)
  | .raw => ∃ d : Disj τ, d.text lex = e.raw
  | .logicalNot => ∀ c ∈ e.children, OneOperand lex c
  | .logicalAnd => e.children.length ≤ 1 ∨ ∀ c ∈ e.children, ¬ RawOr lex c
  | .logicalOr => True

def WellGrouped (lex : Lexicon τ) (e : Expression) : Prop :=
  ∀ s, Within s e → GroupedAt lex s

theorem faithfulAt_term_iff {e : Expression} (h : e.mode = .comparison ∨ e.mode = .contains) :
    FaithfulAt lex e ↔ ∃ a, render e = .ok (lex.text a) := by
  have hdenote : denote lex e = (render e).toOption.map .leaf := by
    obtain ⟨mode, field, op, value, raw, children⟩ := e
    rcases h with h | h <;> simp only at h <;> subst h <;> rfl
  constructor
  · rintro ⟨d, hd⟩
    rw [hd.denote_eq, hd.render_eq] at hdenote
    have hleaves := congrArg Meaning.leaves (Option.some.inj hdenote)
    obtain ⟨a, _, ha⟩ := List.map_eq_singleton_iff.mp hleaves
    exact ⟨a, by rw [hd.render_eq, ha]⟩
  · rintro ⟨a, ha⟩
    refine ⟨.ofFactor (.term a), ha, ?_⟩
    rw [hdenote, ha]
    rfl

theorem faithfulAt_raw_iff {e : Expression} (h : e.mode = .raw) {text : List Char}
    (ht : render e = .ok text) : FaithfulAt lex e ↔ ∃ d : Disj τ, d.text lex = e.raw := by
  obtain ⟨mode, field, op, value, raw, children⟩ := e
  obtain rfl : mode = .raw := h
  have hrender : render ⟨.raw, field, op, value, raw, children⟩ = .ok raw := by
    rw [render] at ht ⊢
    split at ht
    · cases ht
    · rename_i hne
      rw [if_neg hne]
      rfl
  constructor
  · rintro ⟨d, hd⟩
    have htext := hd.render_eq
    rw [hrender] at htext
    exact ⟨d, (Except.ok.inj htext).symm⟩
  · rintro ⟨d, hd⟩
    refine ⟨d, by rw [hrender, hd], ?_⟩
    rw [denote, Lexicon.read_eq_some_iff.mpr hd]
    rfl

section Nodes

variable (field op raw : List Char) (value : Value)

theorem render_not {c : Expression} {d : Disj τ} (h : ReadsAs lex c d) :
    render ⟨.logicalNot, field, op, value, raw, [c]⟩ = .ok (d.negFirst.text lex) := by
  rw [render, h.render_eq, Disj.text_negFirst]
  rfl

theorem faithfulAt_not_iff {c : Expression} {d : Disj τ} (h : ReadsAs lex c d) :
    FaithfulAt lex ⟨.logicalNot, field, op, value, raw, [c]⟩ ↔
      ∃ f, d = Disj.ofFactor f := by
  have hdenote : denote lex ⟨.logicalNot, field, op, value, raw, [c]⟩ =
      some (d.meaning lex).neg := by
    rw [denote, h.denote_eq]
    rfl
  rw [faithfulAt_iff (render_not field op raw value h) hdenote, Disj.meaning_negFirst_iff]

variable {c : Expression} {cs : List Expression} {o : Disj τ} {os : List (Disj τ)}

theorem render_and (ho : OperandReads lex c o) (hos : List.Forall₂ (OperandReads lex) cs os) :
    render ⟨.logicalAnd, field, op, value, raw, c :: cs⟩ =
      .ok ((joined Disj.andThen o os).text lex) := by
  rw [render, renderJoined_eq_of_reads ho hos, text_joined_andThen]
  rfl

theorem render_or (ho : OperandReads lex c o) (hos : List.Forall₂ (OperandReads lex) cs os) :
    render ⟨.logicalOr, field, op, value, raw, c :: cs⟩ =
      .ok ((joined Disj.orElse o os).text lex) := by
  rw [render, renderJoined_eq_of_reads ho hos, text_joined_orElse]
  rfl

theorem faithfulAt_and_iff (ho : OperandReads lex c o)
    (hos : List.Forall₂ (OperandReads lex) cs os) :
    FaithfulAt lex ⟨.logicalAnd, field, op, value, raw, c :: cs⟩ ↔
      cs = [] ∨ ∀ x ∈ o :: os, ∃ e, x = Disj.one e := by
  have hdenote : denote lex ⟨.logicalAnd, field, op, value, raw, c :: cs⟩ =
      some (joined .and (o.meaning lex) (os.map (Disj.meaning lex))) := by
    rw [denote, denoteJoined_eq ho hos]
  rw [faithfulAt_iff (render_and field op raw value ho hos) hdenote]
  cases hos with
  | nil => simp [joined]
  | cons ho' hos =>
      rw [meaning_joined_andThen_iff]
      simp

theorem faithfulAt_or (ho : OperandReads lex c o)
    (hos : List.Forall₂ (OperandReads lex) cs os) :
    FaithfulAt lex ⟨.logicalOr, field, op, value, raw, c :: cs⟩ := by
  refine ⟨_, render_or field op raw value ho hos, ?_⟩
  rw [denote, denoteJoined_eq ho hos, meaning_joined_orElse]

end Nodes

/-! ## All nodes -/

theorem Faithful.operand {e c : Expression} (h : Faithful lex e) (hc : c ∈ e.operands) :
    Faithful lex c := fun s hs => h s (.operand hc hs)

theorem oneOperand_group_iff {e c : Expression} {cs : List Expression}
    (h : e.mode = .logicalAnd ∨ e.mode = .logicalOr) (hc : e.children = c :: cs) :
    OneOperand lex e ↔ cs = [] ∧ (needsParens c ∨ OneOperand lex c) := by
  constructor
  · intro hone
    cases hone with
    | term ht => rcases h with h | h <;> simp [h] at ht
    | raw ht f hf => rcases h with h | h <;> simp [h] at ht
    | parens _ hc' hp =>
        obtain ⟨rfl, rfl⟩ := List.cons.inj (hc.symm.trans hc')
        exact ⟨rfl, .inl hp⟩
    | single _ hc' hone =>
        obtain ⟨rfl, rfl⟩ := List.cons.inj (hc.symm.trans hc')
        exact ⟨rfl, .inr hone⟩
  · rintro ⟨rfl, hp | hone⟩
    · exact .parens h hc hp
    · exact .single h hc hone

/-- The tree of a group of two or more children is never a single operand. -/
theorem ReadsAs.eq_joined {e c : Expression} {cs : List Expression} {d o : Disj τ}
    {os : List (Disj τ)} (h : e.mode = .logicalAnd ∨ e.mode = .logicalOr)
    (hc : e.children = c :: cs) (hd : ReadsAs lex e d) (ho : OperandReads lex c o)
    (hos : List.Forall₂ (OperandReads lex) cs os) :
    ∃ join : Disj τ → Disj τ → Disj τ, (∀ x y f, join x y ≠ .ofFactor f) ∧
      d = joined join o os := by
  obtain ⟨mode, field, op, value, raw, children⟩ := e
  obtain rfl : children = c :: cs := hc
  rcases h with h | h
  · obtain rfl : mode = .logicalAnd := h
    exact ⟨_, Disj.andThen_ne_ofFactor, hd.unique (render_and field op raw value ho hos)⟩
  · obtain rfl : mode = .logicalOr := h
    exact ⟨_, Disj.orElse_ne_ofFactor, hd.unique (render_or field op raw value ho hos)⟩

theorem ReadsAs.exists_term {e : Expression} {d : Disj τ}
    (h : e.mode = .comparison ∨ e.mode = .contains) (hd : ReadsAs lex e d) :
    ∃ f, d = Disj.ofFactor f := by
  obtain ⟨a, ha⟩ := (faithfulAt_term_iff h).mp ⟨d, hd⟩
  exact ⟨.term a, hd.unique ha⟩

theorem ReadsAs.exists_not {e : Expression} {d : Disj τ} (h : e.mode = .logicalNot)
    (hf : Faithful lex e) (hd : ReadsAs lex e d) : ∃ f, d = Disj.ofFactor f := by
  obtain ⟨c, hc⟩ := (exists_children hd.render_eq).1 h
  obtain ⟨x, hx⟩ := hf c (.operand (by simp [Expression.operands, h, hc]) (.self c))
  obtain ⟨mode, field, op, value, raw, children⟩ := e
  obtain rfl : mode = .logicalNot := h
  obtain rfl : children = [c] := hc
  obtain ⟨f, rfl⟩ := (faithfulAt_not_iff field op raw value hx).mp ⟨d, hd⟩
  exact ⟨.not f, hd.unique (render_not field op raw value hx)⟩

theorem ReadsAs.text_eq_raw {e : Expression} {d : Disj τ} (h : e.mode = .raw)
    (hd : ReadsAs lex e d) : d.text lex = e.raw := by
  obtain ⟨d', hd'⟩ := (faithfulAt_raw_iff h hd.render_eq).mp ⟨d, hd⟩
  obtain ⟨mode, field, op, value, raw, children⟩ := e
  obtain rfl : mode = .raw := h
  have hrender := hd.render_eq
  rw [render] at hrender
  split at hrender
  · cases hrender
  · exact (Except.ok.inj hrender).symm

/-- In a faithful expression, `OneOperand` tells whether the text is a single operand. -/
theorem oneOperand_iff {e : Expression} : Faithful lex e → ∀ {d : Disj τ}, ReadsAs lex e d →
    (OneOperand lex e ↔ ∃ f, d = Disj.ofFactor f) := by
  induction e using Expression.induction with
  | step e ih =>
      intro hf d hd
      have hgroup (h : e.mode = .logicalAnd ∨ e.mode = .logicalOr) :
          OneOperand lex e ↔ ∃ f, d = Disj.ofFactor f := by
        obtain ⟨c, cs, hc⟩ := (exists_children hd.render_eq).2 h
        have hmem : ∀ x ∈ c :: cs, x ∈ e.operands := by
          intro x hx
          rwa [Expression.operands_group h, hc]
        obtain ⟨x, hx⟩ := hf c (.operand (hmem c List.mem_cons_self) (.self c))
        have hrest : ∀ c' ∈ cs, FaithfulAt lex c' := fun c' hc' =>
          hf c' (.operand (hmem c' (List.mem_cons_of_mem c hc')) (.self c'))
        obtain ⟨os, hos⟩ := exists_operandReads hrest
        obtain ⟨join, hjoin, rfl⟩ := hd.eq_joined h hc ⟨x, hx, rfl⟩ hos
        rw [oneOperand_group_iff h hc]
        cases hos with
        | cons _ _ => simp [joined, hjoin]
        | nil =>
            have hc := hmem c List.mem_cons_self
            by_cases hp : needsParens c
            · simp [joined, operandTree, hp]
            · simp [joined, operandTree, hp, ih c hc (hf.operand hc) hx]
      cases hmode : e.mode with
      | comparison => exact iff_of_true (.term (.inl hmode)) (hd.exists_term (.inl hmode))
      | contains =>
          exact iff_of_true (.term (.inr (.inl hmode))) (hd.exists_term (.inr hmode))
      | logicalNot => exact iff_of_true (.term (.inr (.inr hmode))) (hd.exists_not hmode hf)
      | logicalAnd => exact hgroup (.inl hmode)
      | logicalOr => exact hgroup (.inr hmode)
      | raw =>
          have htext := hd.text_eq_raw hmode
          constructor
          · intro hone
            cases hone with
            | term h => simp [hmode] at h
            | raw _ f hf => exact ⟨f, Disj.text_injective (htext.trans hf.symm)⟩
            | parens h _ _ => simp [hmode] at h
            | single h _ _ => simp [hmode] at h
          · rintro ⟨f, rfl⟩
            exact .raw hmode f htext

/-- A child of an `and` brings no `or` to its top level unless it is raw text. -/
theorem single_iff_not_rawOr {c : Expression} {o : Disj τ} (hf : Faithful lex c)
    (ho : OperandReads lex c o) : (∃ x, o = Disj.one x) ↔ ¬ RawOr lex c := by
  obtain ⟨d, hd, rfl⟩ := ho.exists_reads
  by_cases hp : needsParens c
  · refine iff_of_true ⟨_, by rw [operandTree, if_pos hp]; rfl⟩ ?_
    rintro ⟨hraw, _⟩
    simp [needsParens, hraw] at hp
  · rw [operandTree, if_neg hp]
    by_cases hraw : c.mode = .raw
    · have htext := hd.text_eq_raw hraw
      constructor
      · rintro ⟨x, rfl⟩ ⟨_, y, z, hor⟩
        cases Disj.text_injective (htext.trans hor.symm)
      · intro hor
        cases d with
        | one x => exact ⟨x, rfl⟩
        | or y z => exact absurd ⟨hraw, y, z, htext⟩ hor
    · refine iff_of_true ?_ fun h => hraw h.1
      have hterm : c.mode = .comparison ∨ c.mode = .contains ∨ c.mode = .logicalNot := by
        unfold needsParens at hp
        cases hmode : c.mode <;> simp [hmode] at hp hraw ⊢
      obtain ⟨f, rfl⟩ := (oneOperand_iff hf hd).mp (.term hterm)
      exact ⟨.one f, rfl⟩

theorem forall_single_iff {cs : List Expression} {os : List (Disj τ)}
    (hos : List.Forall₂ (OperandReads lex) cs os) (hf : ∀ c ∈ cs, Faithful lex c) :
    (∀ o ∈ os, ∃ x, o = Disj.one x) ↔ ∀ c ∈ cs, ¬ RawOr lex c := by
  induction hos with
  | nil => simp
  | cons ho _ ih =>
      have hfirst := single_iff_not_rawOr (hf _ List.mem_cons_self) ho
      have hrest := ih fun c hc => hf c (List.mem_cons_of_mem _ hc)
      simp only [List.mem_cons, forall_eq_or_imp, hfirst, hrest]

/-- At a node whose operands are all read as they are meant, the condition is exact. -/
theorem faithfulAt_iff_groupedAt {e : Expression} {text : List Char}
    (ht : render e = .ok text) (hf : ∀ c ∈ e.operands, Faithful lex c) :
    FaithfulAt lex e ↔ GroupedAt lex e := by
  have hgroup (h : e.mode = .logicalAnd ∨ e.mode = .logicalOr) :
      ∃ c cs o os, e.children = c :: cs ∧ (∀ x ∈ c :: cs, Faithful lex x) ∧
        OperandReads lex c o ∧ List.Forall₂ (OperandReads lex) cs os := by
    obtain ⟨c, cs, hc⟩ := (exists_children ht).2 h
    have hall : ∀ x ∈ c :: cs, Faithful lex x := by
      intro x hx
      exact hf x (by rwa [Expression.operands_group h, hc])
    obtain ⟨_, hos⟩ := exists_operandReads fun x hx => hall x hx x (.self x)
    cases hos with
    | cons ho hos => exact ⟨c, cs, _, _, hc, hall, ho, hos⟩
  obtain ⟨mode, field, op, value, raw, children⟩ := e
  cases mode with
  | comparison => exact faithfulAt_term_iff (.inl rfl)
  | contains => exact faithfulAt_term_iff (.inr rfl)
  | raw => exact faithfulAt_raw_iff rfl ht
  | logicalNot =>
      obtain ⟨c, hc⟩ := (exists_children ht).1 rfl
      obtain rfl : children = [c] := hc
      have hfc := hf c (by simp [Expression.operands])
      obtain ⟨d, hd⟩ := hfc c (.self c)
      rw [faithfulAt_not_iff field op raw value hd, ← oneOperand_iff hfc hd]
      simp [GroupedAt]
  | logicalAnd =>
      obtain ⟨c, cs, o, os, hc, hall, ho, hos⟩ := hgroup (.inl rfl)
      obtain rfl : children = c :: cs := hc
      rw [faithfulAt_and_iff field op raw value ho hos,
        forall_single_iff (.cons ho hos) hall]
      simp [GroupedAt]
  | logicalOr =>
      obtain ⟨c, cs, o, os, hc, _, ho, hos⟩ := hgroup (.inr rfl)
      obtain rfl : children = c :: cs := hc
      exact iff_of_true (faithfulAt_or field op raw value ho hos) trivial

/-- The rendered text applies each operator to its whole children exactly when the condition
holds at every node. -/
theorem faithful_iff_wellGrouped (lex : Lexicon τ) (e : Expression) (text : List Char)
    (h : render e = .ok text) : Faithful lex e ↔ WellGrouped lex e := by
  induction e using Expression.induction generalizing text with
  | step e ih =>
      rw [Faithful, WellGrouped, forall_within_iff, forall_within_iff]
      constructor
      · rintro ⟨hat, hoperands⟩
        refine ⟨(faithfulAt_iff_groupedAt h hoperands).mp hat, fun c hc => ?_⟩
        obtain ⟨t, ht⟩ := render_operand h hc
        exact (ih c hc t ht).mp (hoperands c hc)
      · rintro ⟨hat, hoperands⟩
        have hfaithful : ∀ c ∈ e.operands, Faithful lex c := by
          intro c hc
          obtain ⟨t, ht⟩ := render_operand h hc
          exact (ih c hc t ht).mpr (hoperands c hc)
        exact ⟨(faithfulAt_iff_groupedAt h hfaithful).mpr hat, hfaithful⟩

/-! ## A negated group -/

/-- `not` over `any({eq("a", 1), eq("b", 2)})`. -/
def negatedGroup : Expression :=
  let leaf (field : Char) (n : Int32) : Expression :=
    { mode := .comparison, field := [field], op := ['='], value := .int n }
  { mode := .logicalNot
    children := [{ mode := .logicalOr, children := [leaf 'a' 1, leaf 'b' 2] }] }

theorem faithful_iff_wellGrouped_negatedGroup :
    Faithful lexicon negatedGroup ↔ WellGrouped lexicon negatedGroup :=
  faithful_iff_wellGrouped lexicon negatedGroup "not a = 1 or b = 2".toList rfl

theorem not_faithful_negatedGroup :
    render negatedGroup = .ok "not a = 1 or b = 2".toList ∧ ¬ Faithful lexicon negatedGroup := by
  have hrender : render negatedGroup = .ok "not a = 1 or b = 2".toList := rfl
  refine ⟨hrender, fun hf => ?_⟩
  have hgrouped : GroupedAt lexicon negatedGroup :=
    (faithfulAt_iff_groupedAt hrender fun c hc => hf.operand hc).mp (hf _ (.self _))
  have hone := hgrouped _ List.mem_cons_self
  rw [oneOperand_group_iff (.inr rfl) rfl] at hone
  exact absurd hone.1 (List.cons_ne_nil _ _)

end Dmn.Dql
