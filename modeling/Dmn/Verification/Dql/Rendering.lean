import Mathlib.Data.List.Forall2
import Dmn.Model.Dql

/-! # Rendered subexpressions

Which children `render` visits, and how the text of a group is put together. -/

namespace Dmn.Dql

/-! ## Operands -/

/-- The children that are rendered. -/
def Expression.operands (e : Expression) : List Expression :=
  match e.mode with
  | .logicalAnd | .logicalOr | .logicalNot => e.children
  | .comparison | .contains | .raw => []

theorem Expression.sizeOf_operand_lt {e c : Expression} (h : c ∈ e.operands) :
    sizeOf c < sizeOf e := by
  have hchild : c ∈ e.children := by
    unfold operands at h
    split at h
    all_goals first | exact h | exact absurd h List.not_mem_nil
  have hlt := List.sizeOf_lt_of_mem hchild
  obtain ⟨mode, field, op, value, raw, children⟩ := e
  simp only at hlt
  simp only [Expression.mk.sizeOf_spec]
  omega

/-- Induction over the rendered part of an expression. -/
theorem Expression.induction {P : Expression → Prop}
    (step : ∀ e, (∀ c ∈ e.operands, P c) → P e) (e : Expression) : P e := by
  apply step
  intro c hc
  exact Expression.induction step c
  termination_by sizeOf e
  decreasing_by exact Expression.sizeOf_operand_lt hc

/-- The rendered subexpressions of an expression. -/
inductive Within : Expression → Expression → Prop where
  | self (e) : Within e e
  | operand {e c s} : c ∈ e.operands → Within s c → Within s e

theorem forall_within_iff {P : Expression → Prop} (e : Expression) :
    (∀ s, Within s e → P s) ↔ P e ∧ ∀ c ∈ e.operands, ∀ s, Within s c → P s := by
  constructor
  · intro h
    exact ⟨h e (.self e), fun c hc s hs => h s (.operand hc hs)⟩
  · rintro ⟨he, hoperands⟩ s hs
    cases hs with
    | self => exact he
    | operand hc hs => exact hoperands _ hc s hs

theorem Expression.operands_group {e : Expression}
    (h : e.mode = .logicalAnd ∨ e.mode = .logicalOr) : e.operands = e.children := by
  rcases h with h | h <;> simp [operands, h]

/-- A node that renders has as many children as its mode needs. -/
theorem exists_children {e : Expression} {text : List Char} (ht : render e = .ok text) :
    (e.mode = .logicalNot → ∃ c, e.children = [c]) ∧
    (e.mode = .logicalAnd ∨ e.mode = .logicalOr → ∃ c cs, e.children = c :: cs) := by
  obtain ⟨mode, field, op, value, raw, children⟩ := e
  constructor
  · intro h
    obtain rfl : mode = .logicalNot := h
    rcases children with _ | ⟨c, _ | ⟨c', cs⟩⟩
    · cases ht
    · exact ⟨c, rfl⟩
    · cases ht
  · intro h
    cases children with
    | nil =>
        rcases h with h | h
        · obtain rfl : mode = .logicalAnd := h
          cases ht
        · obtain rfl : mode = .logicalOr := h
          cases ht
    | cons c cs => exact ⟨c, cs, rfl⟩

/-! ## Joined texts -/

/-- The text of a child together with its parentheses. -/
def OperandText (child : Expression) (t : List Char) : Prop :=
  ∃ text, render child = .ok text ∧ parenthesized child text = t

theorem renderRest_eq_ok_iff {cs : List Expression} {word text : List Char} :
    renderRest cs word = .ok text ↔
      ∃ ts, List.Forall₂ OperandText cs ts ∧ text = ts.flatMap (word ++ ·) := by
  induction cs generalizing text with
  | nil =>
      rw [renderRest]
      constructor
      · rintro ⟨⟩
        exact ⟨[], .nil, rfl⟩
      · rintro ⟨ts, ⟨⟩, rfl⟩
        rfl
  | cons c cs ih =>
      rw [renderRest]
      constructor
      · intro h
        obtain ⟨t, hc, h⟩ := Exec.except_bind_eq_ok h
        obtain ⟨more, hcs, h⟩ := Exec.except_bind_eq_ok h
        obtain ⟨ts, hts, rfl⟩ := ih.mp hcs
        obtain rfl := Except.ok.inj h
        exact ⟨_, .cons ⟨t, hc, rfl⟩ hts, by simp⟩
      · rintro ⟨_, hts, rfl⟩
        cases hts with
        | cons ht hts =>
            obtain ⟨t, hc, rfl⟩ := ht
            rw [hc, ih.mpr ⟨_, hts, rfl⟩]
            simp only [List.flatMap_cons]
            rfl

theorem renderJoined_eq_ok_iff {c : Expression} {cs : List Expression} {word text : List Char} :
    renderJoined (c :: cs) word = .ok text ↔
      ∃ t ts, OperandText c t ∧ List.Forall₂ OperandText cs ts ∧
        text = t ++ ts.flatMap (word ++ ·) := by
  rw [renderJoined]
  constructor
  · intro h
    obtain ⟨t, hc, h⟩ := Exec.except_bind_eq_ok h
    obtain ⟨more, hcs, h⟩ := Exec.except_bind_eq_ok h
    obtain ⟨ts, hts, rfl⟩ := renderRest_eq_ok_iff.mp hcs
    obtain rfl := Except.ok.inj h
    exact ⟨_, ts, ⟨t, hc, rfl⟩, hts, rfl⟩
  · rintro ⟨_, ts, ⟨t, hc, rfl⟩, hts, rfl⟩
    rw [hc, renderRest_eq_ok_iff.mpr ⟨ts, hts, rfl⟩]
    rfl

theorem exists_operandText {cs : List Expression} {ts : List (List Char)} {c : Expression}
    (h : List.Forall₂ OperandText cs ts) (hc : c ∈ cs) : ∃ t, OperandText c t := by
  induction h with
  | nil => cases hc
  | cons ht _ ih =>
      rcases List.mem_cons.mp hc with rfl | hc
      · exact ⟨_, ht⟩
      · exact ih hc

/-- An expression that renders has rendered its operands. -/
theorem render_operand {e c : Expression} {text : List Char} (ht : render e = .ok text)
    (hc : c ∈ e.operands) : ∃ t, render c = .ok t := by
  have hjoined : ∀ {cs : List Expression} {word : List Char}, c ∈ cs →
      renderJoined cs word = .ok text → ∃ t, render c = .ok t := by
    intro cs word hmem h
    cases cs with
    | nil => cases hmem
    | cons d ds =>
        obtain ⟨_, ts, hd, hts, _⟩ := renderJoined_eq_ok_iff.mp h
        obtain ⟨_, t, ht, _⟩ := exists_operandText (.cons hd hts) hmem
        exact ⟨t, ht⟩
  obtain ⟨mode, field, op, value, raw, children⟩ := e
  cases mode with
  | comparison => cases hc
  | contains => cases hc
  | raw => cases hc
  | logicalAnd => exact hjoined hc ht
  | logicalOr => exact hjoined hc ht
  | logicalNot =>
      rcases children with _ | ⟨d, _ | ⟨d', ds⟩⟩
      · cases ht
      · obtain rfl : c = d := List.mem_singleton.mp hc
        rw [render] at ht
        obtain ⟨t, hd, -⟩ := Exec.except_bind_eq_ok ht
        exact ⟨t, hd⟩
      · cases ht

end Dmn.Dql
