import Dmn.Verification.Dql.Rendering

/-! # Validation

A node is checked when it is rendered. The children of an `and`, `or` or `not` node are
rendered with it; children of the other nodes, which the builders never set, are not looked
at. -/

namespace Dmn.Dql

/-- What the checks of a node itself refuse. -/
def Malformed (e : Expression) : Prop :=
  match e.mode with
  | .comparison | .contains => ¬ isValidIdentifier e.field ∨ e.value = .cString none
  | .logicalAnd | .logicalOr => e.children = []
  | .logicalNot => e.children.length ≠ 1
  | .raw => e.raw = []

/-- The rendering ends with an exception of the checks. -/
def Refuses (e : Expression) : Prop := ∃ message, render e = .error (.invalidArgument message)

def Renders (e : Expression) : Prop := ∃ text, render e = .ok text ∧ text ≠ []

theorem Renders.not_refuses {e : Expression} (h : Renders e) : ¬ Refuses e := by
  rintro ⟨message, hrefuses⟩
  obtain ⟨text, htext, -⟩ := h
  rw [hrefuses] at htext
  cases htext

/-! ## Fields and values -/

theorem renderIdentifier_of_valid {field : List Char} (h : isValidIdentifier field) :
    renderIdentifier field = .ok field := by
  simp [renderIdentifier, validateField, h]
  rfl

theorem renderIdentifier_of_not_valid {field : List Char} (h : ¬ isValidIdentifier field) :
    renderIdentifier field =
      .error (.invalidArgument "Invalid DQL field identifier provided") := by
  simp [renderIdentifier, validateField, h]
  rfl

theorem exists_renderValue {value : Value} (h : value ≠ .cString none) :
    ∃ literal, renderValue value = .ok literal := by
  unfold renderValue
  split
  case h_2 => exact absurd rfl h
  all_goals exact ⟨_, rfl⟩

/-! ## Joined children -/

theorem parenthesized_ne_nil {child : Expression} {text : List Char} (h : text ≠ []) :
    parenthesized child text ≠ [] := by
  unfold parenthesized
  split
  · simp
  · exact h

/-- A child in front of others, whose texts are joined by `write`. -/
theorem first_cases {c : Expression} {cs : List Expression} (hc : Renders c ∨ Refuses c)
    {rest : Except Error (List Char)}
    (hrest : ((∀ d ∈ cs, Renders d) ∧ ∃ more, rest = .ok more) ∨
      ((∃ d ∈ cs, Refuses d) ∧ ∃ message, rest = .error (.invalidArgument message)))
    (write : List Char → List Char → List Char) :
    ((∀ d ∈ c :: cs, Renders d) ∧ ∃ text more, text ≠ [] ∧ (do
        let text ← render c
        let more ← rest
        pure (write text more)) = .ok (write text more)) ∨
      ((∃ d ∈ c :: cs, Refuses d) ∧ ∃ message, (do
        let text ← render c
        let more ← rest
        pure (write text more)) = .error (.invalidArgument message)) := by
  rcases hc with ⟨text, htext, hne⟩ | ⟨message, hmessage⟩
  · rcases hrest with ⟨hall, more, hmore⟩ | ⟨⟨d, hd, hrefuses⟩, message, hmessage⟩
    · refine .inl ⟨List.forall_mem_cons.mpr ⟨⟨text, htext, hne⟩, hall⟩, text, more, hne, ?_⟩
      rw [htext, hmore]
      rfl
    · refine .inr ⟨⟨d, List.mem_cons_of_mem c hd, hrefuses⟩, message, ?_⟩
      rw [htext, hmessage]
      rfl
  · refine .inr ⟨⟨c, List.mem_cons_self, message, hmessage⟩, message, ?_⟩
    rw [hmessage]
    rfl

/-- Either all children are rendered, or one of them is refused. -/
theorem renderRest_cases {cs : List Expression} (h : ∀ c ∈ cs, Renders c ∨ Refuses c)
    (word : List Char) :
    ((∀ c ∈ cs, Renders c) ∧ ∃ text, renderRest cs word = .ok text) ∨
      ((∃ c ∈ cs, Refuses c) ∧
        ∃ message, renderRest cs word = .error (.invalidArgument message)) := by
  induction cs with
  | nil => exact .inl ⟨by simp, [], by rw [renderRest]; rfl⟩
  | cons c cs ih =>
      have hrest := ih fun d hd => h d (List.mem_cons_of_mem c hd)
      rw [renderRest]
      rcases first_cases (h c List.mem_cons_self) hrest
        (fun text more => word ++ parenthesized c text ++ more) with
        ⟨hall, text, more, -, hok⟩ | hrefused
      · exact .inl ⟨hall, _, hok⟩
      · exact .inr hrefused

theorem renderJoined_cases {c : Expression} {cs : List Expression}
    (h : ∀ d ∈ c :: cs, Renders d ∨ Refuses d) (word : List Char) :
    ((∀ d ∈ c :: cs, Renders d) ∧ ∃ text, renderJoined (c :: cs) word = .ok text ∧ text ≠ []) ∨
      ((∃ d ∈ c :: cs, Refuses d) ∧
        ∃ message, renderJoined (c :: cs) word = .error (.invalidArgument message)) := by
  have hrest := renderRest_cases (fun d hd => h d (List.mem_cons_of_mem c hd)) word
  rw [renderJoined]
  rcases first_cases (h c List.mem_cons_self) hrest
    (fun text more => parenthesized c text ++ more) with ⟨hall, text, more, hne, hok⟩ | hrefused
  · exact .inl ⟨hall, _, hok, List.append_ne_nil_of_left_ne_nil (parenthesized_ne_nil hne) _⟩
  · exact .inr hrefused

/-! ## Nodes -/

/-- What becomes of a node, given that its operands are rendered or refused. -/
def Decided (e : Expression) : Prop :=
  (¬ Malformed e ∧ (∀ c ∈ e.operands, Renders c) ∧ Renders e) ∨
    ((Malformed e ∨ ∃ c ∈ e.operands, Refuses c) ∧ Refuses e)

/-- A term is refused for its field or its value, and has no operands. -/
theorem decided_term {e : Expression} {write : List Char → List Char → List Char}
    (hmode : e.mode = .comparison ∨ e.mode = .contains)
    (hrender : render e = do
      let name ← renderIdentifier e.field
      let literal ← renderValue e.value
      pure (write name literal))
    (hwrite : ∀ name literal, write name literal ≠ []) : Decided e := by
  have hoperands : e.operands = [] := by
    rcases hmode with h | h <;> simp [Expression.operands, h]
  have hmalformed : Malformed e ↔ ¬ isValidIdentifier e.field ∨ e.value = .cString none := by
    rcases hmode with h | h <;> simp [Malformed, h]
  by_cases hfield : isValidIdentifier e.field
  · by_cases hvalue : e.value = .cString none
    · refine .inr ⟨.inl (hmalformed.mpr (.inr hvalue)), "DQL string value cannot be null", ?_⟩
      rw [hrender, renderIdentifier_of_valid hfield, hvalue]
      rfl
    · obtain ⟨literal, hliteral⟩ := exists_renderValue hvalue
      refine .inl ⟨?_, by simp [hoperands], write e.field literal, ?_, hwrite _ _⟩
      · rw [hmalformed]
        simp [hfield, hvalue]
      · rw [hrender, renderIdentifier_of_valid hfield, hliteral]
        rfl
  · refine .inr ⟨.inl (hmalformed.mpr (.inl hfield)), "Invalid DQL field identifier provided", ?_⟩
    rw [hrender, renderIdentifier_of_not_valid hfield]
    rfl

theorem decided_group {e : Expression} (word : List Char)
    (hmode : e.mode = .logicalAnd ∨ e.mode = .logicalOr)
    (hrender : render e = renderJoined e.children word)
    (h : ∀ c ∈ e.operands, Renders c ∨ Refuses c) : Decided e := by
  have hoperands := Expression.operands_group hmode
  have hmalformed : Malformed e ↔ e.children = [] := by
    rcases hmode with h | h <;> simp [Malformed, h]
  rw [hoperands] at h
  unfold Decided Renders Refuses
  rw [hoperands, hmalformed, hrender]
  cases hchildren : e.children with
  | nil => exact .inr ⟨.inl rfl, _, by rw [renderJoined]; rfl⟩
  | cons c cs =>
      rw [hchildren] at h
      rcases renderJoined_cases h word with ⟨hall, htext⟩ | ⟨hexists, hmessage⟩
      · exact .inl ⟨List.cons_ne_nil c cs, hall, htext⟩
      · exact .inr ⟨.inr hexists, hmessage⟩

theorem decided_not {e : Expression} (hmode : e.mode = .logicalNot)
    (h : ∀ c ∈ e.operands, Renders c ∨ Refuses c) : Decided e := by
  obtain ⟨mode, field, op, value, raw, children⟩ := e
  obtain rfl : mode = .logicalNot := hmode
  rcases children with _ | ⟨c, _ | ⟨d, cs⟩⟩
  · exact .inr ⟨.inl (by simp [Malformed]), _, rfl⟩
  · rcases h c (List.mem_singleton.mpr rfl) with ⟨text, htext, hne⟩ | ⟨message, hmessage⟩
    · refine .inl ⟨by simp [Malformed], ?_, _, by rw [render, htext]; rfl, by simp⟩
      intro x hx
      obtain rfl : x = c := List.mem_singleton.mp hx
      exact ⟨text, htext, hne⟩
    · refine .inr ⟨.inr ⟨c, List.mem_singleton.mpr rfl, message, hmessage⟩, message, ?_⟩
      rw [render, hmessage]
      rfl
  · exact .inr ⟨.inl (by simp [Malformed]), _, rfl⟩

theorem decided_raw {e : Expression} (hmode : e.mode = .raw) : Decided e := by
  obtain ⟨mode, field, op, value, raw, children⟩ := e
  obtain rfl : mode = .raw := hmode
  by_cases hraw : raw = []
  · refine .inr ⟨.inl hraw, "DQL raw expression cannot be empty", ?_⟩
    rw [render, if_pos hraw]
    rfl
  · refine .inl ⟨hraw, by simp [Expression.operands], raw, ?_, hraw⟩
    rw [render, if_neg hraw]
    rfl

theorem decided (e : Expression) (h : ∀ c ∈ e.operands, Renders c ∨ Refuses c) : Decided e := by
  cases hmode : e.mode with
  | comparison =>
      obtain ⟨mode, field, op, value, raw, children⟩ := e
      obtain rfl : mode = .comparison := hmode
      exact decided_term (.inl rfl) (by rw [render]) (by simp)
  | contains =>
      obtain ⟨mode, field, op, value, raw, children⟩ := e
      obtain rfl : mode = .contains := hmode
      exact decided_term (.inr rfl) (by rw [render]) (by simp)
  | logicalAnd =>
      obtain ⟨mode, field, op, value, raw, children⟩ := e
      obtain rfl : mode = .logicalAnd := hmode
      exact decided_group _ (.inl rfl) (by rw [render]) h
  | logicalOr =>
      obtain ⟨mode, field, op, value, raw, children⟩ := e
      obtain rfl : mode = .logicalOr := hmode
      exact decided_group _ (.inr rfl) (by rw [render]) h
  | logicalNot => exact decided_not hmode h
  | raw => exact decided_raw hmode

/-! ## Expressions -/

/-- An expression is rendered to a text, or refused for a malformed node in its rendered part. -/
theorem render_cases (e : Expression) :
    ((∀ s, Within s e → ¬ Malformed s) ∧ Renders e) ∨
      ((∃ s, Within s e ∧ Malformed s) ∧ Refuses e) := by
  induction e using Expression.induction with
  | step e ih =>
      have hoperands : ∀ c ∈ e.operands, Renders c ∨ Refuses c := fun c hc =>
        (ih c hc).imp And.right And.right
      rcases decided e hoperands with ⟨hnode, hall, hrenders⟩ | ⟨hcause, hrefuses⟩
      · refine .inl ⟨(forall_within_iff e).mpr ⟨hnode, fun c hc => ?_⟩, hrenders⟩
        exact ((ih c hc).resolve_right fun h => (hall c hc).not_refuses h.2).1
      · refine .inr ⟨?_, hrefuses⟩
        rcases hcause with hmalformed | ⟨c, hc, hrefuse⟩
        · exact ⟨e, .self e, hmalformed⟩
        · obtain ⟨⟨s, hs, hmalformed⟩, -⟩ :=
            (ih c hc).resolve_left fun h => h.2.not_refuses hrefuse
          exact ⟨s, .operand hc hs, hmalformed⟩

/-- `render` throws an `invalid_argument` exactly when a node in the rendered part is malformed,
and otherwise returns a text that is not empty. -/
theorem render_refuses_iff (e : Expression) :
    ((∃ message, render e = .error (.invalidArgument message)) ↔
        ∃ s, Within s e ∧ Malformed s) ∧
      ((¬ ∃ s, Within s e ∧ Malformed s) → ∃ text, render e = .ok text ∧ text ≠ []) := by
  rcases render_cases e with ⟨hnone, hrenders⟩ | ⟨hexists, hrefuses⟩
  · have hnot : ¬ ∃ s, Within s e ∧ Malformed s := fun ⟨s, hs, hmalformed⟩ =>
      hnone s hs hmalformed
    exact ⟨⟨fun h => absurd h hrenders.not_refuses, fun h => absurd h hnot⟩, fun _ => hrenders⟩
  · exact ⟨⟨fun _ => hexists, fun _ => hrefuses⟩, fun hnot => absurd hexists hnot⟩

/-- The nodes of an expression, rendered or not. -/
inductive Contained : Expression → Expression → Prop where
  | self (e) : Contained e e
  | child {e c s} : c ∈ e.children → Contained s c → Contained s e

/-- A raw text with a malformed child is rendered. -/
theorem render_raw_with_child :
    (∃ s, Contained s { raw := ['x'], children := [{}] } ∧ Malformed s) ∧
      render { raw := ['x'], children := [{}] } = .ok ['x'] :=
  ⟨⟨{}, .child (List.mem_singleton.mpr rfl) (.self _), rfl⟩, rfl⟩

end Dmn.Dql
