import Dmn.Verification.Dql.Rendering
import Dmn.Verification.Dql.Terms

/-! # Unique reading of built expressions

The text of an expression from the builders has a parse tree with the same operators, fields
and literals as the expression, up to groups of one element. As a text has one parse tree
only, nothing in a string value can give the query another structure. -/

namespace Dmn.Dql

open BoolText

/-! ## Structure of an expression -/

/-- Expressions that the builders return. -/
inductive Built : Expression → Prop where
  | eq {field value e} : eq field value = .ok e → Built e
  | ne {field value e} : ne field value = .ok e → Built e
  | lt {field value e} : lt field value = .ok e → Built e
  | lte {field value e} : lte field value = .ok e → Built e
  | gt {field value e} : gt field value = .ok e → Built e
  | gte {field value e} : gte field value = .ok e → Built e
  | contains {field text e} : contains field text = .ok e → Built e
  | all {terms e} : (∀ t ∈ terms, Built t) → all terms = .ok e → Built e
  | any {terms e} : (∀ t ∈ terms, Built t) → any terms = .ok e → Built e

/-- The tree of operators, fields and comparison operators with the literal texts. -/
inductive Skeleton where
  | comparison (field op : List Char) (literal : Except Error (List Char))
  | contains (field : List Char) (literal : Except Error (List Char))
  | not (parts : List Skeleton)
  | and (parts : List Skeleton)
  | or (parts : List Skeleton)
  | raw (text : List Char)

/-- A group of one element is dropped. -/
def group (connective : List Skeleton → Skeleton) : List Skeleton → Skeleton
  | [part] => part
  | parts => connective parts

mutual

def skeleton : Expression → Skeleton
  | ⟨.comparison, field, op, value, _, _⟩ => .comparison field op (renderValue value)
  | ⟨.contains, field, _, value, _, _⟩ => .contains field (renderValue value)
  | ⟨.logicalAnd, _, _, _, _, children⟩ => group .and (skeletons children)
  | ⟨.logicalOr, _, _, _, _, children⟩ => group .or (skeletons children)
  | ⟨.logicalNot, _, _, _, _, children⟩ => .not (skeletons children)
  | ⟨.raw, _, _, _, raw, _⟩ => .raw raw

def skeletons : List Expression → List Skeleton
  | [] => []
  | child :: rest => skeleton child :: skeletons rest

end

theorem skeletons_eq_map (es : List Expression) : skeletons es = es.map skeleton := by
  induction es with
  | nil => rfl
  | cons e es ih => rw [skeletons, ih]; rfl

/-! ## Structure of a parse tree -/

def Term.skeleton : Term → Skeleton
  | .comparison field op literal => .comparison field.1 op.text (.ok literal.1)
  | .contains field literal => .contains field.1 (.ok literal.1)

mutual

def factorSkeleton : Factor Term → Skeleton
  | .term a => a.skeleton
  | .not f => .not [factorSkeleton f]
  | .group d => group .or (disjParts d)

def conjParts : Conj Term → List Skeleton
  | .one f => [factorSkeleton f]
  | .and f c => factorSkeleton f :: conjParts c

def disjParts : Disj Term → List Skeleton
  | .one c => [group .and (conjParts c)]
  | .or c d => group .and (conjParts c) :: disjParts d

end

def disjSkeleton (d : Disj Term) : Skeleton := group .or (disjParts d)

/-- The conjunction of a nonempty list of operands. -/
def andOf : Factor Term → List (Factor Term) → Conj Term
  | f, [] => .one f
  | f, g :: rest => .and f (andOf g rest)

/-- The disjunction of a nonempty list of operands. -/
def orOf : Factor Term → List (Factor Term) → Disj Term
  | f, [] => .one (.one f)
  | f, g :: rest => .or (.one f) (orOf g rest)

theorem text_andOf (f : Factor Term) (fs : List (Factor Term)) :
    (andOf f fs).text lexicon =
      f.text lexicon ++ (fs.map (Factor.text lexicon)).flatMap (andWord ++ ·) := by
  induction fs generalizing f with
  | nil => simp [andOf, Conj.text]
  | cons g gs ih => simp [andOf, Conj.text, ih]

theorem text_orOf (f : Factor Term) (fs : List (Factor Term)) :
    (orOf f fs).text lexicon =
      f.text lexicon ++ (fs.map (Factor.text lexicon)).flatMap (orWord ++ ·) := by
  induction fs generalizing f with
  | nil => simp [orOf, Disj.text, Conj.text]
  | cons g gs ih => simp [orOf, Disj.text, Conj.text, ih]

theorem conjParts_andOf (f : Factor Term) (fs : List (Factor Term)) :
    conjParts (andOf f fs) = (f :: fs).map factorSkeleton := by
  induction fs generalizing f with
  | nil => rfl
  | cons g gs ih => rw [andOf, conjParts, ih]; rfl

theorem disjParts_orOf (f : Factor Term) (fs : List (Factor Term)) :
    disjParts (orOf f fs) = (f :: fs).map factorSkeleton := by
  induction fs generalizing f with
  | nil => rfl
  | cons g gs ih => rw [orOf, disjParts, ih]; rfl

/-! ## Reading a built expression -/

/-- `e` is read as `d`, which has the structure of `e`. A text that stays without
parentheses in a group is a single operand. -/
structure ReadsBack (e : Expression) (text : List Char) (d : Disj Term) : Prop where
  text_eq : text = d.text lexicon
  skeleton_eq : disjSkeleton d = skeleton e
  operand : needsParens e = false → ∃ f, d = .one (.one f)

/-- A child in a group is read as the operand `f`. -/
structure OperandReadsBack (c : Expression) (t : List Char) (f : Factor Term) : Prop where
  text_eq : t = f.text lexicon
  skeleton_eq : factorSkeleton f = skeleton c

theorem ReadsBack.parenthesized {e : Expression} {text : List Char} {d : Disj Term}
    (h : ReadsBack e text d) : ∃ f, OperandReadsBack e (parenthesized e text) f := by
  unfold Dql.parenthesized
  by_cases hp : needsParens e
  · rw [if_pos hp]
    refine ⟨.group d, ?_, h.skeleton_eq⟩
    rw [h.text_eq, Factor.text]
    simp
  · rw [if_neg hp]
    obtain ⟨f, rfl⟩ := h.operand (by simpa using hp)
    exact ⟨f, h.text_eq, h.skeleton_eq⟩

theorem comparison_readsBack {field op : List Char} {value : Value} {e : Expression}
    {text : List Char} (cmp : Comparator) (hop : op = cmp.text)
    (he : comparison field op value = .ok e) (ht : render e = .ok text) :
    ∃ f, ReadsBack e text (.one (.one f)) := by
  unfold comparison validateField at he
  by_cases hfield : isValidIdentifier field
  · rw [if_pos hfield] at he
    obtain rfl := Except.ok.inj he
    rw [render, renderIdentifier, validateField, if_pos hfield] at ht
    obtain ⟨name, hname, ht⟩ := Exec.except_bind_eq_ok ht
    obtain rfl := Except.ok.inj hname
    obtain ⟨literal, hvalue, ht⟩ := Exec.except_bind_eq_ok ht
    obtain rfl := Except.ok.inj ht
    have hliteral := renderValue_isLiteral hvalue
    refine ⟨.term (.comparison ⟨field, hfield⟩ cmp ⟨literal, hliteral⟩), ?_, ?_, ?_⟩
    · simp [Disj.text, Conj.text, Factor.text, lexicon, Term.text, Term.field,
        Term.predicate, hop]
    · simp [disjSkeleton, disjParts, conjParts, group, factorSkeleton, Term.skeleton,
        skeleton, hvalue, hop]
    · exact fun _ => ⟨_, rfl⟩
  · rw [if_neg hfield] at he
    cases he

theorem contains_readsBack {field value : List Char} {e : Expression} {text : List Char}
    (he : contains field value = .ok e) (ht : render e = .ok text) :
    ∃ f, ReadsBack e text (.one (.one f)) := by
  unfold contains validateField at he
  by_cases hfield : isValidIdentifier field
  · rw [if_pos hfield] at he
    by_cases hempty : value = []
    · rw [if_pos hempty] at he
      cases he
    · rw [if_neg hempty] at he
      obtain rfl := Except.ok.inj he
      rw [render, renderIdentifier, validateField, if_pos hfield] at ht
      obtain rfl := Except.ok.inj ht
      refine ⟨.term (.contains ⟨field, hfield⟩ ⟨quote value, .quoted value⟩), ?_, ?_, ?_⟩
      · simp [Disj.text, Conj.text, Factor.text, lexicon, Term.text, Term.field,
          Term.predicate, containsWord]
      · rfl
      · exact fun _ => ⟨_, rfl⟩
  · rw [if_neg hfield] at he
    cases he

theorem ne_readsBack {field : List Char} {value : Value} {e : Expression} {text : List Char}
    (he : ne field value = .ok e) (ht : render e = .ok text) :
    ∃ f, ReadsBack e text (.one (.one f)) := by
  unfold ne at he
  obtain ⟨child, hchild, he⟩ := Exec.except_bind_eq_ok he
  obtain rfl := Except.ok.inj he
  rw [render] at ht
  obtain ⟨t, hc, ht⟩ := Exec.except_bind_eq_ok ht
  obtain rfl := Except.ok.inj ht
  obtain ⟨f, hf⟩ := comparison_readsBack .eq (by simp [Comparator.text]) hchild hc
  refine ⟨.not f, ?_, ?_, fun _ => ⟨_, rfl⟩⟩
  · rw [hf.text_eq]
    rfl
  · have hskeleton : factorSkeleton f = skeleton child := hf.skeleton_eq
    rw [skeleton, skeletons, ← hskeleton]
    rfl

theorem exists_operandReadsBack {cs : List Expression} {ts : List (List Char)}
    (h : ∀ c ∈ cs, ∀ text, render c = .ok text → ∃ d, ReadsBack c text d)
    (hts : List.Forall₂ OperandText cs ts) :
    ∃ fs : List (Factor Term), ts = fs.map (Factor.text lexicon) ∧
      fs.map factorSkeleton = cs.map skeleton := by
  induction hts with
  | nil => exact ⟨[], rfl, rfl⟩
  | cons ht _ ih =>
      obtain ⟨text, hrender, rfl⟩ := ht
      obtain ⟨d, hd⟩ := h _ List.mem_cons_self text hrender
      obtain ⟨f, hf⟩ := hd.parenthesized
      obtain ⟨fs, rfl, hfs⟩ := ih fun c hc => h c (List.mem_cons_of_mem _ hc)
      exact ⟨f :: fs, by rw [List.map_cons, hf.text_eq], by
        rw [List.map_cons, List.map_cons, hf.skeleton_eq, hfs]⟩

theorem group_readsBack {mode : Oper} {children : List Expression} {text : List Char}
    (hmode : mode = .logicalAnd ∨ mode = .logicalOr)
    (h : ∀ c ∈ children, ∀ text, render c = .ok text → ∃ d, ReadsBack c text d)
    (ht : render { mode := mode, children := children } = .ok text) :
    ∃ d, ReadsBack { mode := mode, children := children } text d := by
  obtain ⟨c, cs, hc⟩ := (exists_children ht).2 hmode
  obtain rfl : children = c :: cs := hc
  have hparens : needsParens { mode := mode, children := c :: cs } = true := by
    rcases hmode with rfl | rfl <;> rfl
  -- the operands of the group, from which either connective makes one tree
  have hparts : ∀ word, renderJoined (c :: cs) word = .ok text → ∃ f fs,
      text = Factor.text lexicon f ++ (fs.map (Factor.text lexicon)).flatMap (word ++ ·) ∧
        (f :: fs).map factorSkeleton = (c :: cs).map skeleton := by
    intro word hword
    obtain ⟨t, ts, hop, hops, rfl⟩ := renderJoined_eq_ok_iff.mp hword
    obtain ⟨fs, htexts, hskeletons⟩ := exists_operandReadsBack h (.cons hop hops)
    cases fs with
    | nil => cases htexts
    | cons f fs =>
        obtain ⟨rfl, rfl⟩ := List.cons.inj htexts
        exact ⟨f, fs, rfl, hskeletons⟩
  rcases hmode with rfl | rfl
  · obtain ⟨f, fs, rfl, hskeletons⟩ := hparts andWord ht
    refine ⟨.one (andOf f fs), (text_andOf f fs).symm, ?_, by simp [hparens]⟩
    rw [skeleton, skeletons_eq_map, ← hskeletons, ← conjParts_andOf]
    rfl
  · obtain ⟨f, fs, rfl, hskeletons⟩ := hparts orWord ht
    refine ⟨orOf f fs, (text_orOf f fs).symm, ?_, by simp [hparens]⟩
    rw [skeleton, skeletons_eq_map, ← hskeletons, ← disjParts_orOf]
    rfl

/-- The text of a built expression reads back with the structure of the expression. -/
theorem Built.readsBack {e : Expression} (h : Built e) :
    ∀ text, render e = .ok text → ∃ d, ReadsBack e text d := by
  have hcmp : ∀ (cmp : Comparator) {field op value e}, op = cmp.text →
      comparison field op value = .ok e → ∀ text, render e = .ok text →
        ∃ d, ReadsBack e text d := by
    intro cmp field op value e hop he text ht
    obtain ⟨f, hf⟩ := comparison_readsBack cmp hop he ht
    exact ⟨_, hf⟩
  induction h with
  | eq he => exact hcmp .eq (by simp [Comparator.text]) he
  | lt he => exact hcmp .lt (by simp [Comparator.text]) he
  | lte he => exact hcmp .lte (by simp [Comparator.text]) he
  | gt he => exact hcmp .gt (by simp [Comparator.text]) he
  | gte he => exact hcmp .gte (by simp [Comparator.text]) he
  | ne he =>
      intro text ht
      obtain ⟨f, hf⟩ := ne_readsBack he ht
      exact ⟨_, hf⟩
  | contains he =>
      intro text ht
      obtain ⟨f, hf⟩ := contains_readsBack he ht
      exact ⟨_, hf⟩
  | @all terms e _ he ih =>
      intro text ht
      unfold Dql.all at he
      split at he
      · cases he
      · obtain rfl := Except.ok.inj he
        exact group_readsBack (.inl rfl) ih ht
  | @any terms e _ he ih =>
      intro text ht
      unfold Dql.any at he
      split at he
      · cases he
      · obtain rfl := Except.ok.inj he
        exact group_readsBack (.inr rfl) ih ht

/-- Built expressions with one text have one structure and the same literals. -/
theorem skeleton_eq_of_render_eq {e₁ e₂ : Expression} {text : List Char} (h₁ : Built e₁)
    (h₂ : Built e₂) (ht₁ : render e₁ = .ok text) (ht₂ : render e₂ = .ok text) :
    skeleton e₁ = skeleton e₂ := by
  obtain ⟨d₁, hd₁⟩ := h₁.readsBack text ht₁
  obtain ⟨d₂, hd₂⟩ := h₂.readsBack text ht₂
  have hd : d₁ = d₂ := Disj.text_injective (hd₁.text_eq.symm.trans hd₂.text_eq)
  rw [← hd₁.skeleton_eq, ← hd₂.skeleton_eq, hd]

/-- `eq("a", text)` for a text of one line end, or of a backslash and an `n`. -/
def lineEnd (escaped : Bool) : Expression :=
  { mode := .comparison, field := ['a'], op := ['=']
    value := .string (if escaped then ['\\', 'n'] else ['\n']) }

theorem built_lineEnd (escaped : Bool) : Built (lineEnd escaped) := by
  have heq : eq ['a'] (.string (if escaped then ['\\', 'n'] else ['\n'])) =
      .ok (lineEnd escaped) := rfl
  exact .eq heq

theorem skeleton_lineEnd : skeleton (lineEnd false) = skeleton (lineEnd true) := by
  have hrender : ∀ escaped, render (lineEnd escaped) = .ok "a = '\\n'".toList := by
    intro escaped
    cases escaped <;> rfl
  exact skeleton_eq_of_render_eq (built_lineEnd false) (built_lineEnd true) (hrender false)
    (hrender true)

end Dmn.Dql
