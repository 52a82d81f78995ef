import Mathlib.Data.List.Basic

/-! # Texts of propositional connectives

Parse trees of a language with the prefix `not` and the infixes `and` and `or`, in falling
precedence. As soon as its terms can be told apart, a text has at most one parse tree. -/

namespace Dmn.BoolText

universe u

def notWord : List Char := "not ".toList

def andWord : List Char := " and ".toList

def orWord : List Char := " or ".toList

/-- A term ends before a blank, before a closing parenthesis or with the text. -/
inductive TermEnd : List Char → Prop where
  | nil : TermEnd []
  | blank (u) : TermEnd (' ' :: u)
  | close (u) : TermEnd (')' :: u)

variable {τ : Type u}

/-- What can stand at the beginning of an operand. -/
inductive Starts (text : τ → List Char) : List Char → Prop where
  | term (a u) : Starts text (text a ++ u)
  | not (u) : Starts text (notWord ++ u)
  | group (u) : Starts text ('(' :: u)

/-- The terms of a language. A term may begin with the word `not`, but then no operand
can begin behind that word. -/
structure Lexicon (τ : Type u) where
  text : τ → List Char
  cut : ∀ {a b s t}, TermEnd s → TermEnd t → text a ++ s = text b ++ t → a = b ∧ s = t
  text_ne_group : ∀ a u v, text a ++ u ≠ '(' :: v
  not_keyword : ∀ {a s u}, text a ++ s = notWord ++ u → ¬ Starts text u

/-! ## Parse trees -/

mutual

inductive Factor (τ : Type u) where
  | term (a : τ)
  | not (f : Factor τ)
  | group (d : Disj τ)

inductive Conj (τ : Type u) where
  | one (f : Factor τ)
  | and (f : Factor τ) (c : Conj τ)

inductive Disj (τ : Type u) where
  | one (c : Conj τ)
  | or (c : Conj τ) (d : Disj τ)

end

variable (lex : Lexicon τ)

mutual

def Factor.text : Factor τ → List Char
  | .term a => lex.text a
  | .not f => notWord ++ f.text
  | .group d => '(' :: (d.text ++ [')'])

def Conj.text : Conj τ → List Char
  | .one f => f.text
  | .and f c => f.text ++ (andWord ++ c.text)

def Disj.text : Disj τ → List Char
  | .one c => c.text
  | .or c d => c.text ++ (orWord ++ d.text)

end

/-! ## Unambiguity -/

/-- A disjunction ends with the text or before a closing parenthesis. -/
inductive DisjEnd : List Char → Prop where
  | nil : DisjEnd []
  | close (u) : DisjEnd (')' :: u)

/-- A conjunction can also end before an `or`. -/
inductive ConjEnd : List Char → Prop where
  | disj {s} (h : DisjEnd s) : ConjEnd s
  | or (u) : ConjEnd (orWord ++ u)

theorem DisjEnd.ne_or {s u : List Char} (h : DisjEnd s) : s ≠ orWord ++ u := by
  cases h <;> exact nofun

theorem ConjEnd.termEnd {s : List Char} (h : ConjEnd s) : TermEnd s := by
  cases h with
  | disj h =>
      cases h with
      | nil => exact .nil
      | close u => exact .close u
  | or u => exact .blank _

theorem ConjEnd.ne_and {s u : List Char} (h : ConjEnd s) : s ≠ andWord ++ u := by
  cases h with
  | disj h => cases h <;> exact nofun
  | or u => exact nofun

theorem termEnd_and (u : List Char) : TermEnd (andWord ++ u) := .blank _

variable {lex}

theorem Factor.starts (f : Factor τ) (u : List Char) : Starts lex.text (f.text lex ++ u) := by
  cases f with
  | term a => exact .term a u
  | not f => simpa only [Factor.text, List.append_assoc] using .not _
  | group d => exact .group _

private theorem group_ne_not {u v : List Char} : '(' :: u ≠ notWord ++ v := by
  exact nofun

mutual

/-- An operand can be cut off a longer text in one way only. -/
theorem Factor.cut : ∀ {f g : Factor τ} {s t : List Char}, TermEnd s → TermEnd t →
    f.text lex ++ s = g.text lex ++ t → f = g ∧ s = t
  | .term a, .term b, s, t, hs, ht, h => by
      obtain ⟨rfl, rfl⟩ := lex.cut hs ht h
      exact ⟨rfl, rfl⟩
  | .term a, .not g, s, t, _, _, h => by
      simp only [Factor.text, List.append_assoc] at h
      exact absurd (g.starts t) (lex.not_keyword h)
  | .term a, .group e, s, t, _, _, h => absurd h (lex.text_ne_group a s _)
  | .not f, .term b, s, t, _, _, h => by
      simp only [Factor.text, List.append_assoc] at h
      exact absurd (f.starts s) (lex.not_keyword h.symm)
  | .not f, .not g, s, t, hs, ht, h => by
      simp only [Factor.text, List.append_assoc, List.append_cancel_left_eq] at h
      obtain ⟨rfl, rfl⟩ := Factor.cut hs ht h
      exact ⟨rfl, rfl⟩
  | .not f, .group e, s, t, _, _, h => by
      simp only [Factor.text, List.append_assoc, List.cons_append] at h
      exact absurd h.symm group_ne_not
  | .group d, .term b, s, t, _, _, h => absurd h.symm (lex.text_ne_group b t _)
  | .group d, .not g, s, t, _, _, h => by
      simp only [Factor.text, List.append_assoc, List.cons_append] at h
      exact absurd h group_ne_not
  | .group d, .group e, s, t, _, _, h => by
      simp only [Factor.text, List.append_assoc, List.cons_append, List.nil_append,
        List.cons.injEq, true_and] at h
      obtain ⟨rfl, hst⟩ := Disj.cut (.close s) (.close t) h
      exact ⟨rfl, List.cons_injective hst⟩

theorem Conj.cut : ∀ {c e : Conj τ} {s t : List Char}, ConjEnd s → ConjEnd t →
    c.text lex ++ s = e.text lex ++ t → c = e ∧ s = t
  | .one f, .one g, s, t, hs, ht, h => by
      obtain ⟨rfl, rfl⟩ := Factor.cut hs.termEnd ht.termEnd h
      exact ⟨rfl, rfl⟩
  | .one f, .and g e, s, t, hs, _, h => by
      simp only [Conj.text, List.append_assoc] at h
      exact absurd (Factor.cut hs.termEnd (termEnd_and _) h).2 hs.ne_and
  | .and f c, .one g, s, t, _, ht, h => by
      simp only [Conj.text, List.append_assoc] at h
      exact absurd (Factor.cut (termEnd_and _) ht.termEnd h).2.symm ht.ne_and
  | .and f c, .and g e, s, t, hs, ht, h => by
      simp only [Conj.text, List.append_assoc] at h
      obtain ⟨rfl, hrest⟩ := Factor.cut (termEnd_and _) (termEnd_and _) h
      obtain ⟨rfl, rfl⟩ := Conj.cut hs ht (List.append_cancel_left hrest)
      exact ⟨rfl, rfl⟩

theorem Disj.cut : ∀ {d e : Disj τ} {s t : List Char}, DisjEnd s → DisjEnd t →
    d.text lex ++ s = e.text lex ++ t → d = e ∧ s = t
  | .one c, .one c', s, t, hs, ht, h => by
      obtain ⟨rfl, rfl⟩ := Conj.cut (.disj hs) (.disj ht) h
      exact ⟨rfl, rfl⟩
  | .one c, .or c' e, s, t, hs, _, h => by
      simp only [Disj.text, List.append_assoc] at h
      exact absurd (Conj.cut (.disj hs) (.or _) h).2 hs.ne_or
  | .or c d, .one c', s, t, _, ht, h => by
      simp only [Disj.text, List.append_assoc] at h
      exact absurd (Conj.cut (.or _) (.disj ht) h).2.symm ht.ne_or
  | .or c d, .or c' e, s, t, hs, ht, h => by
      simp only [Disj.text, List.append_assoc] at h
      obtain ⟨rfl, hrest⟩ := Conj.cut (.or _) (.or _) h
      obtain ⟨rfl, rfl⟩ := Disj.cut hs ht (List.append_cancel_left hrest)
      exact ⟨rfl, rfl⟩

end

/-- A text has at most one parse tree. -/
theorem Disj.text_injective : Function.Injective (Disj.text lex) := by
  intro d e h
  have hnil : d.text lex ++ [] = e.text lex ++ [] := by rw [h]
  exact (Disj.cut .nil .nil hnil).1

open Classical in
/-- The parse tree of a text. -/
noncomputable def Lexicon.read (lex : Lexicon τ) (s : List Char) : Option (Disj τ) :=
  if h : ∃ d : Disj τ, d.text lex = s then some h.choose else none

theorem Lexicon.read_text (d : Disj τ) : lex.read (d.text lex) = some d := by
  have h : ∃ e : Disj τ, e.text lex = d.text lex := ⟨d, rfl⟩
  rw [Lexicon.read, dif_pos h, Disj.text_injective h.choose_spec]

theorem Lexicon.read_eq_some_iff {s : List Char} {d : Disj τ} :
    lex.read s = some d ↔ d.text lex = s := by
  constructor
  · intro h
    unfold Lexicon.read at h
    split at h
    · rename_i hs
      obtain rfl := Option.some.inj h
      exact hs.choose_spec
    · cases h
  · rintro rfl
    exact Lexicon.read_text d

end Dmn.BoolText
