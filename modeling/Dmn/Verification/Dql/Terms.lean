import Mathlib.Data.Bool.AllAny
import Dmn.Library.BoolText.Syntax
import Dmn.Model.Dql

/-! # Terms of DQL texts

The comparisons and `contains` terms that the builders produce can be told apart, also
where a field is called `not`, `and` or `or`. -/

namespace Dmn.Dql

open BoolText

/-- Two ways to cut a text behind a prefix whose characters all have a property agree if
the next character does not have it. -/
theorem cut_of_all {p : Char → Prop} {a b s t : List Char} (ha : ∀ c ∈ a, p c)
    (hb : ∀ c ∈ b, p c) (hs : ∀ c ∈ s.head?, ¬ p c) (ht : ∀ c ∈ t.head?, ¬ p c)
    (h : a ++ s = b ++ t) : a = b ∧ s = t := by
  induction a generalizing b with
  | nil =>
      cases b with
      | nil => exact ⟨rfl, h⟩
      | cons d b =>
          have hd : d ∈ s.head? := by rw [List.nil_append] at h; simp [h]
          exact absurd (hb d List.mem_cons_self) (hs d hd)
  | cons c a ih =>
      cases b with
      | nil =>
          have hc : c ∈ t.head? := by rw [List.nil_append] at h; simp [← h]
          exact absurd (ha c List.mem_cons_self) (ht c hc)
      | cons d b =>
          simp only [List.cons_append, List.cons.injEq] at h
          obtain ⟨rfl, h⟩ := h
          obtain ⟨rfl, hst⟩ := ih (fun e he => ha e (List.mem_cons_of_mem c he))
            (fun e he => hb e (List.mem_cons_of_mem c he)) h
          exact ⟨rfl, hst⟩

/-! ## Quoted texts -/

/-- Every quotation mark of the text stands twice. -/
inductive Doubled : List Char → Prop where
  | nil : Doubled []
  | mark {b} : Doubled b → Doubled ('\'' :: '\'' :: b)
  | other {b} (c) : c ≠ '\'' → Doubled b → Doubled (c :: b)

theorem Doubled.quoteChar_append {b : List Char} (c : Char) (h : Doubled b) :
    Doubled (quoteChar c ++ b) := by
  unfold quoteChar
  split
  · exact .mark h
  · rename_i hc
    split
    · exact .other _ (by decide) (.other _ (by decide) h)
    · split
      · exact .other _ (by decide) (.other _ (by decide) h)
      · split
        · exact .other _ (by decide) (.other _ (by decide) h)
        · exact .other c hc h

theorem doubled_flatMap (value : List Char) : Doubled (value.flatMap quoteChar) := by
  induction value with
  | nil => exact .nil
  | cons c value ih => exact ih.quoteChar_append c

/-- The first single mark ends the quoted text. -/
theorem Doubled.cut {a b s t : List Char} (ha : Doubled a) (hb : Doubled b)
    (hs : s.head? ≠ some '\'') (ht : t.head? ≠ some '\'')
    (h : a ++ '\'' :: s = b ++ '\'' :: t) : a = b ∧ s = t := by
  induction ha generalizing b with
  | nil =>
      cases hb with
      | nil => exact ⟨rfl, by simpa using h⟩
      | mark hb =>
          obtain rfl : s = '\'' :: (_ ++ '\'' :: t) := by simpa using h
          simp at hs
      | other c hc hb =>
          obtain ⟨rfl, _⟩ := List.cons.inj h
          exact absurd rfl hc
  | mark ha ih =>
      cases hb with
      | nil =>
          obtain rfl : '\'' :: (_ ++ '\'' :: s) = t := by simpa using h
          simp at ht
      | mark hb =>
          obtain ⟨rfl, hst⟩ := ih hb (by simpa using h)
          exact ⟨rfl, hst⟩
      | other c hc hb =>
          obtain ⟨rfl, _⟩ := List.cons.inj h
          exact absurd rfl hc
  | other c hc ha ih =>
      cases hb with
      | nil =>
          obtain ⟨rfl, _⟩ := List.cons.inj h
          exact absurd rfl hc
      | mark hb =>
          obtain ⟨rfl, _⟩ := List.cons.inj h
          exact absurd rfl hc
      | other d hd hb =>
          obtain ⟨rfl, hrest⟩ := List.cons.inj h
          obtain ⟨rfl, hst⟩ := ih hb hrest
          exact ⟨rfl, hst⟩

theorem quote_cut {v w s t : List Char} (hs : s.head? ≠ some '\'') (ht : t.head? ≠ some '\'')
    (h : quote v ++ s = quote w ++ t) : quote v = quote w ∧ s = t := by
  simp only [quote, List.cons_append, List.append_assoc, List.nil_append, List.cons.injEq,
    true_and] at h
  obtain ⟨hvw, hst⟩ := (doubled_flatMap v).cut (doubled_flatMap w) hs ht h
  exact ⟨by rw [quote, quote, hvw], hst⟩

/-! ## Literals -/

/-- The characters of numbers and of `true`, `false`, `inf` and `nan`. -/
def plainChar (c : Char) : Bool := c.isAlphanum || c = '-' || c = '.'

inductive IsLiteral : List Char → Prop where
  | plain {t} (h : ∀ c ∈ t, plainChar c) : IsLiteral t
  | quoted (v) : IsLiteral (quote v)
  | dateTime (v) : IsLiteral ("@dt(".toList ++ quote v ++ ")".toList)

theorem plainChar_of_mem_toDigits {n : ℕ} {c : Char} (h : c ∈ Nat.toDigits 10 n) :
    plainChar c := by
  have hdigit := Nat.isDigit_of_mem_toDigits (by decide) (by decide) h
  simp [plainChar, Char.isAlphanum, hdigit]

theorem plainChar_of_mem_decimal {n : ℤ} {c : Char} (h : c ∈ decimal n) : plainChar c := by
  unfold decimal at h
  split at h
  · rcases List.mem_cons.mp h with rfl | h
    · decide
    · exact plainChar_of_mem_toDigits h
  · exact plainChar_of_mem_toDigits h

theorem plainChar_of_mem_sign {negative : Bool} {c : Char}
    (h : c ∈ if negative then ['-'] else []) : plainChar c := by
  cases negative with
  | false => simp at h
  | true =>
      obtain rfl : c = '-' := by simpa using h
      decide

theorem plainChar_of_mem_fixed {d : Double} {c : Char} (h : c ∈ fixed d) : plainChar c := by
  have hword : ∀ word : List Char, (∀ c ∈ word, plainChar c) → ∀ negative : Bool,
      c ∈ (if negative then ['-'] else []) ++ word → plainChar c := by
    intro word hall negative hc
    rcases List.mem_append.mp hc with hc | hc
    · exact plainChar_of_mem_sign hc
    · exact hall c hc
  cases d with
  | finite negative mantissa exponent =>
      apply hword _ _ negative h
      intro c hc
      rcases List.mem_append.mp hc with hc | hc
      · exact plainChar_of_mem_toDigits hc
      · rcases List.mem_cons.mp hc with rfl | hc
        · decide
        · rcases List.mem_append.mp hc with hc | hc
          · rw [List.eq_of_mem_replicate hc]
            decide
          · exact plainChar_of_mem_toDigits hc
  | infinity negative => exact hword _ (List.all_eq_true.mp (by decide)) negative h
  | nan negative => exact hword _ (List.all_eq_true.mp (by decide)) negative h

theorem plainChar_of_mem_renderDouble {d : Double} {c : Char} (h : c ∈ renderDouble d) :
    plainChar c := by
  have hout : c ∈ (fixed d).rdropWhile (· = '0') := by
    unfold renderDouble at h
    simp only at h
    split at h
    · exact List.dropLast_subset _ h
    · exact h
  exact plainChar_of_mem_fixed ((List.rdropWhile_prefix _ _).subset hout)

theorem renderValue_isLiteral {value : Value} {text : List Char}
    (h : renderValue value = .ok text) : IsLiteral text := by
  cases value with
  | string s =>
      obtain rfl := Except.ok.inj h
      exact .quoted s
  | cString s =>
      cases s with
      | none => cases h
      | some s =>
          obtain rfl := Except.ok.inj h
          exact .quoted s
  | int n =>
      obtain rfl := Except.ok.inj h
      exact .plain fun _ => plainChar_of_mem_decimal
  | long n =>
      obtain rfl := Except.ok.inj h
      exact .plain fun _ => plainChar_of_mem_decimal
  | longLong n =>
      obtain rfl := Except.ok.inj h
      exact .plain fun _ => plainChar_of_mem_decimal
  | double d =>
      obtain rfl := Except.ok.inj h
      exact .plain fun _ => plainChar_of_mem_renderDouble
  | bool b =>
      obtain rfl := Except.ok.inj h
      exact .plain (List.all_eq_true.mp (by cases b <;> decide))
  | dateTime d =>
      obtain rfl := Except.ok.inj h
      exact .dateTime d.value

theorem plainChar_head {s : List Char} (h : TermEnd s) : ∀ c ∈ s.head?, ¬ plainChar c := by
  cases h with
  | nil => simp
  | blank u =>
      rintro c ⟨⟩
      decide
  | close u =>
      rintro c ⟨⟩
      decide

theorem head_ne_mark {s : List Char} (h : TermEnd s) : s.head? ≠ some '\'' := by
  cases h <;> simp

/-- What follows a literal that starts with a special character is not a plain literal. -/
theorem plain_append_ne {t s u : List Char} {c : Char} (ht : ∀ c ∈ t, plainChar c)
    (hs : TermEnd s) (hc : c = '\'' ∨ c = '@') : t ++ s ≠ c :: u := by
  intro h
  cases t with
  | nil =>
      rw [List.nil_append] at h
      rcases hc with rfl | rfl <;> subst h <;> cases hs
  | cons d t =>
      obtain ⟨rfl, _⟩ := List.cons.inj h
      have hd := ht d List.mem_cons_self
      rcases hc with rfl | rfl <;> exact absurd hd (by decide)

theorem IsLiteral.cut {a b s t : List Char} (ha : IsLiteral a) (hb : IsLiteral b)
    (hs : TermEnd s) (ht : TermEnd t) (h : a ++ s = b ++ t) : a = b ∧ s = t := by
  cases ha with
  | plain ha =>
      cases hb with
      | plain hb => exact cut_of_all ha hb (plainChar_head hs) (plainChar_head ht) h
      | quoted w => exact absurd h (plain_append_ne ha hs (.inl rfl))
      | dateTime w => exact absurd h (plain_append_ne ha hs (.inr rfl))
  | quoted v =>
      cases hb with
      | plain hb => exact absurd h.symm (plain_append_ne hb ht (.inl rfl))
      | quoted w => exact quote_cut (head_ne_mark hs) (head_ne_mark ht) h
      | dateTime w => simp [quote] at h
  | dateTime v =>
      cases hb with
      | plain hb => exact absurd h.symm (plain_append_ne hb ht (.inr rfl))
      | quoted w => simp [quote] at h
      | dateTime w =>
          simp only [List.append_assoc, List.append_cancel_left_eq] at h
          obtain ⟨hvw, hst⟩ := quote_cut (by simp) (by simp) h
          exact ⟨by rw [hvw], List.append_cancel_left hst⟩

/-! ## Terms -/

/-- A field identifier that `validate_field` lets through. -/
abbrev Identifier := {field : List Char // isValidIdentifier field = true}

theorem Identifier.all_ne_blank (field : Identifier) : ∀ c ∈ field.1, c ≠ ' ' := by
  obtain ⟨field, h⟩ := field
  cases field with
  | nil => simp
  | cons d field =>
      simp only [isValidIdentifier, Bool.and_eq_true, List.all_eq_true] at h
      rintro c hc rfl
      rcases List.mem_cons.mp hc with rfl | hc
      · exact absurd h.1 (by decide)
      · exact absurd (h.2 ' ' hc) (by decide)

theorem Identifier.append_ne {field : Identifier} {c : Char} {s u : List Char}
    (hc : ¬ (c.isAlpha || c = '_')) : field.1 ++ s ≠ c :: u := by
  obtain ⟨field, h⟩ := field
  cases field with
  | nil => simp [isValidIdentifier] at h
  | cons d field =>
      rintro hcons
      obtain ⟨rfl, _⟩ := List.cons.inj hcons
      simp only [isValidIdentifier, Bool.and_eq_true] at h
      exact hc h.1

theorem Identifier.cut {f g : Identifier} {s t : List Char}
    (h : f.1 ++ ' ' :: s = g.1 ++ ' ' :: t) : f = g ∧ s = t := by
  obtain ⟨hfg, hst⟩ := cut_of_all f.all_ne_blank g.all_ne_blank (by simp) (by simp) h
  exact ⟨Subtype.ext hfg, List.cons_injective hst⟩

/-- The comparison operators of the builders. -/
inductive Comparator where
  | eq
  | lt
  | lte
  | gt
  | gte
  deriving DecidableEq, Repr

def Comparator.text : Comparator → List Char
  | .eq => ['=']
  | .lt => ['<']
  | .lte => ['<', '=']
  | .gt => ['>']
  | .gte => ['>', '=']

theorem Comparator.cut {a b : Comparator} {s t : List Char}
    (h : a.text ++ ' ' :: s = b.text ++ ' ' :: t) : a = b ∧ s = t := by
  have hblank : ∀ op : Comparator, ∀ c ∈ op.text, c ≠ ' ' := by
    intro op
    exact List.all_iff_forall_prop.mp (by cases op <;> decide)
  obtain ⟨hab, hst⟩ := cut_of_all (hblank a) (hblank b) (by simp) (by simp) h
  refine ⟨?_, List.cons_injective hst⟩
  cases a <;> cases b <;> first | rfl | simp [text] at hab

theorem Comparator.text_append_ne (op : Comparator) {c : Char} {s u : List Char}
    (hc : c ∉ ['=', '<', '>']) : op.text ++ s ≠ c :: u := by
  intro h
  cases op <;> obtain ⟨rfl, _⟩ := List.cons.inj h <;> simp at hc

abbrev Literal := {text : List Char // IsLiteral text}

inductive Term where
  | comparison (field : Identifier) (op : Comparator) (literal : Literal)
  | contains (field : Identifier) (literal : Literal)

def containsWord : List Char := ['c', 'o', 'n', 't', 'a', 'i', 'n', 's']

/-- What follows the field and a blank. -/
def Term.predicate : Term → List Char
  | .comparison _ op literal => op.text ++ ' ' :: literal.1
  | .contains _ literal => containsWord ++ ' ' :: '(' :: (literal.1 ++ [')'])

def Term.field : Term → Identifier
  | .comparison field _ _ => field
  | .contains field _ => field

def Term.text (a : Term) : List Char := a.field.1 ++ ' ' :: a.predicate

theorem Term.predicate_cut {a b : Term} {s t : List Char} (hs : TermEnd s) (ht : TermEnd t)
    (hfield : a.field = b.field) (h : a.predicate ++ s = b.predicate ++ t) : a = b ∧ s = t := by
  cases a with
  | comparison f op l =>
      cases b with
      | comparison g op' l' =>
          obtain rfl : f = g := hfield
          simp only [predicate, List.append_assoc, List.cons_append] at h
          obtain ⟨rfl, hrest⟩ := Comparator.cut h
          obtain ⟨hl, rfl⟩ := l.2.cut l'.2 hs ht hrest
          obtain rfl := Subtype.ext hl
          exact ⟨rfl, rfl⟩
      | contains g l' =>
          simp only [predicate, List.append_assoc] at h
          exact absurd h (op.text_append_ne (by decide))
  | contains f l =>
      cases b with
      | comparison g op' l' =>
          simp only [predicate, List.append_assoc] at h
          exact absurd h.symm (op'.text_append_ne (by decide))
      | contains g l' =>
          obtain rfl : f = g := hfield
          simp only [predicate, List.append_assoc, List.cons_append, List.append_cancel_left_eq,
            List.cons.injEq, true_and] at h
          obtain ⟨hl, hst⟩ := l.2.cut l'.2 (.close s) (.close t) h
          obtain rfl := Subtype.ext hl
          exact ⟨rfl, List.cons_injective hst⟩

theorem Term.text_cut {a b : Term} {s t : List Char} (hs : TermEnd s) (ht : TermEnd t)
    (h : a.text ++ s = b.text ++ t) : a = b ∧ s = t := by
  simp only [text, List.append_assoc, List.cons_append] at h
  obtain ⟨hfield, hrest⟩ := Identifier.cut h
  exact predicate_cut hs ht hfield hrest

/-- Behind the field `not` stands an operator, which cannot begin an operand. -/
theorem Term.predicate_not_starts (a : Term) (s : List Char) :
    ¬ Starts Term.text (a.predicate ++ s) := by
  intro h
  generalize hu : a.predicate ++ s = u at h
  cases h with
  | term b w =>
      simp only [Term.text, List.append_assoc, List.cons_append] at hu
      cases a with
      | comparison f op l =>
          simp only [predicate, List.append_assoc] at hu
          cases op <;> exact Identifier.append_ne (by decide) hu.symm
      | contains f l =>
          simp only [predicate, List.append_assoc, List.cons_append] at hu
          obtain ⟨_, hrest⟩ := Identifier.cut (f := ⟨containsWord, by decide⟩) hu
          cases b with
          | comparison g op l' =>
              simp only [List.append_assoc] at hrest
              exact op.text_append_ne (by decide) hrest.symm
          | contains g l' => simp [containsWord] at hrest
  | not w =>
      cases a with
      | comparison f op l => cases op <;> simp [predicate, Comparator.text, notWord] at hu
      | contains f l => simp [predicate, containsWord, notWord] at hu
  | group w =>
      cases a with
      | comparison f op l =>
          simp only [predicate, List.append_assoc] at hu
          exact op.text_append_ne (by decide) hu
      | contains f l => simp [predicate, containsWord] at hu

theorem Term.not_keyword {a : Term} {s u : List Char} (h : a.text ++ s = notWord ++ u) :
    ¬ Starts Term.text u := by
  simp only [text, List.append_assoc, List.cons_append] at h
  have hword : notWord ++ u = ['n', 'o', 't'] ++ ' ' :: u := by simp [notWord]
  obtain ⟨_, rfl⟩ := Identifier.cut (g := ⟨['n', 'o', 't'], by decide⟩) (h.trans hword)
  exact a.predicate_not_starts s

/-- The language of the builders' terms. -/
def lexicon : Lexicon Term where
  text := Term.text
  cut := Term.text_cut
  text_ne_group a u v := by
    simp only [Term.text, List.append_assoc]
    exact Identifier.append_ne (by decide)
  not_keyword := Term.not_keyword

end Dmn.Dql
