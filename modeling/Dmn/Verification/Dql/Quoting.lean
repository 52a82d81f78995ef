import Mathlib.Data.List.Infix
import Dmn.Model.Dql

/-! # Reading a quoted text back

A quoted text doubles its quotation marks and writes three control characters as escapes, but
a backslash as itself. A text that holds an escape already is written as the text that holds
the control character. -/

namespace Dmn.Dql

/-! ## Quotation marks -/

def double (text : List Char) : List Char :=
  text.flatMap fun c => if c = '\'' then ['\'', '\''] else [c]

/-- The text in front of the closing mark, which has to be the end. -/
def undouble : List Char → Option (List Char)
  | [] => none
  | ['\''] => some []
  | '\'' :: '\'' :: rest => (undouble rest).map ('\'' :: ·)
  | c :: rest => if c = '\'' then none else (undouble rest).map (c :: ·)

theorem undouble_double (text : List Char) : undouble (double text ++ ['\'']) = some text := by
  induction text with
  | nil => rfl
  | cons c text ih =>
      by_cases hmark : c = '\''
      · subst hmark
        simpa [double, undouble] using ih
      · have hcons : undouble (c :: (double text ++ ['\''])) =
            (undouble (double text ++ ['\''])).map (c :: ·) := by
          rw [undouble.eq_4, if_neg hmark] <;> simp [hmark]
        have hdouble : double (c :: text) ++ ['\''] = c :: (double text ++ ['\'']) := by
          simp [double, hmark]
        rw [hdouble, hcons, ih, Option.map_some]

/-! ## Escapes -/

def escapeChar (c : Char) : List Char :=
  if c = '\n' then ['\\', 'n']
  else if c = '\r' then ['\\', 'r']
  else if c = '\t' then ['\\', 't']
  else [c]

def escape (text : List Char) : List Char := text.flatMap escapeChar

/-- The control character that a character stands for behind a backslash. -/
def control (c : Char) : Option Char :=
  if c = 'n' then some '\n' else if c = 'r' then some '\r' else if c = 't' then some '\t' else none

def unescape : List Char → List Char
  | [] => []
  | [c] => [c]
  | c :: d :: rest =>
      match if c = '\\' then control d else none with
      | some e => e :: unescape rest
      | none => c :: unescape (d :: rest)

/-- No backslash stands in front of a letter of an escape. -/
def Plain (text : List Char) : Prop := ∀ c, (control c).isSome → ¬ ['\\', c] <:+: text

theorem quoteChar_eq (c : Char) : quoteChar c = double (escapeChar c) := by
  unfold quoteChar escapeChar
  by_cases hmark : c = '\''
  · subst hmark
    rfl
  · rw [if_neg hmark]
    split_ifs <;> simp [double, hmark]

/-- The marks are doubled in a text that has been escaped. -/
theorem quote_eq (value : List Char) :
    quote value = '\'' :: (double (escape value) ++ ['\'']) := by
  have hbody : value.flatMap quoteChar = double (escape value) := by
    simp only [funext quoteChar_eq, double, escape, List.flatMap_assoc]
  rw [quote, hbody]

/-! ## Escaping and reading escapes -/

theorem control_eq_some {c e : Char} (h : control c = some e) : escapeChar e = ['\\', c] := by
  unfold control at h
  split_ifs at h with hn hr ht
  · cases h
    rw [hn]
    rfl
  · cases h
    rw [hr]
    rfl
  · cases h
    rw [ht]
    rfl

theorem escapeChar_of_control {c e : Char} (h : control c = some e) : escapeChar c = [c] := by
  unfold control at h
  split_ifs at h with hn hr ht
  · rw [hn]
    rfl
  · rw [hr]
    rfl
  · rw [ht]
    rfl

/-- A character is written as itself or as the escape that stands for it. -/
theorem escapeChar_cases (c : Char) :
    escapeChar c = [c] ∨ ∃ d, control d = some c ∧ escapeChar c = ['\\', d] := by
  unfold escapeChar
  split_ifs with hn hr ht
  · exact .inr ⟨'n', by rw [hn]; rfl, rfl⟩
  · exact .inr ⟨'r', by rw [hr]; rfl, rfl⟩
  · exact .inr ⟨'t', by rw [ht]; rfl, rfl⟩
  · exact .inl rfl

theorem unescape_escape_pair {d e : Char} (h : control d = some e) (rest : List Char) :
    unescape ('\\' :: d :: rest) = e :: unescape rest := by
  simp [unescape, h]

/-- A character that does not begin an escape stands for itself. -/
theorem unescape_cons {c : Char} {rest : List Char}
    (h : c = '\\' → ∀ d ∈ rest.head?, control d = none) :
    unescape (c :: rest) = c :: unescape rest := by
  cases rest with
  | nil => rfl
  | cons d rest =>
      have hnone : (if c = '\\' then control d else none) = none := by
        split_ifs with hc
        · exact h hc d rfl
        · rfl
      simp only [unescape, hnone]

/-- What `unescape` looks for at the front of a text. -/
theorem control_of_ite {c d e : Char} (h : (if c = '\\' then control d else none) = some e) :
    c = '\\' ∧ control d = some e := by
  split_ifs at h with hc
  exact ⟨hc, h⟩

theorem control_of_ite_none {c d : Char} (h : (if c = '\\' then control d else none) = none)
    (hc : c = '\\') : control d = none := by
  rwa [if_pos hc] at h

@[simp] theorem escape_cons (c : Char) (text : List Char) :
    escape (c :: text) = escapeChar c ++ escape text := List.flatMap_cons

theorem escapeChar_backslash : escapeChar '\\' = ['\\'] := rfl

/-- The escaped text begins as the text, or with a backslash. -/
theorem control_head_escape {d : Char} (h : control d = none) (text : List Char) :
    ∀ x ∈ (escape (d :: text)).head?, control x = none := by
  intro x hx
  rcases escapeChar_cases d with hself | ⟨k, -, hpair⟩
  · rw [escape_cons, hself] at hx
    obtain rfl : d = x := by simpa using hx
    exact h
  · rw [escape_cons, hpair] at hx
    obtain rfl : '\\' = x := by simpa using hx
    rfl

/-- The escapes of an escaped text are its own and those the text held before. -/
theorem unescape_escape (text : List Char) : unescape (escape text) = unescape text := by
  fun_induction unescape text with
  | case1 => rfl
  | case2 c =>
      rcases escapeChar_cases c with hself | ⟨k, hk, hpair⟩
      · rw [escape_cons, hself]
        rfl
      · rw [escape_cons, hpair]
        exact unescape_escape_pair hk []
  | case3 c d rest e h ih =>
      obtain ⟨rfl, hd⟩ := control_of_ite h
      rw [escape_cons, escape_cons, escapeChar_backslash, escapeChar_of_control hd]
      simp only [List.singleton_append]
      rw [unescape_escape_pair hd, ih]
  | case4 c d rest h ih =>
      rw [escape_cons]
      rcases escapeChar_cases c with hself | ⟨k, hk, hpair⟩
      · rw [hself, List.singleton_append, unescape_cons, ih]
        exact fun hc => control_head_escape (control_of_ite_none h hc) rest
      · rw [hpair]
        simp only [List.cons_append, List.nil_append]
        rw [unescape_escape_pair hk, ih]

theorem escape_unescape (text : List Char) : escape (unescape text) = escape text := by
  fun_induction unescape text with
  | case1 => rfl
  | case2 c => rfl
  | case3 c d rest e h ih =>
      obtain ⟨rfl, hd⟩ := control_of_ite h
      rw [escape_cons, escape_cons, escape_cons, ih, control_eq_some hd, escapeChar_backslash,
        escapeChar_of_control hd]
      rfl
  | case4 c d rest h ih => rw [escape_cons, ih, escape_cons c]

theorem plain_nil : Plain [] := by
  intro c _ h
  simp at h

theorem plain_cons_iff {c : Char} {text : List Char} :
    Plain (c :: text) ↔ (c = '\\' → ∀ d ∈ text.head?, control d = none) ∧ Plain text := by
  have hprefix (d : Char) : ['\\', d] <+: c :: text ↔ c = '\\' ∧ d ∈ text.head? := by
    cases text <;> simp [List.cons_prefix_cons, eq_comm]
  simp only [Plain, List.infix_cons_iff, hprefix, not_or, not_and]
  constructor
  · intro h
    refine ⟨fun hc d hd => ?_, fun d hd => (h d hd).2⟩
    by_contra hcontrol
    exact (h d (Option.isSome_iff_ne_none.mpr hcontrol)).1 hc hd
  · rintro ⟨hfirst, hrest⟩ d hd
    refine ⟨fun hc hhead => ?_, hrest d hd⟩
    rw [hfirst hc d hhead] at hd
    cases hd

theorem ne_backslash_of_control {c e : Char} (h : control c = some e) : e ≠ '\\' := by
  rintro rfl
  have hpair := control_eq_some h
  simp [escapeChar_backslash] at hpair

/-- The strings that reading escapes leaves as they are. -/
theorem unescape_eq_self_iff (text : List Char) : unescape text = text ↔ Plain text := by
  fun_induction unescape text with
  | case1 => simp [plain_nil]
  | case2 c => simp [plain_cons_iff, plain_nil]
  | case3 c d rest e h ih =>
      obtain ⟨rfl, hd⟩ := control_of_ite h
      constructor
      · intro heq
        exact absurd (List.cons.inj heq).1 (ne_backslash_of_control hd)
      · intro hplain
        have hnone := (plain_cons_iff.mp hplain).1 rfl d rfl
        rw [hd] at hnone
        cases hnone
  | case4 c d rest h ih =>
      have hfirst : c = '\\' → ∀ x ∈ (d :: rest).head?, control x = none := by
        intro hc x hx
        obtain rfl : d = x := by simpa using hx
        exact control_of_ite_none h hc
      rw [plain_cons_iff, ← ih, List.cons_inj_right]
      exact ⟨fun heq => ⟨hfirst, heq⟩, fun hplain => hplain.2⟩

/-! ## Literals -/

/-- The string that a literal denotes. -/
def readLiteral : List Char → Option (List Char)
  | [] => none
  | c :: rest => if c = '\'' then (undouble rest).map unescape else none

theorem readLiteral_quote (value : List Char) :
    readLiteral (quote value) = some (unescape value) := by
  rw [quote_eq, readLiteral, if_pos rfl, undouble_double, Option.map_some, unescape_escape]

theorem quote_eq_quote_iff (a b : List Char) : quote a = quote b ↔ unescape a = unescape b := by
  constructor
  · intro h
    have hread := congrArg readLiteral h
    rw [readLiteral_quote, readLiteral_quote] at hread
    exact Option.some.inj hread
  · intro h
    rw [quote_eq, quote_eq, ← escape_unescape a, h, escape_unescape]

/-- Two strings have literals of their own that read back to them exactly when neither holds
an escape. In any case, strings with one literal are those that read alike. -/
theorem quote_reads_back_iff (a b : List Char) :
    ((a ≠ b → quote a ≠ quote b) ∧ readLiteral (quote a) = some a ∧
        readLiteral (quote b) = some b ↔ Plain a ∧ Plain b) ∧
      (quote a = quote b ↔ unescape a = unescape b) := by
  simp only [readLiteral_quote, Option.some.injEq, unescape_eq_self_iff]
  refine ⟨⟨fun h => h.2, fun hplain => ⟨?_, hplain⟩⟩, quote_eq_quote_iff a b⟩
  intro hne hquote
  rw [quote_eq_quote_iff, (unescape_eq_self_iff a).mpr hplain.1,
    (unescape_eq_self_iff b).mpr hplain.2] at hquote
  exact hne hquote

/-- A line break and a backslash in front of `n` have the same literal. -/
theorem quote_lineBreak : ['\n'] ≠ ['\\', 'n'] ∧ quote ['\n'] = quote ['\\', 'n'] ∧
    readLiteral (quote ['\\', 'n']) = some ['\n'] := by
  decide

end Dmn.Dql
