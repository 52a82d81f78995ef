import Dmn.Library.CharCode
import Mathlib.Data.List.Flatten

/-! # Escaping by doubling

A mark that starts a directive stands for itself where it is written twice. A format without
arguments has no other directive. -/

namespace Dmn.Escaping

open CharCode

variable {α β : Type*} [DecidableEq α] [DecidableEq β]

/-- A text with each mark written twice. -/
def doubled (mark : α) (text : List α) : List α :=
  text.flatMap fun symbol => if symbol = mark then [mark, mark] else [symbol]

/-- The text of a format without arguments, if it has one. -/
def expand (mark : α) : List α → Option (List α)
  | [] => some []
  | [symbol] => if symbol = mark then none else some [symbol]
  | symbol :: next :: rest =>
      if symbol = mark then
        if next = mark then (expand mark rest).map (mark :: ·) else none
      else (expand mark (next :: rest)).map (symbol :: ·)

variable {mark : α}

/-! ## Doubled marks -/

theorem doubled_cons_self (mark : α) (text : List α) :
    doubled mark (mark :: text) = mark :: mark :: doubled mark text := by
  simp [doubled]

theorem doubled_cons_of_ne {symbol : α} (h : symbol ≠ mark) (text : List α) :
    doubled mark (symbol :: text) = symbol :: doubled mark text := by
  simp [doubled, h]

theorem doubled_append (mark : α) (text more : List α) :
    doubled mark (text ++ more) = doubled mark text ++ doubled mark more :=
  List.flatMap_append

theorem mem_doubled {symbol : α} {text : List α} :
    symbol ∈ doubled mark text ↔ symbol ∈ text := by
  induction text with
  | nil => rfl
  | cons first text ih =>
      by_cases h : first = mark
      · subst h
        simp [doubled_cons_self, ih]
      · simp [doubled_cons_of_ne h, ih]

theorem doubled_of_notMem {text : List α} (h : mark ∉ text) : doubled mark text = text := by
  induction text with
  | nil => rfl
  | cons symbol text ih =>
      obtain ⟨hne, htext⟩ := not_or.mp (mt List.mem_cons.mpr h)
      rw [doubled_cons_of_ne (Ne.symm hne), ih htext]

theorem length_doubled (mark : α) (text : List α) :
    (doubled mark text).length = text.length + text.count mark := by
  induction text with
  | nil => rfl
  | cons symbol text ih =>
      by_cases h : symbol = mark
      · subst h
        rw [doubled_cons_self, List.length_cons, List.length_cons, ih, List.length_cons,
          List.count_cons_self]
        omega
      · rw [doubled_cons_of_ne h, List.length_cons, ih, List.length_cons, List.count_cons_of_ne h]
        omega

theorem count_doubled (mark : α) (text : List α) :
    (doubled mark text).count mark = 2 * text.count mark := by
  induction text with
  | nil => rfl
  | cons symbol text ih =>
      by_cases h : symbol = mark
      · subst h
        rw [doubled_cons_self, List.count_cons_self, List.count_cons_self, ih,
          List.count_cons_self]
        omega
      · rw [doubled_cons_of_ne h, List.count_cons_of_ne h, ih, List.count_cons_of_ne h]

/-! ## Formats -/

theorem expand_cons_of_ne {symbol : α} (h : symbol ≠ mark) (format : List α) :
    expand mark (symbol :: format) = (expand mark format).map (symbol :: ·) := by
  cases format with
  | nil => simp [expand, h]
  | cons next rest => rw [expand, if_neg h]

theorem expand_doubled (mark : α) (text : List α) :
    expand mark (doubled mark text) = some text := by
  induction text with
  | nil => rfl
  | cons symbol text ih =>
      by_cases h : symbol = mark
      · subst h
        rw [doubled_cons_self, expand, if_pos rfl, if_pos rfl, ih, Option.map_some]
      · rw [doubled_cons_of_ne h, expand_cons_of_ne h, ih, Option.map_some]

theorem eq_doubled_of_expand {format text : List α} (h : expand mark format = some text) :
    format = doubled mark text := by
  fun_induction expand mark format generalizing text with
  | case1 =>
      rw [← Option.some.inj h]
      rfl
  | case2 => cases h
  | case3 symbol hsymbol =>
      rw [← Option.some.inj h, doubled_cons_of_ne hsymbol]
      rfl
  | case4 rest ih =>
      obtain ⟨tail, htail, rfl⟩ := Option.map_eq_some_iff.mp h
      rw [doubled_cons_self, ih htail]
  | case5 => cases h
  | case6 symbol next rest hsymbol ih =>
      obtain ⟨tail, htail, rfl⟩ := Option.map_eq_some_iff.mp h
      rw [doubled_cons_of_ne hsymbol, ih htail]

/-- The only format of a text is the one with its marks doubled. -/
theorem expand_eq_some_iff {format text : List α} :
    expand mark format = some text ↔ format = doubled mark text := by
  constructor
  · exact eq_doubled_of_expand
  · rintro rfl
    exact expand_doubled mark text

/-! ## Marks in the words of other characters

The mark of a text is a character whose word is a single sign. Where the text is escaped before it
is encoded, a sign that is part of another word stays as it is. -/

/-- The sign is part of no word but that of the mark. -/
def Clear (code : CharCode α β) (mark : α) (sign : β) (text : List α) : Prop :=
  ∀ c ∈ text, c ≠ mark → sign ∉ code.encode c

instance (code : CharCode α β) (mark : α) (sign : β) (text : List α) :
    Decidable (Clear code mark sign text) := by
  unfold Clear
  infer_instance

variable {code : CharCode α β} {sign : β} {text : List α} (hmark : code.encode mark = [sign])
include hmark

theorem encodeAll_doubled (hclear : Clear code mark sign text) :
    code.encodeAll (doubled mark text) = doubled sign (code.encodeAll text) := by
  induction text with
  | nil => rfl
  | cons c text ih =>
      have hrest := ih fun d hd => hclear d (List.mem_cons_of_mem c hd)
      by_cases hc : c = mark
      · subst hc
        rw [doubled_cons_self, encodeAll_cons, encodeAll_cons, encodeAll_cons, hmark, hrest]
        exact (doubled_cons_self sign _).symm
      · rw [doubled_cons_of_ne hc, encodeAll_cons, encodeAll_cons, hrest, doubled_append,
          doubled_of_notMem (hclear c List.mem_cons_self hc)]

omit [DecidableEq β] in
theorem length_encodeAll_doubled (text : List α) :
    (code.encodeAll (doubled mark text)).length =
      (code.encodeAll text).length + text.count mark := by
  induction text with
  | nil => rfl
  | cons c text ih =>
      by_cases hc : c = mark
      · subst hc
        rw [doubled_cons_self, List.count_cons_self]
        simp only [encodeAll_cons, hmark, List.length_append, List.length_singleton, ih]
        omega
      · rw [doubled_cons_of_ne hc, List.count_cons_of_ne hc]
        simp only [encodeAll_cons, List.length_append, ih]
        omega

theorem count_encodeAll_doubled (text : List α) :
    (code.encodeAll (doubled mark text)).count sign =
      (code.encodeAll text).count sign + text.count mark := by
  induction text with
  | nil => rfl
  | cons c text ih =>
      by_cases hc : c = mark
      · subst hc
        rw [doubled_cons_self, List.count_cons_self]
        simp only [encodeAll_cons, hmark, List.count_append, List.count_singleton_self, ih]
        omega
      · rw [doubled_cons_of_ne hc, List.count_cons_of_ne hc]
        simp only [encodeAll_cons, List.count_append, ih]
        omega

theorem count_le_count_encodeAll (text : List α) :
    text.count mark ≤ (code.encodeAll text).count sign := by
  induction text with
  | nil => exact Nat.zero_le _
  | cons c text ih =>
      rw [encodeAll_cons, List.count_append]
      by_cases hc : c = mark
      · subst hc
        rw [hmark, List.count_cons_self, List.count_singleton_self]
        omega
      · rw [List.count_cons_of_ne hc]
        omega

/-- Signs and marks that are equal in number leave none for other words. -/
theorem clear_of_count_le (hcount : (code.encodeAll text).count sign ≤ text.count mark) :
    Clear code mark sign text := by
  induction text with
  | nil => exact List.forall_mem_nil _
  | cons c text ih =>
      rw [encodeAll_cons, List.count_append] at hcount
      have hrest := count_le_count_encodeAll hmark text
      by_cases hc : c = mark
      · subst hc
        rw [hmark, List.count_singleton_self, List.count_cons_self] at hcount
        refine List.forall_mem_cons.mpr ⟨fun hne => absurd rfl hne, ih (by omega)⟩
      · rw [List.count_cons_of_ne hc] at hcount
        have hnone : (code.encode c).count sign = 0 := by omega
        exact List.forall_mem_cons.mpr ⟨fun _ => List.count_eq_zero.mp hnone, ih (by omega)⟩

/-- Some of the escaped text is encoded. The result is a format of the whole text exactly where
nothing was left out and no other word has the sign. -/
theorem encodeAll_eq_doubled_iff {sent : List α} (hsent : sent.Sublist (doubled mark text)) :
    code.encodeAll sent = doubled sign (code.encodeAll text) ↔
      sent = doubled mark text ∧ Clear code mark sign text := by
  constructor
  · intro h
    have hwords : (code.encodeAll sent).Sublist (code.encodeAll (doubled mark text)) :=
      hsent.flatMap code.encode
    have hmarks := count_le_count_encodeAll hmark text
    -- the signs of the format are twice those of the text, but only marks were written twice
    have hsigns : (code.encodeAll text).count sign ≤ text.count mark := by
      have hle := hwords.count_le sign
      rw [h, count_doubled, count_encodeAll_doubled hmark] at hle
      omega
    refine ⟨?_, clear_of_count_le hmark hsigns⟩
    apply code.encodeAll_injective
    apply hwords.eq_of_length
    rw [h, length_doubled, length_encodeAll_doubled hmark]
    omega
  · rintro ⟨rfl, hclear⟩
    exact encodeAll_doubled hmark hclear

end Dmn.Escaping
