import Dmn.Library.BoolText.Syntax

/-! # Composition and meaning of parse trees

The leaves of a tree are numbered from left to right. A tree denotes a boolean function
of the truth values of its leaves, in which two occurrences of one term are independent. -/

namespace Dmn.BoolText

universe u

variable {τ : Type u}

/-! ## Composition -/

/-- The tree of a single operand. -/
def Disj.ofFactor (f : Factor τ) : Disj τ := .one (.one f)

/-- The tree that a text has after `not` is put in front of it. -/
def Conj.negFirst : Conj τ → Conj τ
  | .one f => .one (.not f)
  | .and f c => .and (.not f) c

@[inherit_doc Conj.negFirst]
def Disj.negFirst : Disj τ → Disj τ
  | .one c => .one c.negFirst
  | .or c d => .or c.negFirst d

def Conj.andThen : Conj τ → Conj τ → Conj τ
  | .one f, e => .and f e
  | .and f c, e => .and f (c.andThen e)

/-- The tree of two texts joined by `and`: the last conjunction of the first text goes on
with the first conjunction of the second. -/
def Disj.andThen : Disj τ → Disj τ → Disj τ
  | .one c, .one c' => .one (c.andThen c')
  | .one c, .or c' e => .or (c.andThen c') e
  | .or c d, e => .or c (d.andThen e)

/-- The tree of two texts joined by `or`. -/
def Disj.orElse : Disj τ → Disj τ → Disj τ
  | .one c, e => .or c e
  | .or c d, e => .or c (d.orElse e)

section Text

variable (lex : Lexicon τ)

@[simp] theorem Disj.text_ofFactor (f : Factor τ) : (Disj.ofFactor f).text lex = f.text lex :=
  rfl

theorem Conj.text_negFirst (c : Conj τ) : c.negFirst.text lex = notWord ++ c.text lex := by
  cases c with
  | one f => rfl
  | and f c => simp [negFirst, Conj.text, Factor.text]

theorem Disj.text_negFirst (d : Disj τ) : d.negFirst.text lex = notWord ++ d.text lex := by
  cases d with
  | one c => exact c.text_negFirst lex
  | or c d => simp [negFirst, Disj.text, Conj.text_negFirst]

theorem Conj.text_andThen (c e : Conj τ) :
    (c.andThen e).text lex = c.text lex ++ (andWord ++ e.text lex) := by
  fun_induction Conj.andThen c e with
  | case1 e f => rfl
  | case2 e f c ih => simp [Conj.text, ih]

theorem Disj.text_andThen (d e : Disj τ) :
    (d.andThen e).text lex = d.text lex ++ (andWord ++ e.text lex) := by
  fun_induction Disj.andThen d e with
  | case1 c c' => exact c.text_andThen lex c'
  | case2 c c' e => simp [Disj.text, Conj.text_andThen]
  | case3 c d e ih => simp [Disj.text, ih]

theorem Disj.text_orElse (d e : Disj τ) :
    (d.orElse e).text lex = d.text lex ++ (orWord ++ e.text lex) := by
  fun_induction Disj.orElse d e with
  | case1 c e => rfl
  | case2 c d e ih => simp [Disj.text, ih]

end Text

/-! ## Leaves and truth values -/

mutual

def Factor.leaves : Factor τ → List τ
  | .term a => [a]
  | .not f => f.leaves
  | .group d => d.leaves

def Conj.leaves : Conj τ → List τ
  | .one f => f.leaves
  | .and f c => f.leaves ++ c.leaves

def Disj.leaves : Disj τ → List τ
  | .one c => c.leaves
  | .or c d => c.leaves ++ d.leaves

end

/-- The truth values of the leaves behind the first `n`. -/
def behind (n : ℕ) (v : ℕ → Bool) (i : ℕ) : Bool := v (n + i)

mutual

def Factor.eval : Factor τ → (ℕ → Bool) → Bool
  | .term _, v => v 0
  | .not f, v => !f.eval v
  | .group d, v => d.eval v

def Conj.eval : Conj τ → (ℕ → Bool) → Bool
  | .one f, v => f.eval v
  | .and f c, v => f.eval v && c.eval (behind f.leaves.length v)

def Disj.eval : Disj τ → (ℕ → Bool) → Bool
  | .one c, v => c.eval v
  | .or c d, v => c.eval v || d.eval (behind c.leaves.length v)

end

@[simp] theorem behind_behind (m n : ℕ) (v : ℕ → Bool) :
    behind n (behind m v) = behind (m + n) v := by
  funext i
  simp only [behind, Nat.add_assoc]

@[simp] theorem Disj.eval_ofFactor (f : Factor τ) (v : ℕ → Bool) :
    (Disj.ofFactor f).eval v = f.eval v := rfl

@[simp] theorem Disj.leaves_ofFactor (f : Factor τ) : (Disj.ofFactor f).leaves = f.leaves := rfl

@[simp] theorem Disj.negFirst_ofFactor (f : Factor τ) :
    (Disj.ofFactor f).negFirst = Disj.ofFactor (.not f) := rfl

@[simp] theorem Conj.leaves_andThen (c e : Conj τ) :
    (c.andThen e).leaves = c.leaves ++ e.leaves := by
  fun_induction Conj.andThen c e with
  | case1 e f => rfl
  | case2 e f c ih => simp [Conj.leaves, ih]

@[simp] theorem Disj.leaves_andThen (d e : Disj τ) :
    (d.andThen e).leaves = d.leaves ++ e.leaves := by
  fun_induction Disj.andThen d e with
  | case1 c c' => exact c.leaves_andThen c'
  | case2 c c' e => simp [Disj.leaves]
  | case3 c d e ih => simp [Disj.leaves, ih]

@[simp] theorem Disj.leaves_orElse (d e : Disj τ) :
    (d.orElse e).leaves = d.leaves ++ e.leaves := by
  fun_induction Disj.orElse d e with
  | case1 c e => rfl
  | case2 c d e ih => simp [Disj.leaves, ih]

@[simp] theorem Disj.leaves_negFirst (d : Disj τ) : d.negFirst.leaves = d.leaves := by
  rcases d with (f | ⟨f, c⟩) | ⟨f | ⟨f, c⟩, d⟩ <;> rfl

/-- Joining by `or` always means the disjunction of the whole texts. -/
theorem Disj.eval_orElse (d e : Disj τ) (v : ℕ → Bool) :
    (d.orElse e).eval v = (d.eval v || e.eval (behind d.leaves.length v)) := by
  fun_induction Disj.orElse d e generalizing v with
  | case1 c e => rfl
  | case2 c d e ih => simp [Disj.eval, Disj.leaves, ih, Bool.or_assoc]

theorem Conj.eval_andThen (c e : Conj τ) (v : ℕ → Bool) :
    (c.andThen e).eval v = (c.eval v && e.eval (behind c.leaves.length v)) := by
  fun_induction Conj.andThen c e generalizing v with
  | case1 e f => rfl
  | case2 e f c ih => simp [Conj.eval, Conj.leaves, ih, Bool.and_assoc]

/-! ## Independent parts -/

/-- The values of `v` for the first `n` leaves, and those of `w` behind them. -/
def glue (n : ℕ) (v w : ℕ → Bool) (i : ℕ) : Bool := if i < n then v i else w (i - n)

@[simp] theorem behind_glue (n : ℕ) (v w : ℕ → Bool) : behind n (glue n v w) = w := by
  funext i
  have hi : ¬ n + i < n := by omega
  simp only [behind, glue, if_neg hi, Nat.add_sub_cancel_left]

mutual

theorem Factor.eval_congr : ∀ (f : Factor τ) {v w : ℕ → Bool},
    (∀ i < f.leaves.length, v i = w i) → f.eval v = f.eval w
  | .term a, v, w, h => h 0 (by simp [Factor.leaves])
  | .not f, v, w, h => by
      have hf := f.eval_congr h
      simp only [Factor.eval, hf]
  | .group d, v, w, h => d.eval_congr h

theorem Conj.eval_congr : ∀ (c : Conj τ) {v w : ℕ → Bool},
    (∀ i < c.leaves.length, v i = w i) → c.eval v = c.eval w
  | .one f, v, w, h => f.eval_congr h
  | .and f c, v, w, h => by
      simp only [Conj.leaves, List.length_append] at h
      have hf := f.eval_congr (fun i hi => h i (by omega))
      have hc := c.eval_congr (fun i hi => h (f.leaves.length + i) (by omega))
      exact congrArg₂ and hf hc

theorem Disj.eval_congr : ∀ (d : Disj τ) {v w : ℕ → Bool},
    (∀ i < d.leaves.length, v i = w i) → d.eval v = d.eval w
  | .one c, v, w, h => c.eval_congr h
  | .or c d, v, w, h => by
      simp only [Disj.leaves, List.length_append] at h
      have hc := c.eval_congr (fun i hi => h i (by omega))
      have hd := d.eval_congr (fun i hi => h (c.leaves.length + i) (by omega))
      exact congrArg₂ or hc hd

end

theorem glue_of_lt {n i : ℕ} (v w : ℕ → Bool) (h : i < n) : glue n v w i = v i := if_pos h

@[simp] theorem Factor.eval_glue (f : Factor τ) (v w : ℕ → Bool) :
    f.eval (glue f.leaves.length v w) = f.eval v :=
  f.eval_congr fun _ => glue_of_lt v w

@[simp] theorem Conj.eval_glue (c : Conj τ) (v w : ℕ → Bool) :
    c.eval (glue c.leaves.length v w) = c.eval v :=
  c.eval_congr fun _ => glue_of_lt v w

@[simp] theorem Disj.eval_glue (d : Disj τ) (v w : ℕ → Bool) :
    d.eval (glue d.leaves.length v w) = d.eval v :=
  d.eval_congr fun _ => glue_of_lt v w

mutual

/-- No tree denotes a constant. -/
theorem Factor.exists_eval : ∀ (f : Factor τ) (b : Bool), ∃ v, f.eval v = b
  | .term a, b => ⟨fun _ => b, rfl⟩
  | .not f, b => by
      obtain ⟨v, hv⟩ := f.exists_eval (!b)
      exact ⟨v, by simp [Factor.eval, hv]⟩
  | .group d, b => d.exists_eval b

theorem Conj.exists_eval : ∀ (c : Conj τ) (b : Bool), ∃ v, c.eval v = b
  | .one f, b => f.exists_eval b
  | .and f c, b => by
      obtain ⟨v, hv⟩ := f.exists_eval b
      obtain ⟨w, hw⟩ := c.exists_eval b
      exact ⟨glue f.leaves.length v w, by simp [Conj.eval, hv, hw]⟩

theorem Disj.exists_eval : ∀ (d : Disj τ) (b : Bool), ∃ v, d.eval v = b
  | .one c, b => c.exists_eval b
  | .or c d, b => by
      obtain ⟨v, hv⟩ := c.exists_eval b
      obtain ⟨w, hw⟩ := d.exists_eval b
      exact ⟨glue c.leaves.length v w, by simp [Disj.eval, hv, hw]⟩

end

/-! ## Where composition keeps the meaning -/

/-- Putting `not` in front of a text negates the whole text only if it is one operand. -/
theorem Disj.eq_ofFactor_of_negFirst {d : Disj τ}
    (h : ∀ v, d.negFirst.eval v = !d.eval v) : ∃ f, d = Disj.ofFactor f := by
  rcases d with (f | ⟨f, c⟩) | ⟨c, d⟩
  · exact ⟨f, rfl⟩
  · -- a false first operand and a false rest tell the two readings apart
    obtain ⟨v, hv⟩ := f.exists_eval false
    obtain ⟨w, hw⟩ := c.exists_eval false
    have := h (glue f.leaves.length v w)
    simp only [negFirst, Conj.negFirst, Disj.eval, Conj.eval, Factor.eval, Factor.leaves,
      Factor.eval_glue, behind_glue, hv, hw] at this
    simp at this
  · -- a true last part makes the text true and its negation false
    obtain ⟨w, hw⟩ := d.exists_eval true
    have hlen : c.negFirst.leaves.length = c.leaves.length := by cases c <;> rfl
    have := h (glue c.leaves.length w w)
    simp only [negFirst, Disj.eval, hlen, behind_glue, hw, Bool.or_true] at this
    simp at this

/-- Joining two texts by `and` means the conjunction of the first text and of what the
second stands for only if neither has an `or` on its top level. -/
theorem Disj.eq_one_of_andThen {d e : Disj τ} {g : (ℕ → Bool) → Bool} (hg : ∃ w, g w = false)
    (h : ∀ v, (d.andThen e).eval v = (d.eval v && g (behind d.leaves.length v))) :
    (∃ c, d = .one c) ∧ ∃ c, e = .one c := by
  cases d with
  | or c d =>
      obtain ⟨v, hv⟩ := c.exists_eval true
      obtain ⟨w, hw⟩ := hg
      have := h (glue (Disj.or c d).leaves.length v w)
      have hc : c.eval (glue (Disj.or c d).leaves.length v w) = true := by
        rw [← hv]
        apply c.eval_congr
        intro i hi
        exact glue_of_lt v w (by simp only [Disj.leaves, List.length_append]; omega)
      simp [andThen, Disj.eval, hc, hw] at this
  | one c =>
      cases e with
      | one c' => exact ⟨⟨c, rfl⟩, c', rfl⟩
      | or c' e =>
          obtain ⟨v, hv⟩ := c.exists_eval false
          obtain ⟨w, hw⟩ := e.exists_eval true
          have := h (glue c.leaves.length v (glue c'.leaves.length w w))
          simp only [andThen, Disj.eval, Conj.leaves_andThen, List.length_append,
            ← behind_behind, behind_glue, hw, Bool.or_true, Conj.eval_glue, hv] at this
          simp at this

/-! ## Meanings -/

/-- The leaves of a text from left to right, and the boolean function of their values. -/
@[ext] structure Meaning where
  leaves : List (List Char)
  eval : (ℕ → Bool) → Bool

namespace Meaning

def leaf (text : List Char) : Meaning := ⟨[text], fun v => v 0⟩

def neg (x : Meaning) : Meaning := ⟨x.leaves, fun v => !x.eval v⟩

def and (x y : Meaning) : Meaning :=
  ⟨x.leaves ++ y.leaves, fun v => x.eval v && y.eval (behind x.leaves.length v)⟩

def or (x y : Meaning) : Meaning :=
  ⟨x.leaves ++ y.leaves, fun v => x.eval v || y.eval (behind x.leaves.length v)⟩

end Meaning

/-- The parts of a nonempty list joined from the right. -/
def joined {α : Type*} (op : α → α → α) : α → List α → α
  | a, [] => a
  | a, b :: rest => op a (joined op b rest)

variable (lex : Lexicon τ)

def Disj.meaning (d : Disj τ) : Meaning := ⟨d.leaves.map lex.text, d.eval⟩

theorem Disj.meaning_orElse (d e : Disj τ) :
    (d.orElse e).meaning lex = (d.meaning lex).or (e.meaning lex) := by
  ext1
  · simp [meaning, Meaning.or]
  · funext v
    simp [meaning, Meaning.or, eval_orElse]

theorem meaning_joined_orElse (d : Disj τ) (ds : List (Disj τ)) :
    (joined Disj.orElse d ds).meaning lex =
      joined Meaning.or (d.meaning lex) (ds.map (Disj.meaning lex)) := by
  induction ds generalizing d with
  | nil => rfl
  | cons e es ih => rw [joined, Disj.meaning_orElse, ih e]; rfl

theorem Disj.meaning_negFirst_iff (d : Disj τ) :
    d.negFirst.meaning lex = (d.meaning lex).neg ↔ ∃ f, d = Disj.ofFactor f := by
  constructor
  · intro h
    exact eq_ofFactor_of_negFirst fun v => congrFun (congrArg Meaning.eval h) v
  · rintro ⟨f, rfl⟩
    rfl

theorem Conj.meaning_andThen (c e : Conj τ) :
    (Disj.one (c.andThen e)).meaning lex =
      ((Disj.one c).meaning lex).and ((Disj.one e).meaning lex) := by
  ext1
  · simp [Disj.meaning, Meaning.and, Disj.leaves]
  · funext v
    simp [Disj.meaning, Meaning.and, Disj.leaves, Disj.eval, eval_andThen]

/-- If a text joined by `and` has no `or` on its top level, then none of its parts has. -/
theorem eq_one_of_joined_andThen {d : Disj τ} {ds : List (Disj τ)}
    (h : ∃ c, joined Disj.andThen d ds = .one c) : ∀ e ∈ d :: ds, ∃ c, e = .one c := by
  induction ds generalizing d with
  | nil => simpa [joined] using h
  | cons e es ih =>
      obtain ⟨c, hc⟩ := h
      rw [joined] at hc
      cases d with
      | or c' d => simp [Disj.andThen] at hc
      | one c' =>
          generalize hrest : joined Disj.andThen e es = rest at hc
          cases rest with
          | or _ _ => simp [Disj.andThen] at hc
          | one r =>
              have hall := ih ⟨r, hrest⟩
              intro x hx
              rcases List.mem_cons.mp hx with rfl | hx
              · exact ⟨c', rfl⟩
              · exact hall x hx

theorem exists_joined_andThen {d : Disj τ} {ds : List (Disj τ)}
    (h : ∀ e ∈ d :: ds, ∃ c, e = Disj.one c) :
    ∃ c, joined Disj.andThen d ds = .one c ∧ (Disj.one c).meaning lex =
      joined Meaning.and (d.meaning lex) (ds.map (Disj.meaning lex)) := by
  induction ds generalizing d with
  | nil =>
      obtain ⟨c, rfl⟩ := h d List.mem_cons_self
      exact ⟨c, rfl, rfl⟩
  | cons e es ih =>
      obtain ⟨c, rfl⟩ := h d List.mem_cons_self
      obtain ⟨r, hr, hden⟩ := ih fun x hx => h x (List.mem_cons_of_mem _ hx)
      refine ⟨c.andThen r, by rw [joined, hr]; rfl, ?_⟩
      rw [Conj.meaning_andThen, hden]
      rfl

theorem exists_eval_joined_and (d : Disj τ) (ds : List (Disj τ)) :
    ∃ v, (joined Meaning.and (d.meaning lex) (ds.map (Disj.meaning lex))).eval v =
      false := by
  obtain ⟨v, hv⟩ := d.exists_eval false
  cases ds with
  | nil => exact ⟨v, hv⟩
  | cons e es => exact ⟨v, by simp [joined, Meaning.and, Disj.meaning, hv]⟩

/-- Joining two or more texts by `and` means their conjunction exactly when none of them
has an `or` on its top level. -/
theorem meaning_joined_andThen_iff (d e : Disj τ) (es : List (Disj τ)) :
    (joined Disj.andThen d (e :: es)).meaning lex =
        joined Meaning.and (d.meaning lex) ((e :: es).map (Disj.meaning lex)) ↔
      ∀ x ∈ d :: e :: es, ∃ c, x = .one c := by
  constructor
  · intro h
    obtain ⟨hd, hrest⟩ := Disj.eq_one_of_andThen (exists_eval_joined_and lex e es) fun v => by
      have := congrFun (congrArg Meaning.eval h) v
      simpa [joined, Meaning.and, Disj.meaning] using this
    intro x hx
    rcases List.mem_cons.mp hx with rfl | hx
    · exact hd
    · exact eq_one_of_joined_andThen hrest x hx
  · intro h
    obtain ⟨c, hc, hden⟩ := exists_joined_andThen lex h
    rw [hc, hden]

theorem text_joined_andThen (d : Disj τ) (ds : List (Disj τ)) :
    (joined Disj.andThen d ds).text lex =
      d.text lex ++ ds.flatMap fun e => andWord ++ e.text lex := by
  induction ds generalizing d with
  | nil => simp [joined]
  | cons e es ih => simp [joined, Disj.text_andThen, ih]

theorem text_joined_orElse (d : Disj τ) (ds : List (Disj τ)) :
    (joined Disj.orElse d ds).text lex =
      d.text lex ++ ds.flatMap fun e => orWord ++ e.text lex := by
  induction ds generalizing d with
  | nil => simp [joined]
  | cons e es ih => simp [joined, Disj.text_orElse, ih]

theorem Disj.andThen_ne_ofFactor (d e : Disj τ) (f : Factor τ) :
    d.andThen e ≠ Disj.ofFactor f := by
  rcases d with (g | ⟨g, c⟩) | ⟨c, d⟩ <;> cases e <;>
    simp [andThen, Conj.andThen, ofFactor]

theorem Disj.orElse_ne_ofFactor (d e : Disj τ) (f : Factor τ) :
    d.orElse e ≠ Disj.ofFactor f := by
  cases d <;> simp [orElse, ofFactor]

/-! ## Truth of a tree -/

mutual

/-- The truth of a tree, from that of its terms. -/
def Factor.holds (p : τ → Bool) : Factor τ → Bool
  | .term a => p a
  | .not f => !f.holds p
  | .group d => d.holds p

def Conj.holds (p : τ → Bool) : Conj τ → Bool
  | .one f => f.holds p
  | .and f c => f.holds p && c.holds p

def Disj.holds (p : τ → Bool) : Disj τ → Bool
  | .one c => c.holds p
  | .or c d => c.holds p || d.holds p

end

end Dmn.BoolText
