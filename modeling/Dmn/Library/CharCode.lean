import Mathlib.Algebra.Group.Nat.Defs
import Mathlib.Data.List.Basic
import Mathlib.Data.List.Infix

/-! # Character codes and bounded translation between them

A code writes each character as a nonempty word that can be cut off the front of a longer
text. A translator between two codes works character by character and stops before the
first character whose word no longer fits. -/

namespace Dmn

variable {α β : Type*}

structure CharCode (α β : Type*) where
  encode : α → List β
  decode : List β → Option (α × List β)
  encode_ne_nil : ∀ c, encode c ≠ []
  decode_nil : decode [] = none
  decode_encode : ∀ c rest, decode (encode c ++ rest) = some (c, rest)

namespace CharCode

/-- The word of a text. -/
def encodeAll (code : CharCode α β) (cs : List α) : List β := cs.flatMap code.encode

@[simp] theorem encodeAll_nil (code : CharCode α β) : code.encodeAll [] = [] := rfl

@[simp] theorem encodeAll_cons (code : CharCode α β) (c : α) (cs : List α) :
    code.encodeAll (c :: cs) = code.encode c ++ code.encodeAll cs := rfl

theorem encodeAll_append (code : CharCode α β) (s t : List α) :
    code.encodeAll (s ++ t) = code.encodeAll s ++ code.encodeAll t :=
  List.flatMap_append

theorem encodeAll_flatten (code : CharCode α β) (texts : List (List α)) :
    code.encodeAll texts.flatten = (texts.map code.encodeAll).flatten := by
  induction texts with
  | nil => rfl
  | cons text texts ih =>
      rw [List.flatten_cons, encodeAll_append, ih, List.map_cons, List.flatten_cons]

theorem encode_length_pos (code : CharCode α β) (c : α) : 0 < (code.encode c).length :=
  List.length_pos_iff.mpr (code.encode_ne_nil c)

theorem length_le_length_encodeAll (code : CharCode α β) (cs : List α) :
    cs.length ≤ (code.encodeAll cs).length := by
  induction cs with
  | nil => simp
  | cons c cs ih =>
      have := code.encode_length_pos c
      simp only [encodeAll_cons, List.length_append, List.length_cons]
      omega

/-- A text whose word begins that of another begins the other text. -/
theorem prefix_of_encodeAll (code : CharCode α β) {s t : List α}
    (h : code.encodeAll s <+: code.encodeAll t) : s <+: t := by
  induction s generalizing t with
  | nil => exact List.nil_prefix
  | cons c s ih =>
      obtain ⟨rest, hrest⟩ := h
      cases t with
      | nil => simp [code.encode_ne_nil] at hrest
      | cons d t =>
          have hc := code.decode_encode c (code.encodeAll s ++ rest)
          rw [← List.append_assoc, ← encodeAll_cons, hrest, encodeAll_cons,
            code.decode_encode] at hc
          simp only [Option.some.injEq, Prod.mk.injEq] at hc
          exact List.cons_prefix_cons.mpr ⟨hc.1.symm, ih ⟨rest, hc.2.symm⟩⟩

theorem encodeAll_injective (code : CharCode α β) :
    Function.Injective code.encodeAll := by
  intro s t h
  have hforth : s <+: t := code.prefix_of_encodeAll (h ▸ List.prefix_refl _)
  have hback : t <+: s := code.prefix_of_encodeAll (h ▸ List.prefix_refl _)
  exact hforth.eq_of_length_le hback.length_le

theorem encode_injective (code : CharCode α β) : Function.Injective code.encode := by
  intro c d h
  have hwords : code.encodeAll [c] = code.encodeAll [d] := by simp [h]
  exact List.singleton_injective (code.encodeAll_injective hwords)

theorem encodeAll_prefix (code : CharCode α β) {s t : List α} (h : s <+: t) :
    code.encodeAll s <+: code.encodeAll t := by
  obtain ⟨rest, rfl⟩ := h
  rw [encodeAll_append]
  exact List.prefix_append _ _

/-! ## Translation -/

/-- The characters that fit into `room` symbols. -/
def fitting (code : CharCode α β) : ℕ → List α → List α
  | _, [] => []
  | room, c :: cs =>
      if (code.encode c).length ≤ room then
        c :: code.fitting (room - (code.encode c).length) cs
      else []

theorem fitting_prefix (code : CharCode α β) (room : ℕ) (cs : List α) :
    code.fitting room cs <+: cs := by
  induction cs generalizing room with
  | nil => simp [fitting]
  | cons c cs ih =>
      simp only [fitting]
      split
      · exact List.cons_prefix_cons.mpr ⟨rfl, ih _⟩
      · exact List.nil_prefix

theorem length_encodeAll_fitting_le (code : CharCode α β) (room : ℕ) (cs : List α) :
    (code.encodeAll (code.fitting room cs)).length ≤ room := by
  induction cs generalizing room with
  | nil => simp [fitting]
  | cons c cs ih =>
      simp only [fitting]
      split
      · have := ih (room - (code.encode c).length)
        simp only [encodeAll_cons, List.length_append]
        omega
      · simp

/-- Nothing is left out exactly when the whole text fits. -/
theorem fitting_eq_self_iff (code : CharCode α β) (room : ℕ) (cs : List α) :
    code.fitting room cs = cs ↔ (code.encodeAll cs).length ≤ room := by
  constructor
  · intro h
    rw [← h]
    exact code.length_encodeAll_fitting_le room cs
  · intro h
    induction cs generalizing room with
    | nil => rfl
    | cons c cs ih =>
        simp only [encodeAll_cons, List.length_append] at h
        rw [fitting, if_pos (by omega), ih _ (by omega)]

/-- Behind a text that fits there is room for more. -/
theorem fitting_append_of_le (code : CharCode α β) {room : ℕ} {cs : List α}
    (h : (code.encodeAll cs).length ≤ room) (ds : List α) : code.fitting room (cs ++ ds) =
      cs ++ code.fitting (room - (code.encodeAll cs).length) ds := by
  induction cs generalizing room with
  | nil => rfl
  | cons c cs ih =>
      rw [encodeAll_cons, List.length_append] at h ⊢
      rw [List.cons_append, fitting, if_pos (by omega), ih (by omega), Nat.sub_sub,
        List.cons_append]

theorem fitting_append_of_lt (code : CharCode α β) {room : ℕ} {cs : List α}
    (h : room < (code.encodeAll cs).length) (ds : List α) :
    code.fitting room (cs ++ ds) = code.fitting room cs := by
  induction cs generalizing room with
  | nil => exact absurd h (Nat.not_lt_zero room)
  | cons c cs ih =>
      rw [encodeAll_cons, List.length_append] at h
      rw [List.cons_append, fitting, fitting]
      by_cases hfit : (code.encode c).length ≤ room
      · rw [if_pos hfit, if_pos hfit, ih (by omega)]
      · rw [if_neg hfit, if_neg hfit]

variable {γ : Type*}

/-- Translate at most `steps` characters of `input` into at most `room` symbols. -/
def translate (src : CharCode α β) (dst : CharCode α γ) : ℕ → List β → ℕ → List γ
  | 0, _, _ => []
  | steps + 1, input, room =>
      match src.decode input with
      | none => []
      | some (c, rest) =>
          if (dst.encode c).length ≤ room then
            dst.encode c ++ translate src dst steps rest (room - (dst.encode c).length)
          else []

theorem length_translate_le (src : CharCode α β) (dst : CharCode α γ) (steps : ℕ)
    (input : List β) (room : ℕ) : (translate src dst steps input room).length ≤ room := by
  induction steps generalizing input room with
  | zero => simp [translate]
  | succ steps ih =>
      simp only [translate]
      split
      · simp
      · rename_i c rest _
        split
        · have := ih rest (room - (dst.encode c).length)
          simp only [List.length_append]
          omega
        · simp

/-- The characters that are read off the front of `input`, at most `steps` of them. -/
def reading (code : CharCode α β) : ℕ → List β → List α
  | 0, _ => []
  | steps + 1, input =>
      match code.decode input with
      | none => []
      | some (c, rest) => c :: code.reading steps rest

theorem reading_encodeAll (code : CharCode α β) {cs : List α} {steps : ℕ} (h : cs.length ≤ steps) :
    code.reading steps (code.encodeAll cs) = cs := by
  induction cs generalizing steps with
  | nil => cases steps <;> simp [reading, code.decode_nil]
  | cons c cs ih =>
      cases steps with
      | zero => simp at h
      | succ steps =>
          rw [encodeAll_cons, reading, code.decode_encode]
          simp only
          rw [ih (by simpa using h)]

/-- The translation is the word of those characters that fit. -/
theorem translate_eq (src : CharCode α β) (dst : CharCode α γ) (steps : ℕ) (input : List β)
    (room : ℕ) : translate src dst steps input room =
      dst.encodeAll (dst.fitting room (src.reading steps input)) := by
  induction steps generalizing input room with
  | zero => rfl
  | succ steps ih =>
      cases hdecode : src.decode input with
      | none => simp [translate, reading, hdecode, fitting]
      | some step =>
          obtain ⟨c, rest⟩ := step
          simp only [translate, reading, hdecode, fitting]
          split
          · rw [ih, encodeAll_cons]
          · rfl

theorem translate_encodeAll (src : CharCode α β) (dst : CharCode α γ) (cs : List α)
    (steps room : ℕ) (h : cs.length ≤ steps) :
    translate src dst steps (src.encodeAll cs) room = dst.encodeAll (dst.fitting room cs) := by
  rw [translate_eq, src.reading_encodeAll h]

/-- A decoder reads only what the encoder writes. -/
def Strict (code : CharCode α β) : Prop :=
  ∀ input c rest, code.decode input = some (c, rest) → input = code.encode c ++ rest

theorem encodeAll_reading_prefix (code : CharCode α β) (hcode : code.Strict) (steps : ℕ)
    (input : List β) : code.encodeAll (code.reading steps input) <+: input := by
  induction steps generalizing input with
  | zero => exact List.nil_prefix
  | succ steps ih =>
      cases hdecode : code.decode input with
      | none => simp [reading, hdecode]
      | some step =>
          obtain ⟨c, rest⟩ := step
          rw [hcode input c rest hdecode, reading, code.decode_encode]
          exact (List.prefix_append_right_inj _).mpr (ih rest)

/-- Whatever is translated, the result is the word of a text whose own word the input begins
with. -/
theorem exists_translate_eq (src : CharCode α β) (dst : CharCode α γ) (hsrc : src.Strict)
    (steps : ℕ) (input : List β) (room : ℕ) :
    ∃ cs, src.encodeAll cs <+: input ∧ translate src dst steps input room = dst.encodeAll cs := by
  refine ⟨dst.fitting room (src.reading steps input), ?_, translate_eq src dst steps input room⟩
  have hfits := src.encodeAll_prefix (dst.fitting_prefix room (src.reading steps input))
  exact hfits.trans (src.encodeAll_reading_prefix hsrc steps input)

end CharCode

end Dmn
