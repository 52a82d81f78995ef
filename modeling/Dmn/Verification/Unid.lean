import Mathlib.Data.Nat.Digits.Lemmas
import Mathlib.Tactic.IntervalCases
import Dmn.Model.Unid

/-! # Texts of universal note IDs

Each part is printed with all of its eight digits, and read from eight bytes, of which only the
first has to be a digit. -/

namespace Dmn.Unid

/-! ## Digits -/

/-- A letter in upper case. -/
def upper (c : UInt8) : UInt8 := if 97 ≤ c.toNat ∧ c.toNat ≤ 122 then c - 32 else c

theorem hexDigit_upperDigit {d : ℕ} (h : d < 16) : hexDigit (upperDigit d) = some d := by
  interval_cases d <;> rfl

theorem ofNat_eq_of_toNat {n : ℕ} {c : UInt8} (h : c.toNat = n) : UInt8.ofNat n = c := by
  rw [← h, UInt8.ofNat_toNat]

theorem upperDigit_of_hexDigit {c : UInt8} {d : ℕ} (h : hexDigit c = some d) :
    d < 16 ∧ upperDigit d = upper c := by
  have hsub : ∀ n : ℕ, 32 ≤ n → c.toNat = n → (c - 32).toNat = n - 32 := by
    intro n hn hc
    rw [UInt8.toNat_sub_of_le _ _ (UInt8.le_iff_toNat_le.mpr (by simpa [hc] using hn)), hc]
    rfl
  unfold hexDigit at h
  split_ifs at h with hdecimal hcapital hsmall <;> cases h
  · refine ⟨by omega, ?_⟩
    rw [upperDigit, if_pos (by omega), upper, if_neg (by omega)]
    exact ofNat_eq_of_toNat (by omega)
  · refine ⟨by omega, ?_⟩
    rw [upperDigit, if_neg (by omega), upper, if_neg (by omega)]
    exact ofNat_eq_of_toNat (by omega)
  · refine ⟨by omega, ?_⟩
    rw [upperDigit, if_neg (by omega), upper, if_pos (by omega)]
    exact ofNat_eq_of_toNat (by rw [hsub _ (by omega) rfl]; omega)

theorem leadingDigits_map_upperDigit {digits : List ℕ} (h : ∀ d ∈ digits, d < 16) :
    leadingDigits (digits.map upperDigit) = (digits, []) := by
  induction digits with
  | nil => rfl
  | cons d digits ih =>
      have hrest := ih fun e he => h e (List.mem_cons_of_mem d he)
      rw [List.map_cons, leadingDigits, hexDigit_upperDigit (h d List.mem_cons_self), hrest]

theorem leadingDigits_lt (text : List UInt8) : ∀ d ∈ (leadingDigits text).1, d < 16 := by
  induction text with
  | nil => exact List.forall_mem_nil _
  | cons c text ih =>
      rw [leadingDigits]
      cases hdigit : hexDigit c with
      | none => exact List.forall_mem_nil _
      | some d => exact List.forall_mem_cons.mpr ⟨(upperDigit_of_hexDigit hdigit).1, ih⟩

theorem length_leadingDigits_le (text : List UInt8) :
    (leadingDigits text).1.length ≤ text.length := by
  induction text with
  | nil => exact Nat.le_refl _
  | cons c text ih =>
      rw [leadingDigits]
      cases hexDigit c with
      | none => exact Nat.zero_le _
      | some d => exact Nat.succ_le_succ ih

/-- Where a text is of digits alone, they are its letters in upper case. -/
theorem map_upperDigit_leadingDigits {text : List UInt8}
    (h : ∀ c ∈ text, (hexDigit c).isSome) :
    (leadingDigits text).1.map upperDigit = text.map upper := by
  induction text with
  | nil => rfl
  | cons c text ih =>
      obtain ⟨d, hdigit⟩ := Option.isSome_iff_exists.mp (h c List.mem_cons_self)
      have hrest := ih fun e he => h e (List.mem_cons_of_mem c he)
      rw [leadingDigits, hdigit]
      simp only [List.map_cons, hrest, (upperDigit_of_hexDigit hdigit).2]

/-- The text begins with a digit. -/
def StartsWithDigit (text : List UInt8) : Prop := (text.head?.bind hexDigit).isSome

instance (text : List UInt8) : Decidable (StartsWithDigit text) := by
  unfold StartsWithDigit
  infer_instance

theorem leadingDigits_ne_nil_iff (text : List UInt8) :
    (leadingDigits text).1 ≠ [] ↔ StartsWithDigit text := by
  cases text with
  | nil => simp [leadingDigits, StartsWithDigit]
  | cons c text =>
      rw [leadingDigits, StartsWithDigit, List.head?_cons, Option.bind_some]
      cases hexDigit c <;> simp

/-! ## One part -/

/-- The digits of a part, from the highest on. -/
def digits (part : UInt32) : List ℕ := (Nat.digitsAppend 16 8 part.toNat).reverse

theorem toNat_lt_pow (part : UInt32) : part.toNat < 16 ^ 8 :=
  Nat.lt_of_lt_of_eq part.toNat_lt (by decide)

theorem length_digits (part : UInt32) : (digits part).length = 8 := by
  rw [digits, List.length_reverse, Nat.length_digitsAppend (by decide) 8 (toNat_lt_pow part)]

theorem digits_lt (part : UInt32) : ∀ d ∈ digits part, d < 16 := fun _ hd =>
  Nat.lt_of_mem_digitsAppend (by decide) 8 _ (List.mem_reverse.mp hd)

theorem format08X_eq (part : UInt32) : format08X part = (digits part).map upperDigit := by
  simp [format08X, digits, Nat.digitsAppend, List.leftpad]

theorem length_format08X (part : UInt32) : (format08X part).length = 8 := by
  rw [format08X_eq, List.length_map, length_digits]

theorem ofDigits_digits (part : UInt32) : Nat.ofDigits 16 (digits part).reverse = part.toNat := by
  have hinv := (Nat.setInvOn_digitsAppend_ofDigits (b := 16) (by decide) 8).2 (toNat_lt_pow part)
  rwa [digits, List.reverse_reverse]

/-- A list of eight digits is that of its number. -/
theorem digits_ofNat {ds : List ℕ} (hlength : ds.length = 8) (h : ∀ d ∈ ds, d < 16) :
    digits (UInt32.ofNat (Nat.ofDigits 16 ds.reverse)) = ds := by
  have hreverse : ds.reverse.length = 8 ∧ ∀ d ∈ ds.reverse, d < 16 :=
    ⟨by rw [List.length_reverse, hlength], fun d hd => h d (List.mem_reverse.mp hd)⟩
  have hlt : Nat.ofDigits 16 ds.reverse < 2 ^ 32 := Nat.lt_of_lt_of_eq
    (Nat.mapsTo_ofDigits (by decide) 8 hreverse) (by decide)
  have hinv := (Nat.setInvOn_digitsAppend_ofDigits (b := 16) (by decide) 8).1 hreverse
  rw [digits, UInt32.toNat_ofNat_of_lt' hlt, hinv, List.reverse_reverse]

/-- A number of at most eight digits is in range. -/
theorem fromChars_eq {text : List UInt8} (hlength : text.length ≤ 8) :
    fromChars text = if StartsWithDigit text then
      some (UInt32.ofNat (Nat.ofDigits 16 (leadingDigits text).1.reverse), (leadingDigits text).2)
    else none := by
  have hlt : Nat.ofDigits 16 (leadingDigits text).1.reverse < 2 ^ 32 := by
    have hdigits := leadingDigits_lt text
    calc
      Nat.ofDigits 16 (leadingDigits text).1.reverse
        < 16 ^ (leadingDigits text).1.reverse.length :=
          Nat.ofDigits_lt_base_pow_length (by decide) fun d hd => hdigits d (List.mem_reverse.mp hd)
      _ ≤ 16 ^ 8 := Nat.pow_le_pow_right (by decide) (by
          rw [List.length_reverse]
          exact (length_leadingDigits_le text).trans hlength)
      _ = 2 ^ 32 := by decide
  show (if (leadingDigits text).1 = [] then none
    else if 2 ^ 32 ≤ Nat.ofDigits 16 (leadingDigits text).1.reverse then none else _) = _
  by_cases hstart : StartsWithDigit text
  · rw [if_neg ((leadingDigits_ne_nil_iff text).mpr hstart), if_neg (Nat.not_le.mpr hlt),
      if_pos hstart]
  · rw [if_pos (not_ne_iff.mp (mt (leadingDigits_ne_nil_iff text).mp hstart)), if_neg hstart]

theorem fromChars_format08X (part : UInt32) : fromChars (format08X part) = some (part, []) := by
  have hleading : leadingDigits (format08X part) = (digits part, []) := by
    rw [format08X_eq, leadingDigits_map_upperDigit (digits_lt part)]
  have hstart : StartsWithDigit (format08X part) := by
    rw [← leadingDigits_ne_nil_iff, hleading]
    exact List.ne_nil_of_length_pos (by rw [length_digits]; decide)
  rw [fromChars_eq (Nat.le_of_eq (length_format08X part)), if_pos hstart, hleading,
    ofDigits_digits, UInt32.ofNat_toNat]

/-- Eight digits are printed as they were read, in upper case. -/
theorem format08X_of_fromChars {text rest : List UInt8} {part : UInt32}
    (hlength : text.length = 8) (hdigits : ∀ c ∈ text, (hexDigit c).isSome)
    (h : fromChars text = some (part, rest)) : format08X part = text.map upper := by
  have hmap := map_upperDigit_leadingDigits hdigits
  have hleading : (leadingDigits text).1.length = 8 := by
    rw [← List.length_map (f := upperDigit), hmap, List.length_map, hlength]
  rw [fromChars_eq (Nat.le_of_eq hlength)] at h
  split at h
  · cases h
    rw [format08X_eq, digits_ofNat hleading (leadingDigits_lt text), hmap]
  · cases h

/-! ## Four parts -/

theorem length_chunk {str : List UInt8} (h : str.length = 32) {i : ℕ} (hi : i < 4) :
    (chunk str i).length = 8 := by
  rw [chunk, List.length_take, List.length_drop, h]
  omega

theorem append_chunks {str : List UInt8} (h : str.length = 32) :
    chunk str 0 ++ chunk str 1 ++ chunk str 2 ++ chunk str 3 = str := by
  have hlast : (str.drop 24).take 8 = str.drop 24 :=
    List.take_of_length_le (by rw [List.length_drop, h])
  have hnext : ∀ n, (str.drop n).take 8 ++ str.drop (n + 8) = str.drop n := by
    intro n
    rw [← List.drop_drop, List.take_append_drop]
  show (str.drop 0).take 8 ++ (str.drop 8).take 8 ++ (str.drop 16).take 8 ++
    (str.drop 24).take 8 = str
  rw [hlast, List.append_assoc _ _ (str.drop 24), hnext 16, List.append_assoc, hnext 8, hnext 0,
    List.drop_zero]

/-- Four texts of eight bytes are the chunks of what they make up. -/
theorem chunk_append (a b c d : List UInt8) (ha : a.length = 8) (hb : b.length = 8)
    (hc : c.length = 8) (hd : d.length = 8) : chunk (a ++ b ++ c ++ d) 0 = a ∧
      chunk (a ++ b ++ c ++ d) 1 = b ∧ chunk (a ++ b ++ c ++ d) 2 = c ∧
      chunk (a ++ b ++ c ++ d) 3 = d := by
  refine ⟨?_, ?_, ?_, ?_⟩ <;>
    simp [chunk, List.drop_append, List.drop_eq_nil_of_le, ha, hb, hc, hd]

theorem part_eq_some_iff {str : List UInt8} {i : ℕ} {part : UInt32} :
    Unid.part str i = some part ↔ ∃ rest, fromChars (chunk str i) = some (part, rest) := by
  unfold Unid.part
  cases fromChars (chunk str i) with
  | none => simp
  | some result => simp [Prod.ext_iff]

theorem fromString_eq_some_iff {str : List UInt8} (h : str.length = 32) {u : Unid} :
    fromString str = some u ↔ part str 0 = some u.file[1] ∧ part str 1 = some u.file[0] ∧
      part str 2 = some u.note[1] ∧ part str 3 = some u.note[0] := by
  have hsize : ¬ str.length ≠ maxUnidString := not_not.mpr h
  rw [fromString, if_neg hsize]
  constructor
  · intro hread
    simp only [Option.bind_eq_bind, Option.bind_eq_some_iff, pure, Option.some.injEq] at hread
    obtain ⟨part0, h0, part1, h1, part2, h2, part3, h3, rfl⟩ := hread
    exact ⟨h0, h1, h2, h3⟩
  · rintro ⟨h0, h1, h2, h3⟩
    have hpair : ∀ words : Vector UInt32 2, #v[words[0], words[1]] = words := by
      intro words
      ext i hi
      interval_cases i <;> rfl
    simp only [h0, h1, h2, h3, Option.bind_eq_bind, Option.bind_some, pure, hpair]

/-- Printing and reading a universal note ID gives it back. -/
theorem fromString_toString (u : Unid) : fromString u.toString = some u := by
  have hlength : u.toString.length = 32 := by simp [toString, length_format08X]
  obtain ⟨h0, h1, h2, h3⟩ := chunk_append (format08X u.file[1]) (format08X u.file[0])
    (format08X u.note[1]) (format08X u.note[0]) (length_format08X _) (length_format08X _)
    (length_format08X _) (length_format08X _)
  have hpart : ∀ {i : ℕ} {word : UInt32}, chunk u.toString i = format08X word →
      part u.toString i = some word := by
    intro i word hchunk
    exact part_eq_some_iff.mpr ⟨[], by rw [hchunk, fromChars_format08X]⟩
  exact (fromString_eq_some_iff hlength).mpr ⟨hpart h0, hpart h1, hpart h2, hpart h3⟩

/-! ## What is accepted -/

/-- A text of 32 hexadecimal digits. -/
def IsIdentifier (str : List UInt8) : Prop :=
  str.length = maxUnidString ∧ ∀ c ∈ str, (hexDigit c).isSome

/-- The text has the size of an identifier, each of its chunks begins with a digit, and some byte
of it is not a digit. -/
def StopsEarly (str : List UInt8) : Prop :=
  str.length = maxUnidString ∧ (∀ i < 4, StartsWithDigit (chunk str i)) ∧
    ∃ c ∈ str, hexDigit c = none

/-- An identifier is read, and nothing else; what was read is printed in upper case, and no other
identifier, up to case, reads as the same. -/
structure Exact (str : List UInt8) : Prop where
  accepts : (fromString str).isSome ↔ IsIdentifier str
  prints : ∀ u, fromString str = some u → u.toString = str.map upper
  distinct : ∀ other, IsIdentifier other → fromString other = fromString str →
    other.map upper = str.map upper

theorem isSome_part_iff {str : List UInt8} (h : str.length = 32) {i : ℕ} (hi : i < 4) :
    (Unid.part str i).isSome ↔ StartsWithDigit (chunk str i) := by
  have hpart : (Unid.part str i).isSome = (fromChars (chunk str i)).isSome := by
    unfold Unid.part
    cases fromChars (chunk str i) <;> rfl
  rw [hpart, fromChars_eq (Nat.le_of_eq (length_chunk h hi))]
  split <;> simp_all

theorem isSome_fromString_iff (str : List UInt8) : (fromString str).isSome ↔
    str.length = maxUnidString ∧ ∀ i < 4, StartsWithDigit (chunk str i) := by
  by_cases h : str.length = maxUnidString
  · have hparts := fun i (hi : i < 4) => @isSome_part_iff str h i hi
    constructor
    · intro hsome
      obtain ⟨u, hread⟩ := Option.isSome_iff_exists.mp hsome
      obtain ⟨h0, h1, h2, h3⟩ := (fromString_eq_some_iff h).mp hread
      refine ⟨h, fun i hi => (hparts i hi).mp ?_⟩
      interval_cases i
      · rw [h0]; rfl
      · rw [h1]; rfl
      · rw [h2]; rfl
      · rw [h3]; rfl
    · rintro ⟨-, hstart⟩
      have hpart := fun i (hi : i < 4) =>
        Option.isSome_iff_exists.mp ((hparts i hi).mpr (hstart i hi))
      obtain ⟨part0, h0⟩ := hpart 0 (by decide)
      obtain ⟨part1, h1⟩ := hpart 1 (by decide)
      obtain ⟨part2, h2⟩ := hpart 2 (by decide)
      obtain ⟨part3, h3⟩ := hpart 3 (by decide)
      have hread : fromString str = some ⟨#v[part1, part0], #v[part3, part2]⟩ :=
        (fromString_eq_some_iff h).mpr ⟨h0, h1, h2, h3⟩
      rw [hread]
      rfl
  · rw [fromString, if_pos h]
    simp [h]

/-- What is read of an identifier is printed as the identifier in upper case. -/
theorem toString_of_fromString {str : List UInt8} (hstr : IsIdentifier str) {u : Unid}
    (h : fromString str = some u) : u.toString = str.map upper := by
  obtain ⟨hlength, hdigits⟩ := hstr
  obtain ⟨h0, h1, h2, h3⟩ := (fromString_eq_some_iff hlength).mp h
  have hformat : ∀ {i : ℕ} {word : UInt32}, i < 4 → part str i = some word →
      format08X word = (chunk str i).map upper := by
    intro i word hi hpart
    obtain ⟨rest, hread⟩ := part_eq_some_iff.mp hpart
    refine format08X_of_fromChars (length_chunk hlength hi) (fun c hc => hdigits c ?_) hread
    exact List.mem_of_mem_drop (List.mem_of_mem_take hc)
  rw [toString, hformat (by decide) h0, hformat (by decide) h1, hformat (by decide) h2,
    hformat (by decide) h3, ← List.map_append, ← List.map_append, ← List.map_append,
    append_chunks hlength]

theorem IsIdentifier.isSome {str : List UInt8} (h : IsIdentifier str) :
    (fromString str).isSome := by
  refine (isSome_fromString_iff str).mpr ⟨h.1, fun i hi => ?_⟩
  have hlength := length_chunk h.1 hi
  cases hchunk : chunk str i with
  | nil => simp [hchunk] at hlength
  | cons c rest =>
      have hc : c ∈ chunk str i := by rw [hchunk]; exact List.mem_cons_self
      exact h.2 c (List.mem_of_mem_drop (List.mem_of_mem_take hc))

/-- Texts are read as they should be, just where no chunk is cut off behind its first digit. -/
theorem exact_iff (str : List UInt8) : Exact str ↔ ¬ StopsEarly str := by
  constructor
  · rintro h ⟨hlength, hstart, c, hc, hnone⟩
    have hsome := (isSome_fromString_iff str).mpr ⟨hlength, hstart⟩
    have hdigit := (h.accepts.mp hsome).2 c hc
    rw [hnone] at hdigit
    cases hdigit
  · intro hnot
    have haccepts : (fromString str).isSome → IsIdentifier str := by
      intro hsome
      obtain ⟨hlength, hstart⟩ := (isSome_fromString_iff str).mp hsome
      refine ⟨hlength, fun c hc => Option.isSome_iff_ne_none.mpr fun hnone => ?_⟩
      exact hnot ⟨hlength, hstart, c, hc, hnone⟩
    refine ⟨⟨haccepts, IsIdentifier.isSome⟩, fun u hread => ?_, fun other hother hsame => ?_⟩
    · exact toString_of_fromString (haccepts (by rw [hread]; rfl)) hread
    · obtain ⟨u, hread⟩ := Option.isSome_iff_exists.mp hother.isSome
      have hread' : fromString str = some u := hsame.symm.trans hread
      rw [← toString_of_fromString hother hread,
        ← toString_of_fromString (haccepts (by rw [hread']; rfl)) hread']

/-- In `1zzzzzzz` and 24 zeros, the first number ends behind its first digit. -/
theorem not_exact_cutOff : ¬ Exact (0x31 :: List.replicate 7 0x7A ++ List.replicate 24 0x30) := by
  intro h
  have hidentifier := h.accepts.mp (by decide)
  exact absurd (hidentifier.2 0x7A (by decide)) (by decide)

end Dmn.Unid
