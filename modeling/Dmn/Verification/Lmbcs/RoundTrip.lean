import Dmn.Model.Lmbcs

/-! # Round trip of the LMBCS conversions

Both conversions reserve two bytes for each input byte and pass their lengths as 16-bit
words, so a text survives exactly when it fits both buffers as the translator sees them. -/

namespace Dmn.Lmbcs

open CharCode

/-! ## One conversion -/

theorem osTranslate_encodeAll (src dst : CharCode Char UInt8) (cs : List Char) (outLength : ℕ)
    (h : (src.encodeAll cs).length < 2 ^ 16) :
    osTranslate src dst (src.encodeAll cs) (src.encodeAll cs).length outLength =
      dst.encodeAll (dst.fitting (outLength % 2 ^ 16) cs) := by
  have hsteps := src.length_le_length_encodeAll cs
  rw [osTranslate, Nat.mod_eq_of_lt h, List.take_length,
    translate_encodeAll src dst cs _ _ (by omega)]

variable (codePage : CharCode Char UInt8)

theorem fromString_encodeAll (s : List Char) (h : (utf8.encodeAll s).length < 2 ^ 16) :
    fromString codePage (utf8.encodeAll s) = codePage.encodeAll
      (codePage.fitting ((utf8.encodeAll s).length * 2 % 2 ^ 16) s) := by
  unfold fromString
  split
  · rename_i hnil
    have hs : s = [] := utf8.encodeAll_injective hnil
    subst hs
    rfl
  · exact osTranslate_encodeAll utf8 codePage s _ h

theorem toString_encodeAll (s : List Char) (h : (codePage.encodeAll s).length < 2 ^ 16) :
    toString codePage (codePage.encodeAll s) = utf8.encodeAll
      (utf8.fitting ((codePage.encodeAll s).length * 2 % 2 ^ 16) s) := by
  unfold toString
  split
  · rename_i hnil
    have hs : s = [] := codePage.encodeAll_injective hnil
    subst hs
    rfl
  · exact osTranslate_encodeAll codePage utf8 s _ h

theorem strict_utf8 : utf8.Strict := by
  intro input c rest h
  simp only [utf8] at h ⊢
  split at h
  · rename_i d hdecode
    cases h
    obtain ⟨tail, htail⟩ := ByteArray.exists_of_utf8DecodeChar?_eq_some hdecode
    have hinput : input = String.utf8EncodeChar c ++ tail.data.toList := by
      simpa using congrArg (fun bytes => bytes.data.toList) htail
    have hsize : c.utf8Size = (String.utf8EncodeChar c).length :=
      (String.length_utf8EncodeChar c).symm
    rw [hinput, hsize, List.drop_left]
  · cases h

/-- Whatever comes in, the result is the LMBCS form of characters that the input begins with. -/
theorem exists_fromString_eq (str : List UInt8) :
    ∃ cs, utf8.encodeAll cs <+: str.take (str.length % 2 ^ 16) ∧
      fromString codePage str = codePage.encodeAll cs := by
  unfold fromString
  split
  · exact ⟨[], List.nil_prefix, rfl⟩
  · exact exists_translate_eq utf8 codePage strict_utf8 (str.length % 2 ^ 16 + 1)
      (str.take (str.length % 2 ^ 16)) (str.length * 2 % 2 ^ 16)

/-- The form of a whole text comes out exactly where its length is a 16-bit word and the form fits
twice that length, taken as one. -/
theorem fromString_eq_iff (s : List Char) :
    fromString codePage (utf8.encodeAll s) = codePage.encodeAll s ↔
      (utf8.encodeAll s).length < 2 ^ 16 ∧
      (codePage.encodeAll s).length ≤ (utf8.encodeAll s).length * 2 % 2 ^ 16 := by
  constructor
  · intro h
    obtain ⟨cs, hcs, hsent⟩ := exists_fromString_eq codePage (utf8.encodeAll s)
    have hwhole : cs = s := codePage.encodeAll_injective (hsent.symm.trans h)
    rw [hwhole] at hcs
    have hlength : (utf8.encodeAll s).length < 2 ^ 16 := by
      have hle := hcs.length_le
      rw [List.length_take] at hle
      have hmod := Nat.mod_lt (utf8.encodeAll s).length (show 0 < 2 ^ 16 by decide)
      omega
    rw [fromString_encodeAll codePage s hlength] at h
    exact ⟨hlength, (codePage.fitting_eq_self_iff _ s).mp (codePage.encodeAll_injective h)⟩
  · rintro ⟨hlength, hfit⟩
    rw [fromString_encodeAll codePage s hlength, (codePage.fitting_eq_self_iff _ s).mpr hfit]

/-- Whatever comes in, less than `2 ^ 16` bytes come out. -/
theorem length_osTranslate_lt (src dst : CharCode Char UInt8) (input : List UInt8)
    (inLength outLength : ℕ) : (osTranslate src dst input inLength outLength).length < 2 ^ 16 := by
  have hlimit := length_translate_le src dst (inLength % 2 ^ 16 + 1)
    (input.take (inLength % 2 ^ 16)) (outLength % 2 ^ 16)
  exact lt_of_le_of_lt hlimit (Nat.mod_lt _ (by decide))

theorem length_toString_lt (str : List UInt8) : (toString codePage str).length < 2 ^ 16 := by
  unfold toString
  split
  · simp
  · exact length_osTranslate_lt codePage utf8 str _ _

theorem length_fromString_lt (str : List UInt8) : (fromString codePage str).length < 2 ^ 16 := by
  unfold fromString
  split
  · simp
  · exact length_osTranslate_lt utf8 codePage str _ _

/-! ## Printable ASCII -/

/-- The printable characters of ASCII. -/
def Printable (c : Char) : Prop := 0x20 ≤ c.toNat ∧ c.toNat < 0x7F

instance (c : Char) : Decidable (Printable c) := by unfold Printable; infer_instance

/-- A code page with ASCII at its usual place. -/
def KeepsAscii : Prop := ∀ c, Printable c → codePage.encode c = [UInt8.ofNat c.toNat]

theorem keepsAscii_utf8 : KeepsAscii utf8 := by
  intro c hc
  have hbound : c.val.toNat ≤ 0x7f := Nat.le_of_lt hc.2
  simp only [utf8, String.utf8EncodeChar, if_pos hbound]
  rfl

/-- A byte of ASCII stands for itself. -/
theorem utf8_encode_of_mem {c : Char} {byte : UInt8} (hbyte : byte.toNat < 128)
    (hmem : byte ∈ utf8.encode c) : utf8.encode c = [byte] := by
  have hhigh : ∀ n : ℕ, 128 ≤ n → n < 256 → byte ≠ UInt8.ofNat n := by
    intro n hle hlt h
    rw [h, UInt8.toNat_ofNat_of_lt' hlt] at hbyte
    omega
  simp only [utf8, String.utf8EncodeChar] at hmem ⊢
  split_ifs at hmem ⊢ with hone htwo hthree
  · rw [List.mem_singleton.mp hmem]
  -- in the longer forms every byte has its high bit set
  all_goals exact absurd hmem (by
    simp (disch := omega) only [List.mem_cons, List.not_mem_nil, hhigh, or_self, not_false_eq_true])

variable {codePage}

theorem KeepsAscii.encodeAll (h : KeepsAscii codePage) {text : List Char}
    (htext : ∀ c ∈ text, Printable c) : codePage.encodeAll text = asciiBytes text := by
  induction text with
  | nil => rfl
  | cons c text ih =>
      have hrest : ∀ c ∈ text, Printable c := fun d hd => htext d (by simp [hd])
      rw [encodeAll_cons, h c (htext c (by simp)), ih hrest]
      rfl

/-- A printable text is converted to itself. -/
theorem KeepsAscii.fromString_asciiBytes (h : KeepsAscii codePage) {text : List Char}
    (htext : ∀ c ∈ text, Printable c) (hlength : text.length < 2 ^ 15) :
    fromString codePage (asciiBytes text) = asciiBytes text := by
  have hutf8 := keepsAscii_utf8.encodeAll htext
  have hbytes : (asciiBytes text).length = text.length := List.length_map _
  have hfit : (codePage.encodeAll text).length ≤
      (utf8.encodeAll text).length * 2 % 2 ^ 16 := by
    rw [hutf8, h.encodeAll htext, hbytes]
    omega
  have hwhole : (utf8.encodeAll text).length < 2 ^ 16 := by
    rw [hutf8, hbytes]
    omega
  have hconverted := (fromString_eq_iff codePage text).mpr ⟨hwhole, hfit⟩
  rw [hutf8, h.encodeAll htext] at hconverted
  exact hconverted

variable (codePage)

/-! ## Both conversions -/

/-- The characters of a text that survive both conversions. -/
def survivors (s : List Char) : List Char :=
  let sent := codePage.fitting ((utf8.encodeAll s).length * 2 % 2 ^ 16) s
  utf8.fitting ((codePage.encodeAll sent).length * 2 % 2 ^ 16) sent

theorem toString_fromString (s : List Char) (h : (utf8.encodeAll s).length < 2 ^ 16) :
    toString codePage (fromString codePage (utf8.encodeAll s)) =
      utf8.encodeAll (survivors codePage s) := by
  have hroom := codePage.length_encodeAll_fitting_le
    ((utf8.encodeAll s).length * 2 % 2 ^ 16) s
  have hsent : (codePage.encodeAll (codePage.fitting
      ((utf8.encodeAll s).length * 2 % 2 ^ 16) s)).length < 2 ^ 16 :=
    lt_of_le_of_lt hroom (Nat.mod_lt _ (by decide))
  rw [fromString_encodeAll codePage s h, toString_encodeAll codePage _ hsent]
  rfl

theorem survivors_eq_self_iff (s : List Char) :
    survivors codePage s = s ↔
      (codePage.encodeAll s).length ≤ (utf8.encodeAll s).length * 2 % 2 ^ 16 ∧
      (utf8.encodeAll s).length ≤ (codePage.encodeAll s).length * 2 % 2 ^ 16 := by
  constructor
  · intro h
    have hsent : codePage.fitting ((utf8.encodeAll s).length * 2 % 2 ^ 16) s = s := by
      apply (codePage.fitting_prefix _ s).eq_of_length_le
      calc
        s.length = (survivors codePage s).length := by rw [h]
        _ ≤ _ := (utf8.fitting_prefix _ _).length_le
    refine ⟨(codePage.fitting_eq_self_iff _ s).mp hsent, ?_⟩
    rw [survivors, hsent] at h
    exact (utf8.fitting_eq_self_iff _ s).mp h
  · rintro ⟨hsent, hback⟩
    rw [survivors, (codePage.fitting_eq_self_iff _ s).mpr hsent]
    exact (utf8.fitting_eq_self_iff _ s).mpr hback

/-- A text that comes back is short, and all of it survives. -/
theorem survivors_of_toString_fromString {s : List Char}
    (h : toString codePage (fromString codePage (utf8.encodeAll s)) = utf8.encodeAll s) :
    (utf8.encodeAll s).length < 2 ^ 16 ∧ survivors codePage s = s := by
  have hlength : (utf8.encodeAll s).length < 2 ^ 16 := by
    rw [← h]
    exact length_toString_lt codePage _
  rw [toString_fromString codePage s hlength] at h
  exact ⟨hlength, utf8.encodeAll_injective h⟩

theorem fromString_of_toString_fromString {s : List Char}
    (h : toString codePage (fromString codePage (utf8.encodeAll s)) = utf8.encodeAll s) :
    fromString codePage (utf8.encodeAll s) = codePage.encodeAll s := by
  obtain ⟨hlength, hsurvivors⟩ := survivors_of_toString_fromString codePage h
  have hfit := ((survivors_eq_self_iff codePage s).mp hsurvivors).1
  exact (fromString_eq_iff codePage s).mpr ⟨hlength, hfit⟩

/-- A text comes back unchanged exactly when its UTF-8 form has less than `2 ^ 16` bytes
and each of its two forms fits twice the length of the other, taken as a 16-bit word. -/
theorem toString_fromString_eq_iff (s : List Char) :
    toString codePage (fromString codePage (utf8.encodeAll s)) = utf8.encodeAll s ↔
      (utf8.encodeAll s).length < 2 ^ 16 ∧
      (codePage.encodeAll s).length ≤ (utf8.encodeAll s).length * 2 % 2 ^ 16 ∧
      (utf8.encodeAll s).length ≤ (codePage.encodeAll s).length * 2 % 2 ^ 16 := by
  constructor
  · intro h
    obtain ⟨hlength, hsurvivors⟩ := survivors_of_toString_fromString codePage h
    exact ⟨hlength, (survivors_eq_self_iff codePage s).mp hsurvivors⟩
  · rintro ⟨hlength, hfit⟩
    rw [toString_fromString codePage s hlength, (survivors_eq_self_iff codePage s).mpr hfit]

/-- A code page with the box-drawing character `─` at `C4`, as code page 850 has it.
Every other character stands in a group of its own. -/
def codePage850 : CharCode Char UInt8 where
  encode c := if c = '─' then [0xC4] else 0x14 :: utf8.encode c
  decode
    | [] => none
    | byte :: rest =>
        if byte = 0xC4 then some ('─', rest) else if byte = 0x14 then utf8.decode rest else none
  encode_ne_nil c := by split <;> simp
  decode_nil := rfl
  decode_encode c rest := by
    by_cases h : c = '─'
    · simp [h]
    · simp [h, utf8.decode_encode]

/-- The one byte of `─` is given a buffer of two bytes for its three bytes of UTF-8. -/
theorem toString_fromString_box_drawing :
    toString codePage850 (fromString codePage850 (utf8.encodeAll ['─'])) = [] ∧
      utf8.encodeAll ['─'] ≠ [] := by
  refine ⟨?_, by decide⟩
  rw [toString_fromString codePage850 ['─'] (by decide)]
  decide

end Dmn.Lmbcs
