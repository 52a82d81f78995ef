import Dmn.Verification.NameBuffer

/-! # The separators of a path

Backslashes are replaced in the bytes of the LMBCS form, where the byte of a backslash may also be
a part of another character. -/

namespace Dmn.NameBuffer

open Exec CharCode

variable {codePage : CharCode Char UInt8} {cs : List Char}

/-! ## One character -/

/-- A slash for a backslash. -/
def slashed (c : Char) : Char := if c = '\\' then '/' else c

def slashedByte (c : UInt8) : UInt8 := if c = backslash then slash else c

/-- The byte of a backslash is part of another character. -/
def Hidden (codePage : CharCode Char UInt8) (c : Char) : Prop :=
  c ≠ '\\' ∧ backslash ∈ codePage.encode c

instance (codePage : CharCode Char UInt8) (c : Char) : Decidable (Hidden codePage c) := by
  unfold Hidden
  infer_instance

/-- A character whose bytes get a slash for a backslash is not read as itself. -/
def TellsApart (codePage : CharCode Char UInt8) : Prop :=
  ∀ c behind rest, Hidden codePage c →
    codePage.decode ((codePage.encode c).map slashedByte ++ behind) ≠ some (c, rest)

theorem encode_slashed (hascii : Lmbcs.KeepsAscii codePage) {c : Char}
    (hhidden : ¬ Hidden codePage c) :
    codePage.encode (slashed c) = (codePage.encode c).map slashedByte := by
  by_cases hc : c = '\\'
  · subst hc
    rw [hascii '\\' (by decide), slashed, if_pos rfl, hascii '/' (by decide)]
    decide
  · have hbytes : (codePage.encode c).map slashedByte = codePage.encode c := by
      refine (List.map_congr_left fun byte hbyte => ?_).trans (List.map_id _)
      have hne : byte ≠ backslash := fun heq => hhidden ⟨hc, heq ▸ hbyte⟩
      rw [slashedByte, if_neg hne, id]
    rw [slashed, if_neg hc, hbytes]

/-! ## A path -/

theorem encodeAll_slashed (hascii : Lmbcs.KeepsAscii codePage)
    (hhidden : ∀ c ∈ cs, ¬ Hidden codePage c) :
    codePage.encodeAll (cs.map slashed) = (codePage.encodeAll cs).map slashedByte := by
  induction cs with
  | nil => rfl
  | cons c cs ih =>
      have hrest := ih fun d hd => hhidden d (List.mem_cons_of_mem c hd)
      rw [List.map_cons, encodeAll_cons, encodeAll_cons, List.map_append, hrest,
        encode_slashed hascii (hhidden c List.mem_cons_self)]

/-- The characters that are read are those of the path with its separators replaced, only where no
backslash was hidden. -/
theorem not_hidden_of_reading (hascii : Lmbcs.KeepsAscii codePage) (htells : TellsApart codePage)
    {steps : ℕ}
    (h : cs.map slashed <+: codePage.reading steps ((codePage.encodeAll cs).map slashedByte)) :
    ∀ c ∈ cs, ¬ Hidden codePage c := by
  induction cs generalizing steps with
  | nil => exact List.forall_mem_nil _
  | cons c cs ih =>
      rw [encodeAll_cons, List.map_append, List.map_cons] at h
      cases steps with
      | zero => simp [reading] at h
      | succ steps =>
          have hfirst : ¬ Hidden codePage c := by
            intro hhidden
            rw [reading] at h
            cases hdecode : codePage.decode ((codePage.encode c).map slashedByte ++
                (codePage.encodeAll cs).map slashedByte) with
            | none => simp [hdecode] at h
            | some step =>
                obtain ⟨d, rest⟩ := step
                rw [hdecode] at h
                have hd : slashed c = d := (List.cons_prefix_cons.mp h).1
                rw [slashed, if_neg hhidden.1] at hd
                rw [← hd] at hdecode
                exact htells c _ rest hhidden hdecode
          rw [← encode_slashed hascii hfirst, reading, codePage.decode_encode] at h
          have hrest := ih (List.cons_prefix_cons.mp h).2
          exact List.forall_mem_cons.mpr ⟨hfirst, hrest⟩

/-- The UTF-8 form of a path with its separators replaced comes out, exactly where no backslash is
hidden in another character and the form fits twice the length of the path in LMBCS. -/
theorem toString_slashed_iff (hascii : Lmbcs.KeepsAscii codePage) (htells : TellsApart codePage)
    (hlength : (codePage.encodeAll cs).length < maxPath) :
    Lmbcs.toString codePage ((codePage.encodeAll cs).map slashedByte) =
        utf8.encodeAll (cs.map slashed) ↔
      (∀ c ∈ cs, ¬ Hidden codePage c) ∧
        (utf8.encodeAll (cs.map slashed)).length ≤ 2 * (codePage.encodeAll cs).length := by
  have hsize : maxPath = 256 := rfl
  have hmapped : ((codePage.encodeAll cs).map slashedByte).length =
      (codePage.encodeAll cs).length := List.length_map _
  have hmod : (codePage.encodeAll cs).length * 2 % 2 ^ 16 = 2 * (codePage.encodeAll cs).length := by
    omega
  constructor
  · intro h
    refine ⟨?_, ?_⟩
    · by_cases hnil : cs = []
      · subst hnil
        exact List.forall_mem_nil _
      have hne : (codePage.encodeAll cs).map slashedByte ≠ [] := by
        intro heq
        exact hnil (codePage.encodeAll_injective (List.map_eq_nil_iff.mp heq))
      rw [Lmbcs.toString, if_neg hne, Lmbcs.osTranslate, hmapped, Nat.mod_eq_of_lt (by omega),
        List.take_of_length_le (Nat.le_of_eq hmapped), translate_eq,
        utf8.encodeAll_injective.eq_iff] at h
      apply not_hidden_of_reading hascii htells
      rw [← h]
      exact utf8.fitting_prefix _ _
    · rw [← h, Lmbcs.toString]
      split
      · exact Nat.zero_le _
      · rw [Lmbcs.osTranslate, hmapped, hmod]
        exact length_translate_le _ _ _ _ _
  · rintro ⟨hhidden, hfits⟩
    rw [← encodeAll_slashed hascii hhidden] at hmapped ⊢
    rw [Lmbcs.toString_encodeAll codePage _ (by omega), hmapped, hmod,
      (utf8.fitting_eq_self_iff _ _).mpr hfits]

/-! ## `get_path` -/

variable {env : Env} {s : Called Names}

/-- The path that is returned is the native one with a slash for each backslash, exactly where no
backslash is hidden in another character and there is room for its UTF-8 form. -/
theorem getPath_iff (hascii : Lmbcs.KeepsAscii env.codePage) (htells : TellsApart env.codePage)
    (hready : Ready env .path s) (hpath : Reader.path.name s.value = env.codePage.encodeAll cs) :
    (exec (getPath env) s).1 = .ok (utf8.encodeAll (cs.map slashed)) ↔
      (∀ c ∈ cs, ¬ Hidden env.codePage c) ∧
        (utf8.encodeAll (cs.map slashed)).length ≤ 2 * (env.codePage.encodeAll cs).length := by
  have hlength : (Reader.path.name s.value).length < maxPath := hready.fits
  rw [hpath] at hlength
  have hexec : (exec (getPath env) s).1 =
      .ok (Lmbcs.toString env.codePage ((env.codePage.encodeAll cs).map slashedByte)) := by
    rw [getPath, exec_bind_of_ok (exec_rawPath hready), hpath]
    rfl
  rw [hexec, Except.ok.injEq, toString_slashed_iff hascii htells hlength]

/-! ## A character of the Unicode group -/

/-- The control character that starts a character of the Unicode group. -/
def unicodeGroup : Char := Char.ofNat 0x14

/-- A code page that has `Ŝ`, which is U+015C, in its Unicode group. That group has the control
character U+0014 too, and every other character is that of UTF-8. -/
def codePageUnicode : CharCode Char UInt8 where
  encode c :=
    if c = 'Ŝ' then [0x14, 0x01, 0x5C]
    else if c = unicodeGroup then [0x14, 0xF6, 0x14]
    else utf8.encode c
  decode
    | 0x14 :: high :: low :: rest =>
        if high = 0x01 ∧ low = 0x5C then some ('Ŝ', rest)
        else if high = 0xF6 ∧ low = 0x14 then some (unicodeGroup, rest)
        else none
    | bytes => utf8.decode bytes
  encode_ne_nil c := by
    split_ifs
    · simp
    · simp
    · exact utf8.encode_ne_nil c
  decode_nil := utf8.decode_nil
  decode_encode c rest := by
    by_cases hc : c = 'Ŝ'
    · simp [hc]
    by_cases hgroup : c = unicodeGroup
    · simp [hgroup, show unicodeGroup ≠ 'Ŝ' by decide]
    rw [if_neg hc, if_neg hgroup]
    have hdecode := utf8.decode_encode c rest
    split
    · next high low tail heq =>
      -- no other character begins with the control character
      have hcontrol := utf8.decode_encode unicodeGroup (high :: low :: tail)
      have hbytes : utf8.encode unicodeGroup ++ high :: low :: tail =
          utf8.encode c ++ rest := heq.symm
      rw [hbytes, hdecode] at hcontrol
      exact absurd (Prod.mk.inj (Option.some.inj hcontrol)).1 hgroup
    · exact hdecode

theorem keepsAscii_codePageUnicode : Lmbcs.KeepsAscii codePageUnicode := by
  intro c hc
  have hne : c ≠ 'Ŝ' := by
    rintro rfl
    exact absurd hc (by decide)
  have hgroup : c ≠ unicodeGroup := by
    rintro rfl
    exact absurd hc (by decide)
  show (if c = 'Ŝ' then _ else if c = unicodeGroup then _ else utf8.encode c) = _
  rw [if_neg hne, if_neg hgroup, Lmbcs.keepsAscii_utf8 c hc]

theorem tellsApart_codePageUnicode : TellsApart codePageUnicode := by
  rintro c behind rest ⟨hc, hmem⟩
  have hencode : codePageUnicode.encode c = if c = 'Ŝ' then [0x14, 0x01, 0x5C]
    else if c = unicodeGroup then [0x14, 0xF6, 0x14] else utf8.encode c := rfl
  rw [hencode] at hmem ⊢
  split_ifs at hmem ⊢ with hcircumflex hgroup
  · simp [codePageUnicode, slashedByte, backslash, slash]
  · exact absurd hmem (by decide)
  · have hbyte := Lmbcs.utf8_encode_of_mem (by decide) hmem
    have hback : utf8.encode '\\' = [backslash] := rfl
    exact absurd (utf8.encode_injective (hbyte.trans hback.symm)) hc

def unicodeEnv : Env := { sampleEnv with codePage := codePageUnicode }

/-- The path `a\b`. -/
def plainPath : Called Names := ⟨0, ⟨[], [0x61, 0x5C, 0x62], fun _ => [], []⟩⟩

/-- The path `Ŝ`. -/
def hiddenPath : Called Names := ⟨0, ⟨[], [0x14, 0x01, 0x5C], fun _ => [], []⟩⟩

theorem getPath_plainPath :
    (exec (getPath unicodeEnv) plainPath).1 = .ok (utf8.encodeAll (['a', '\\', 'b'].map slashed)) ↔
      (∀ c ∈ ['a', '\\', 'b'], ¬ Hidden codePageUnicode c) ∧
        (utf8.encodeAll (['a', '\\', 'b'].map slashed)).length ≤
          2 * (codePageUnicode.encodeAll ['a', '\\', 'b']).length :=
  getPath_iff keepsAscii_codePageUnicode tellsApart_codePageUnicode ⟨rfl, by decide, nofun⟩
    (by decide)

/-- The last byte of `Ŝ` becomes a slash, and what is left is no character. -/
theorem getPath_hiddenPath : ¬ ∀ (env : Env) (s : Called Names) (cs : List Char),
    Lmbcs.KeepsAscii env.codePage → Ready env .path s →
      Reader.path.name s.value = env.codePage.encodeAll cs →
        (exec (getPath env) s).1 = .ok (utf8.encodeAll (cs.map slashed)) := by
  intro h
  have hready : Ready unicodeEnv .path hiddenPath := ⟨rfl, by decide, nofun⟩
  have hpath := h unicodeEnv hiddenPath ['Ŝ'] keepsAscii_codePageUnicode hready (by decide)
  rw [getPath, exec_bind_of_ok (exec_rawPath hready)] at hpath
  exact absurd (Except.ok.inj hpath) (by decide)

end Dmn.NameBuffer
