import Dmn.Verification.Lmbcs.RoundTrip

/-! # Texts with the same bytes in LMBCS and in UTF-8

Where the two forms of a text begin to differ, one of them is ahead of the other, and the bytes that
it is ahead by cannot be caught up with. -/

namespace Dmn.Lmbcs

open CharCode

/-! ## UTF-8 -/

theorem utf8_encode_of_lt {c : Char} (h : c.toNat < 0x80) :
    utf8.encode c = [UInt8.ofNat c.toNat] := by
  have hbound : c.val.toNat ≤ 0x7f := Nat.le_of_lt_succ h
  simp only [utf8, String.utf8EncodeChar, if_pos hbound]
  rfl

theorem two_le_length_utf8_encode {c : Char} (h : 0x80 ≤ c.toNat) :
    2 ≤ (utf8.encode c).length := by
  have hbound : ¬ c.val.toNat ≤ 0x7f := Nat.not_le.mpr h
  simp only [utf8, String.utf8EncodeChar, if_neg hbound]
  split_ifs <;> simp

/-- Behind ASCII every byte has its high bit set. -/
theorem le_of_mem_utf8_encode {c : Char} (h : 0x80 ≤ c.toNat) {byte : UInt8}
    (hmem : byte ∈ utf8.encode c) : 0x80 ≤ byte.toNat := by
  rcases Nat.lt_or_ge byte.toNat 128 with hlt | hge
  · have hlength := two_le_length_utf8_encode h
    rw [utf8_encode_of_mem hlt hmem] at hlength
    exact absurd hlength (Nat.not_succ_le_self 1)
  · exact hge

/-! ## LMBCS -/

/-- What LMBCS makes of a character: one of ASCII stays as it is, or is a control character in the
group of these; any other one is a single byte with its high bit set, or stands behind the byte of
its group. -/
inductive Form (codePage : CharCode Char UInt8) (c : Char) : Prop where
  | ascii (hc : c.toNat < 0x80) (hencode : codePage.encode c = [UInt8.ofNat c.toNat])
  | control (group code : UInt8) (hc : c.toNat < 0x20) (hgroup : group.toNat < 0x20)
      (hcode : 0x20 ≤ code.toNat ∧ code.toNat < 0x80) (hencode : codePage.encode c = [group, code])
  | single (byte : UInt8) (hc : 0x80 ≤ c.toNat) (hbyte : 0x80 ≤ byte.toNat)
      (hencode : codePage.encode c = [byte])
  | grouped (group : UInt8) (rest : List UInt8) (hc : 0x80 ≤ c.toNat) (hgroup : group.toNat < 0x20)
      (hencode : codePage.encode c = group :: rest)

variable {codePage : CharCode Char UInt8} (hforms : ∀ c, Form codePage c)
include hforms

/-- UTF-8 is ahead by bytes with their high bit set. Only single bytes catch up with these, and the
same characters have two bytes and more in UTF-8. -/
theorem encodeAll_ne_append {pending : List UInt8} (hne : pending ≠ [])
    (hpending : ∀ byte ∈ pending, 0x80 ≤ byte.toNat) (cs : List Char) :
    codePage.encodeAll cs ≠ pending ++ utf8.encodeAll cs := by
  induction cs generalizing pending with
  | nil => simpa using hne.symm
  | cons c cs ih =>
      obtain ⟨first, pending, rfl⟩ := List.exists_cons_of_ne_nil hne
      have hfirst : 0x80 ≤ first.toNat := hpending first List.mem_cons_self
      intro heq
      rw [encodeAll_cons, encodeAll_cons, List.cons_append] at heq
      cases hforms c with
      | ascii hc hencode =>
          rw [hencode] at heq
          have hhead : UInt8.ofNat c.toNat = first := (List.cons.inj heq).1
          rw [← hhead, UInt8.toNat_ofNat_of_lt' (Nat.lt_trans hc (by decide))] at hfirst
          omega
      | control group code hc hgroup hcode hencode =>
          rw [hencode] at heq
          have hhead : group = first := (List.cons.inj heq).1
          rw [hhead] at hgroup
          omega
      | single byte hc hbyte hencode =>
          rw [hencode] at heq
          have htail : codePage.encodeAll cs = (pending ++ utf8.encode c) ++ utf8.encodeAll cs := by
            rw [List.append_assoc]
            exact (List.cons.inj heq).2
          refine ih ?_ ?_ htail
          · simp [utf8.encode_ne_nil c]
          · intro other hother
            rcases List.mem_append.mp hother with hold | hnew
            · exact hpending other (List.mem_cons_of_mem _ hold)
            · exact le_of_mem_utf8_encode hc hnew
      | grouped group rest hc hgroup hencode =>
          rw [hencode] at heq
          have hhead : group = first := (List.cons.inj heq).1
          rw [hhead] at hgroup
          omega

/-- LMBCS is ahead by the code of a control character. It stays so as long as the same character of
ASCII follows, and every other one differs. -/
theorem cons_encodeAll_ne {code : UInt8} (hcode : 0x20 ≤ code.toNat ∧ code.toNat < 0x80)
    (cs : List Char) : code :: codePage.encodeAll cs ≠ utf8.encodeAll cs := by
  induction cs with
  | nil => exact List.cons_ne_nil _ _
  | cons c cs ih =>
      intro heq
      rw [encodeAll_cons, encodeAll_cons] at heq
      rcases Nat.lt_or_ge c.toNat 0x80 with hc | hc
      · rw [utf8_encode_of_lt hc] at heq
        obtain ⟨hhead, htail⟩ := List.cons.inj heq
        have hvalue : code.toNat = c.toNat := by
          rw [hhead, UInt8.toNat_ofNat_of_lt' (Nat.lt_trans hc (by decide))]
        cases hforms c with
        | ascii _ hencode =>
            rw [hencode, ← hhead] at htail
            exact ih htail
        | control _ _ hcontrol => omega
        | single _ hlarge => omega
        | grouped _ _ hlarge => omega
      · obtain ⟨first, rest, hfirst⟩ := List.exists_cons_of_ne_nil (utf8.encode_ne_nil c)
        have hlarge := le_of_mem_utf8_encode hc (hfirst ▸ List.mem_cons_self : first ∈ utf8.encode c)
        rw [hfirst] at heq
        rw [← (List.cons.inj heq).1] at hlarge
        omega

/-- The two forms of a text are the same where they are so for each of its characters. -/
theorem encodeAll_eq_utf8_iff (cs : List Char) : codePage.encodeAll cs = utf8.encodeAll cs ↔
    ∀ c ∈ cs, codePage.encode c = utf8.encode c := by
  constructor
  · intro heq
    induction cs with
    | nil => simp
    | cons c cs ih =>
        rw [encodeAll_cons, encodeAll_cons] at heq
        cases hforms c with
        | ascii hc hencode =>
            have hsame : codePage.encode c = utf8.encode c := by
              rw [hencode, utf8_encode_of_lt hc]
            rw [hsame, List.append_cancel_left_eq] at heq
            exact List.forall_mem_cons.mpr ⟨hsame, ih heq⟩
        | control group code hc hgroup hcode hencode =>
            rw [hencode, utf8_encode_of_lt (by omega)] at heq
            exact absurd (List.cons.inj heq).2 (cons_encodeAll_ne hforms hcode cs)
        | single byte hc hbyte hencode =>
            obtain ⟨first, rest, hfirst⟩ := List.exists_cons_of_ne_nil (utf8.encode_ne_nil c)
            have hlength := two_le_length_utf8_encode hc
            have hrest : rest ≠ [] := by
              rintro rfl
              rw [hfirst] at hlength
              exact Nat.not_succ_le_self 1 hlength
            rw [hencode, hfirst] at heq
            refine absurd (List.cons.inj heq).2 (encodeAll_ne_append hforms hrest ?_ cs)
            intro other hother
            exact le_of_mem_utf8_encode hc (by rw [hfirst]; exact List.mem_cons_of_mem _ hother)
        | grouped group rest hc hgroup hencode =>
            obtain ⟨first, tail, hfirst⟩ := List.exists_cons_of_ne_nil (utf8.encode_ne_nil c)
            have hlarge := le_of_mem_utf8_encode hc
              (hfirst ▸ List.mem_cons_self : first ∈ utf8.encode c)
            rw [hencode, hfirst] at heq
            rw [← (List.cons.inj heq).1] at hlarge
            omega
  · exact fun hsame => List.flatMap_congr hsame

omit hforms

/-! ## A code page of this kind -/

/-- Characters of ASCII that are not in the group of control characters. -/
def plainAscii (c : Char) : Bool := 0x20 ≤ c.toNat || c.toNat ∈ [0x00, 0x09, 0x0A, 0x0D]

theorem toNat_of_plainAscii {c : Char} (h : plainAscii c = true) :
    c.toNat ≠ 0x0F ∧ c.toNat ≠ 0x14 := by
  constructor <;> intro heq <;> simp [plainAscii, heq] at h

theorem toNat_lt_of_not_plainAscii {c : Char} (h : ¬ plainAscii c = true) : c.toNat < 0x20 := by
  simp only [plainAscii, Bool.or_eq_true, decide_eq_true_eq] at h
  omega

theorem toNat_controlCode {c : Char} (h : c.toNat < 0x20) :
    (UInt8.ofNat (0x20 + c.toNat)).toNat = 0x20 + c.toNat :=
  UInt8.toNat_ofNat_of_lt' (Nat.lt_of_le_of_lt (Nat.add_le_add_left h.le _) (by decide))

/-- `ä` is a single byte, and all other characters behind ASCII stand in one group. -/
def codePageGrouped : CharCode Char UInt8 where
  encode c :=
    if c.toNat < 0x80 then
      if plainAscii c then [UInt8.ofNat c.toNat] else [0x0F, UInt8.ofNat (0x20 + c.toNat)]
    else if c = 'ä' then [0x84]
    else 0x14 :: utf8.encode c
  decode bytes := do
    let byte ← bytes.head?
    let rest := bytes.tail
    if byte.toNat = 0x0F then
      rest.head?.map fun code => (Char.ofNat (code.toNat - 0x20), rest.tail)
    else if byte.toNat = 0x14 then utf8.decode rest
    else if byte.toNat = 0x84 then some ('ä', rest)
    else some (Char.ofNat byte.toNat, rest)
  encode_ne_nil c := by split_ifs <;> simp
  decode_nil := rfl
  decode_encode c rest := by
    by_cases hc : c.toNat < 0x80
    · rw [if_pos hc]
      by_cases hplain : plainAscii c = true
      · have hbyte : (UInt8.ofNat c.toNat).toNat = c.toNat :=
          UInt8.toNat_ofNat_of_lt' (Nat.lt_trans hc (by decide))
        obtain ⟨hcontrol, hgroup⟩ := toNat_of_plainAscii hplain
        rw [if_pos hplain, List.singleton_append]
        simp only [List.head?_cons, List.tail_cons, Option.bind_eq_bind, Option.bind_some, hbyte,
          hcontrol, hgroup, if_false, Char.ofNat_toNat]
        rw [if_neg (by omega)]
      · have hlt := toNat_lt_of_not_plainAscii hplain
        rw [if_neg hplain]
        simp only [List.cons_append, List.nil_append, List.head?_cons, List.tail_cons,
          Option.map_some, toNat_controlCode hlt, Nat.add_sub_cancel_left, Char.ofNat_toNat]
        rfl
    · rw [if_neg hc]
      by_cases ha : c = 'ä'
      · simp [ha]
      · simp [ha, utf8.decode_encode]

theorem forms_codePageGrouped (c : Char) : Form codePageGrouped c := by
  by_cases hc : c.toNat < 0x80
  · by_cases hplain : plainAscii c = true
    · exact .ascii hc (by simp [codePageGrouped, hc, hplain])
    · have hlt := toNat_lt_of_not_plainAscii hplain
      have hcode := toNat_controlCode hlt
      have hencode : codePageGrouped.encode c = [0x0F, UInt8.ofNat (0x20 + c.toNat)] :=
        (if_pos hc).trans (if_neg hplain)
      exact .control 0x0F _ hlt (by decide) (by omega) hencode
  · by_cases ha : c = 'ä'
    · exact .single 0x84 (by omega) (by decide) (by simp [codePageGrouped, ha])
    · exact .grouped 0x14 (utf8.encode c) (by omega) (by decide) (by simp [codePageGrouped, hc, ha])

end Dmn.Lmbcs
