import Dmn.Verification.DecoderBounds

/-! # The string of a text list

A stored list of texts is converted text by text, and the results are joined by `;`. -/

namespace Dmn.ValueImpl

open Exec Cursor
open NoteValue (Env itemBytes)

/-- `;`. -/
def separator : List UInt8 := Lmbcs.asciiBytes [';']

variable (env : Env) (formats : Formats)

/-! ## The output -/

/-- With a separator behind every text there is one too many, which is the last. -/
theorem flatMap_separator {texts : List (List UInt8)} (h : texts ≠ []) :
    texts.flatMap (fun text => text ++ separator) = separator.intercalate texts ++ separator := by
  induction texts with
  | nil => exact absurd rfl h
  | cons text texts ih =>
      cases texts with
      | nil => simp
      | cons next texts =>
          rw [List.flatMap_cons, ih (List.cons_ne_nil next texts), List.intercalate_cons_cons]
          simp only [List.append_assoc]

/-- The output without its last byte. -/
theorem take_output (texts : List (List UInt8)) :
    (texts.flatMap fun text => text ++ separator).take
        ((texts.flatMap fun text => text ++ separator).length - 1) =
      separator.intercalate texts := by
  by_cases h : texts = []
  · subst h
    rfl
  · have hlength : (separator.intercalate texts ++ separator).length - 1 =
        (separator.intercalate texts).length := by
      rw [List.length_append]
      rfl
    rw [flatMap_separator h, hlength, List.take_left]

/-! ## The loops -/

/-- Each text is converted on its own, and the cursor ends behind the last one. -/
theorem exec_readTexts {buffer rest : List UInt8} (hsmall : buffer.length < 2 ^ 64)
    (entries : TextList.Entries) {offset : ℕ} (hle : offset ≤ buffer.length)
    (h : buffer.drop offset = entries.flatten ++ rest) :
    exec (readTexts env (entries.map List.length)) (cursorAt buffer offset) =
      (.ok (entries.map (Lmbcs.toString env.codePage)),
        cursorAt buffer (offset + entries.flatten.length)) := by
  induction entries generalizing offset with
  | nil => rfl
  | cons text entries ih =>
      rw [List.flatten_cons, List.append_assoc] at h
      have hfit : offset + text.length ≤ buffer.length := by
        have hlength := congrArg List.length h
        rw [List.length_drop, List.length_append] at hlength
        omega
      have hload := Decoder.exec_loadValue buffer hle (n := text.length) (by omega)
      rw [if_pos hfit, h, List.take_left] at hload
      have hnext : buffer.drop (offset + text.length) = entries.flatten ++ rest := by
        rw [← List.drop_drop, h, List.drop_left]
      rw [List.map_cons, readTexts, exec_bind_of_ok hload,
        exec_bind_of_ok (Decoder.exec_advanceOffset_cursorAt buffer offset text.length),
        exec_bind_of_ok (ih hfit hnext), exec_pure, List.map_cons, List.flatten_cons,
        List.length_append, Nat.add_assoc]

/-- A list takes less memory than the 64-bit offsets can address. -/
theorem length_bytes_lt {entries : TextList.Entries} (hcount : entries.length < 2 ^ 16)
    (hsize : ∀ text ∈ entries, text.length < 2 ^ 16) :
    (TextList.bytes entries).length < 2 ^ 64 := by
  have hflatten : entries.flatten.length ≤ entries.length * 2 ^ 16 := by
    have hbound := Decoder.sum_lengthsAt_le (TextList.lengthBytes entries ++ []) 0 entries.length
    rwa [Decoder.lengthsAt, List.drop_zero, TextList.readLengths_lengthBytes entries [] hsize,
      ← List.length_flatten] at hbound
  have htotal := TextList.byteSize_eq entries
  rw [TextList.byteSize] at htotal
  omega

theorem exec_listAsString {entries : TextList.Entries} (hcount : entries.length < 2 ^ 16)
    (hsize : ∀ text ∈ entries, text.length < 2 ^ 16) : ∃ cs,
    exec (listAsString env) (cursorAt (TextList.bytes entries) 2) =
      (.ok (separator.intercalate (entries.map (Lmbcs.toString env.codePage))), cs) := by
  have hsmall := length_bytes_lt hcount hsize
  have htotal := TextList.byteSize_eq entries
  rw [TextList.byteSize] at htotal
  have hword : (integerBytes 2 entries.length).length = 2 := length_integerBytes 2 _
  have hcounted : (TextList.bytes entries).drop 2 = integerBytes 2 entries.length ++
      (TextList.lengthBytes entries ++ entries.flatten) :=
    List.drop_left' (length_integerBytes 2 _)
  have htable : (TextList.bytes entries).drop 4 =
      TextList.lengthBytes entries ++ entries.flatten := by
    rw [show 4 = 2 + 2 from rfl, ← List.drop_drop, hcounted, List.drop_left' hword]
  have htexts : (TextList.bytes entries).drop (4 + 2 * entries.length) =
      entries.flatten ++ [] := by
    rw [← List.drop_drop, htable, List.drop_left' (TextList.length_lengthBytes entries),
      List.append_nil]
  have hread := Decoder.exec_readWord (TextList.bytes entries) (show 2 + 2 < 2 ^ 64 by decide)
  have hlt : entries.length < 256 ^ 2 := hcount
  rw [if_pos (by omega), wordAt, hcounted, List.take_left' hword, littleEndian_integerBytes,
    Nat.mod_eq_of_lt hlt] at hread
  have hlengths := @Decoder.exec_readLengths_of_le (TextList.bytes entries) 4 entries.length
    (by omega) (by omega)
  rw [Decoder.lengthsAt, htable, TextList.readLengths_lengthBytes entries _ hsize] at hlengths
  have hvalues := exec_readTexts env hsmall entries (by omega) htexts
  refine ⟨cursorAt (TextList.bytes entries) (4 + 2 * entries.length + entries.flatten.length), ?_⟩
  rw [listAsString, exec_bind_of_ok hread, exec_bind_of_ok hlengths, exec_bind_of_ok hvalues,
    ← take_output]
  rfl

/-! ## `as_string` -/

/-- A stored list that can be locked is the join of its converted entries. -/
theorem asString_textList {σ : Type} {entries : TextList.Entries}
    (hcount : entries.length < 2 ^ 16) (hsize : ∀ text ∈ entries, text.length < 2 ^ 16)
    (s : Called σ) :
    (exec (asString env formats (TextList.bytes entries)) s).1 =
      if (env.native.status s.calls).isError then
        .error (.throws (.invalidHandle "Memory pointed to by handle is empty"))
      else .ok (some (separator.intercalate (entries.map (Lmbcs.toString env.codePage)))) := by
  have hbytes : TextList.bytes entries = itemBytes typeTextList
      (integerBytes 2 entries.length ++ (TextList.lengthBytes entries ++ entries.flatten)) := rfl
  have htotal := TextList.byteSize_eq entries
  rw [TextList.byteSize] at htotal
  obtain ⟨cs, hlist⟩ := exec_listAsString env hcount hsize
  have hdata : 2 ≤ (cursorAt (TextList.bytes entries) 2).buffer.length - 2 := by
    show 2 ≤ (TextList.bytes entries).length - 2
    omega
  have htype : exec (readInteger 2) (Cursor.make (some (TextList.bytes entries))) =
      (.ok typeTextList.toNat, cursorAt (TextList.bytes entries) 2) :=
    NoteValue.exec_readType typeTextList _
  have htext : exec (asStringOf env formats) (Cursor.make (some (TextList.bytes entries))) =
      (.ok (some (separator.intercalate (entries.map (Lmbcs.toString env.codePage)))), cs) := by
    rw [asStringOf, exec_bind_of_ok htype, exec_bind_of_ok (exec_get _)]
    rw [if_neg (by decide), if_neg (fun h => absurd h.1 (by decide)),
      if_neg (fun h => absurd h.1 (by decide)), if_pos ⟨rfl, hdata⟩, exec_bind_of_ok hlist]
    rfl
  rw [asString, if_neg (by omega), NoteValue.lock, exec_bind, exec_bind_of_ok (Native.exec_call s)]
  cases hlock : (env.native.status s.calls).isError with
  | true => rfl
  | false =>
      rw [if_neg Bool.false_ne_true, if_neg Bool.false_ne_true, exec_pure]
      exact congrArg Prod.fst (Native.exec_onCursor htext _)

/-- Three entries, of which the last two are empty. -/
theorem asString_textList_sample :
    (exec (asString NoteValue.sampleEnv Decoder.sampleFormats
        (TextList.bytes [[0x61], [], []])) (⟨0, ()⟩ : Called Unit)).1 =
      .ok (some (separator.intercalate
        ([[0x61], [], []].map (Lmbcs.toString NoteValue.sampleEnv.codePage)))) :=
  asString_textList NoteValue.sampleEnv Decoder.sampleFormats (by decide) (by decide) ⟨0, ()⟩

end Dmn.ValueImpl
