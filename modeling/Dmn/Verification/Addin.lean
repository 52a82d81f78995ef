import Dmn.Library.Run
import Dmn.Library.Terminated
import Dmn.Model.Addin
import Dmn.Verification.Lmbcs.RoundTrip

/-! # Log messages as formats

Percent signs are doubled in UTF-8, where the byte of one is never part of another character. In the
LMBCS form that is made of it, it may be. -/

namespace Dmn.Addin

open CharCode Escaping

variable {codePage : CharCode Char UInt8}

/-! ## Escaped texts -/

theorem encode_percent (hascii : Lmbcs.KeepsAscii codePage) : codePage.encode '%' = [percent] :=
  hascii '%' (by decide)

theorem clear_utf8 (cs : List Char) : Clear utf8 '%' percent cs := by
  intro c _ hne hmem
  have hbyte : utf8.encode c = [percent] := Lmbcs.utf8_encode_of_mem (by decide) hmem
  rw [← encode_percent Lmbcs.keepsAscii_utf8] at hbyte
  exact hne (utf8.encode_injective hbyte)

theorem doubled_utf8 (cs : List Char) :
    doubled percent (utf8.encodeAll cs) = utf8.encodeAll (doubled '%' cs) :=
  (encodeAll_doubled (encode_percent Lmbcs.keepsAscii_utf8) (clear_utf8 cs)).symm

/-- The escaped text is translated as a whole: its length is a 16-bit word, and its LMBCS form fits
twice that length, taken as one. -/
def Fits (codePage : CharCode Char UInt8) (cs : List Char) : Prop :=
  (utf8.encodeAll cs).length + cs.count '%' < 2 ^ 16 ∧
    (codePage.encodeAll cs).length + cs.count '%' ≤
      ((utf8.encodeAll cs).length + cs.count '%') * 2 % 2 ^ 16

instance (codePage : CharCode Char UInt8) (cs : List Char) : Decidable (Fits codePage cs) := by
  unfold Fits
  infer_instance

theorem toEscapedLmbcs_eq_iff (hascii : Lmbcs.KeepsAscii codePage) (cs : List Char) :
    toEscapedLmbcs codePage (utf8.encodeAll cs) = codePage.encodeAll (doubled '%' cs) ↔
      Fits codePage cs := by
  rw [toEscapedLmbcs, doubled_utf8, Lmbcs.fromString_eq_iff,
    length_encodeAll_doubled (encode_percent Lmbcs.keepsAscii_utf8),
    length_encodeAll_doubled (encode_percent hascii)]
  rfl

/-- The result is the form of a beginning of the escaped text. -/
theorem exists_toEscapedLmbcs_eq (hascii : Lmbcs.KeepsAscii codePage) (cs : List Char) :
    ∃ sent, sent <+: doubled '%' cs ∧
      toEscapedLmbcs codePage (utf8.encodeAll cs) = codePage.encodeAll sent ∧
      (sent = doubled '%' cs ↔ Fits codePage cs) := by
  obtain ⟨sent, hsent, heq⟩ :=
    Lmbcs.exists_fromString_eq codePage (doubled percent (utf8.encodeAll cs))
  have hfirst := hsent.trans (List.take_prefix _ _)
  rw [doubled_utf8] at hfirst
  refine ⟨sent, utf8.prefix_of_encodeAll hfirst, heq, ?_⟩
  have hwhole : toEscapedLmbcs codePage (utf8.encodeAll cs) = codePage.encodeAll sent := heq
  rw [← toEscapedLmbcs_eq_iff hascii, hwhole, codePage.encodeAll_injective.eq_iff]

/-! ## Messages -/

variable {logPrefix text : List Char} {log : Log}

/-- What a prefix and a text have to be for their message to be a format of the two. -/
structure Plain (codePage : CharCode Char UInt8) (logPrefix text : List Char) : Prop where
  clear : Clear codePage '%' percent (logPrefix ++ text)
  terminated : 0 ∉ codePage.encodeAll (logPrefix ++ text)
  prefixFits : Fits codePage logPrefix
  textFits : Fits codePage text

theorem plain_iff : Plain codePage logPrefix text ↔
    ((Fits codePage logPrefix ∧ Fits codePage text) ∧
      Clear codePage '%' percent (logPrefix ++ text)) ∧
      0 ∉ codePage.encodeAll (logPrefix ++ text) := by
  constructor
  · intro h
    exact ⟨⟨⟨h.prefixFits, h.textFits⟩, h.clear⟩, h.terminated⟩
  · rintro ⟨⟨⟨hstored, htext⟩, hclear⟩, hterminated⟩
    exact ⟨hclear, hterminated, hstored, htext⟩

/-- The prefix that is stored is that of a text. -/
def Keeps (codePage : CharCode Char UInt8) (logPrefix : List Char) (log : Log) : Prop :=
  log.prefix_.getD [] = toEscapedLmbcs codePage (utf8.encodeAll logPrefix)

theorem keeps_setLogPrefix (codePage : CharCode Char UInt8) (logPrefix : List Char) (log : Log) :
    Keeps codePage logPrefix (setLogPrefix codePage (utf8.encodeAll logPrefix) log) := rfl

/-- Without a prefix the log keeps that of the empty text. -/
theorem keeps_nil (h : log.prefix_ = none) : Keeps codePage [] log := by
  rw [Keeps, h]
  rfl

theorem append_eq_append_iff_of_prefix {α : Type*} {xs ys xs' ys' : List α} (hx : xs <+: xs')
    (hy : ys <+: ys') : xs ++ ys = xs' ++ ys' ↔ xs = xs' ∧ ys = ys' := by
  constructor
  · intro h
    have hlength := congrArg List.length h
    rw [List.length_append, List.length_append] at hlength
    have hxle := hx.length_le
    have hyle := hy.length_le
    exact ⟨hx.eq_of_length (by omega), hy.eq_of_length (by omega)⟩
  · rintro ⟨rfl, rfl⟩
    rfl

/-- The message is handed over as a format of the prefix and the text exactly where they are
plain. -/
theorem expand_handed_of_keeps (hascii : Lmbcs.KeepsAscii codePage)
    (hkeeps : Keeps codePage logPrefix log) (text : List Char) :
    expand percent (handed codePage (utf8.encodeAll text) log) =
        some (codePage.encodeAll (logPrefix ++ text)) ↔
      Plain codePage logPrefix text := by
  obtain ⟨sentPrefix, hprefix, hprefixForm, hprefixFits⟩ :=
    exists_toEscapedLmbcs_eq hascii logPrefix
  obtain ⟨sentText, htext, htextForm, htextFits⟩ := exists_toEscapedLmbcs_eq hascii text
  have hmessage : message codePage (utf8.encodeAll text) log =
      codePage.encodeAll (sentPrefix ++ sentText) := by
    rw [message, hkeeps, hprefixForm, htextForm, encodeAll_append]
  have hsent : (sentPrefix ++ sentText).Sublist (doubled '%' (logPrefix ++ text)) := by
    rw [doubled_append]
    exact hprefix.sublist.append htext.sublist
  -- the message is not cut at a zero byte that the whole text does not have
  have hzero : 0 ∈ codePage.encodeAll (sentPrefix ++ sentText) →
      0 ∈ doubled percent (codePage.encodeAll (logPrefix ++ text)) := by
    intro h
    obtain ⟨c, hc, hbyte⟩ := List.mem_flatMap.mp h
    have hmem : c ∈ logPrefix ++ text := mem_doubled.mp (hsent.mem hc)
    exact mem_doubled.mpr (List.mem_flatMap.mpr ⟨c, hmem, hbyte⟩)
  rw [expand_eq_some_iff, handed, Acl.cString, hmessage, Terminated.takeWhile_eq_iff hzero,
    mem_doubled, encodeAll_eq_doubled_iff (encode_percent hascii) hsent, doubled_append,
    append_eq_append_iff_of_prefix hprefix htext, hprefixFits, htextFits, plain_iff]

/-! ## A character with the byte of a percent sign -/

/-- Printable ASCII stays as it is. All else gets up to three bytes, and the later ones are from
`20`. -/
structure Translates (codePage : CharCode Char UInt8) : Prop where
  ascii : Lmbcs.KeepsAscii codePage
  length_le : ∀ c, (codePage.encode c).length ≤ 3
  later : ∀ c, ∀ byte ∈ (codePage.encode c).tail, 0x20 ≤ byte

/-- The place of a character among those of three bytes, which turns `▶` to `14 25 B6`. -/
def place (c : Char) : ℕ := (c.toNat + 944960) % 1204224

theorem place_lt (c : Char) : place c < 1204224 := Nat.mod_lt _ (by decide)

/-- A character is found again at its place. -/
theorem ofNat_place (c : Char) : Char.ofNat ((place c + 259264) % 1204224) = c := by
  have hvalid : c.toNat.isValidChar := c.valid
  have hback : (place c + 259264) % 1204224 = c.toNat := by
    simp only [Nat.isValidChar] at hvalid
    unfold place
    omega
  rw [hback, Char.ofNat_toNat]

/-- A control byte and two digits to the base 224, which are bytes from `20`. -/
def block (c : Char) : List UInt8 :=
  [UInt8.ofNat (place c / 50176 + 1), UInt8.ofNat (place c / 224 % 224 + 32),
    UInt8.ofNat (place c % 224 + 32)]

/-- The character of a block. -/
def blockChar (lead high low : UInt8) : Char :=
  let place := (lead.toNat - 1) * 50176 + (high.toNat - 32) * 224 + (low.toNat - 32)
  Char.ofNat ((place + 259264) % 1204224)

theorem toNat_lead (c : Char) :
    (UInt8.ofNat (place c / 50176 + 1)).toNat = place c / 50176 + 1 := by
  have hplace := place_lt c
  exact UInt8.toNat_ofNat_of_lt' (show place c / 50176 + 1 < 256 by omega)

theorem toNat_digit (n : ℕ) : (UInt8.ofNat (n % 224 + 32)).toNat = n % 224 + 32 :=
  UInt8.toNat_ofNat_of_lt' (show n % 224 + 32 < 256 by omega)

theorem blockChar_block (c : Char) :
    blockChar (UInt8.ofNat (place c / 50176 + 1)) (UInt8.ofNat (place c / 224 % 224 + 32))
      (UInt8.ofNat (place c % 224 + 32)) = c := by
  have hdigits : (place c / 50176 + 1 - 1) * 50176 + (place c / 224 % 224 + 32 - 32) * 224 +
      (place c % 224 + 32 - 32) = place c := by omega
  rw [blockChar, toNat_lead, toNat_digit, toNat_digit, hdigits, ofNat_place]

/-- The first character, which is one of printable ASCII or a block. -/
def decodeBlocks (bytes : List UInt8) : Option (Char × List UInt8) := do
  let lead ← bytes.head?
  let rest := bytes.tail
  if 32 ≤ lead.toNat then some (Char.ofNat lead.toNat, rest)
  else do
    let high ← rest.head?
    let low ← rest.tail.head?
    some (blockChar lead high low, rest.tail.tail)

theorem decodeBlocks_printable {c : Char} (hc : Lmbcs.Printable c) (rest : List UInt8) :
    decodeBlocks (UInt8.ofNat c.toNat :: rest) = some (c, rest) := by
  have hbyte : (UInt8.ofNat c.toNat).toNat = c.toNat :=
    UInt8.toNat_ofNat_of_lt' (Nat.lt_trans hc.2 (by decide))
  simp only [decodeBlocks, List.head?_cons, List.tail_cons, Option.bind_eq_bind, Option.bind_some,
    hbyte, if_pos hc.1, Char.ofNat_toNat]

theorem decodeBlocks_of_lt {lead : UInt8} (hlead : lead.toNat < 32) (high low : UInt8)
    (rest : List UInt8) :
    decodeBlocks (lead :: high :: low :: rest) = some (blockChar lead high low, rest) := by
  simp only [decodeBlocks, List.head?_cons, List.tail_cons, Option.bind_eq_bind, Option.bind_some,
    if_neg (Nat.not_le.mpr hlead)]

theorem decodeBlocks_block (c : Char) (rest : List UInt8) :
    decodeBlocks (block c ++ rest) = some (c, rest) := by
  have hlead : (UInt8.ofNat (place c / 50176 + 1)).toNat < 32 := by
    have hplace := place_lt c
    rw [toNat_lead]
    omega
  exact (decodeBlocks_of_lt hlead _ _ rest).trans (by rw [blockChar_block])

/-- A code page whose characters are those of printable ASCII and blocks. -/
def codePageBlocks : CharCode Char UInt8 where
  encode c := if Lmbcs.Printable c then [UInt8.ofNat c.toNat] else block c
  decode := decodeBlocks
  encode_ne_nil c := by split <;> simp [block]
  decode_nil := rfl
  decode_encode c rest := by
    split
    · next hc => exact decodeBlocks_printable hc rest
    · exact decodeBlocks_block c rest

theorem translates_codePageBlocks : Translates codePageBlocks where
  ascii c hc := if_pos hc
  length_le c := by
    simp only [codePageBlocks]
    split <;> simp [block]
  later c byte hbyte := by
    simp only [codePageBlocks] at hbyte
    split at hbyte
    · simp at hbyte
    · have hdigit : ∀ n, (0x20 : UInt8) ≤ UInt8.ofNat (n % 224 + 32) := by
        intro n
        rw [UInt8.le_iff_toNat_le, toNat_digit]
        exact Nat.le_add_left 32 _
      rcases List.mem_pair.mp hbyte with rfl | rfl
      · exact hdigit _
      · exact hdigit _

example : codePageBlocks.encode '▶' = [0x14, 0x25, 0xB6] := by decide

/-! ## The prefix and the text -/

/-- The message is handed over as a format of the prefix and the text exactly where no character but
the percent sign has its byte, none has a zero byte, and both escaped texts are translated as a
whole. -/
theorem expand_handed_iff (hascii : Lmbcs.KeepsAscii codePage) (log : Log)
    (logPrefix text : List Char) :
    expand percent (handed codePage (utf8.encodeAll text)
        (setLogPrefix codePage (utf8.encodeAll logPrefix) log)) =
        some (codePage.encodeAll (logPrefix ++ text)) ↔
      Plain codePage logPrefix text :=
  expand_handed_of_keeps hascii (keeps_setLogPrefix codePage logPrefix log) text

theorem expand_handed_percent :
    expand percent (handed codePageBlocks (utf8.encodeAll ['5', '%'])
        (setLogPrefix codePageBlocks (utf8.encodeAll ['%', ' ']) ⟨none, []⟩)) =
      some (codePageBlocks.encodeAll (['%', ' '] ++ ['5', '%'])) :=
  (expand_handed_iff translates_codePageBlocks.ascii ⟨none, []⟩ ['%', ' '] ['5', '%']).mpr
    ⟨by decide, by decide, by decide, by decide⟩

/-- The second byte of `▶` is that of a percent sign, and what follows it is no directive. -/
theorem expand_handed_triangle : ¬ ∀ codePage, Translates codePage →
    ∀ (log : Log) (logPrefix text : List Char),
      expand percent (handed codePage (utf8.encodeAll text)
        (setLogPrefix codePage (utf8.encodeAll logPrefix) log)) =
        some (codePage.encodeAll (logPrefix ++ text)) := by
  intro h
  have hexpand := h codePageBlocks translates_codePageBlocks ⟨none, []⟩ [] ['▶']
  have hplain := (expand_handed_of_keeps translates_codePageBlocks.ascii
    (keeps_setLogPrefix codePageBlocks [] ⟨none, []⟩) ['▶']).mp hexpand
  exact absurd hplain.clear (by decide)

/-! ## Runs -/

/-- The calls of a program, with their texts. -/
inductive Call where
  | setLogPrefix (text : List Char)
  | log (args : List (List Char))

def Call.apply (codePage : CharCode Char UInt8) : Call → Log → Log
  | .setLogPrefix text => Addin.setLogPrefix codePage (utf8.encodeAll text)
  | .log args => Addin.log codePage (args.map utf8.encodeAll)

/-- What is to be read on the console: each text behind the prefix of its time. -/
structure Journal where
  logPrefix : List Char
  entries : List (List Char)

def Journal.write : Call → Journal → Journal
  | .setLogPrefix text, journal => { journal with logPrefix := text }
  | .log args, journal =>
      { journal with entries := journal.entries ++ [journal.logPrefix ++ args.flatten] }

def step (codePage : CharCode Char UInt8) (s : Journal × Log) (call : Call) : Journal × Log :=
  (s.1.write call, call.apply codePage s.2)

/-- The messages are formats of the entries. -/
structure Reads (codePage : CharCode Char UInt8) (s : Journal × Log) : Prop where
  keeps : Keeps codePage s.1.logPrefix s.2
  entries : s.2.messages.map (expand percent) =
    s.1.entries.map fun entry => some (codePage.encodeAll entry)

/-- The call logs nothing but a plain text. -/
def PlainCall (codePage : CharCode Char UInt8) (s : Journal × Log) : Call → Prop
  | .setLogPrefix _ => True
  | .log args => Plain codePage s.1.logPrefix args.flatten

variable {s : Journal × Log}

theorem reads_step_iff (hascii : Lmbcs.KeepsAscii codePage) (h : Reads codePage s) (call : Call) :
    Reads codePage (step codePage s call) ↔ PlainCall codePage s call := by
  cases call with
  | setLogPrefix text =>
      exact iff_of_true ⟨keeps_setLogPrefix codePage text s.2, h.entries⟩ trivial
  | log args =>
      have hargs : (args.map utf8.encodeAll).flatten = utf8.encodeAll args.flatten :=
        (utf8.encodeAll_flatten args).symm
      have hhanded := expand_handed_of_keeps hascii h.keeps args.flatten
      rw [← hargs] at hhanded
      have hentries : Reads codePage (step codePage s (.log args)) ↔
          expand percent (handed codePage (args.map utf8.encodeAll).flatten s.2) =
            some (codePage.encodeAll (s.1.logPrefix ++ args.flatten)) := by
        constructor
        · intro hreads
          have heq := hreads.entries
          simp only [step, Call.apply, log, logImpl, Journal.write, List.map_append,
            h.entries] at heq
          simpa using List.append_cancel_left heq
        · intro hexpand
          refine ⟨h.keeps, ?_⟩
          simp only [step, Call.apply, log, logImpl, Journal.write, List.map_append, h.entries,
            List.map_cons, List.map_nil, hexpand]
      exact hentries.trans hhanded

/-- All along a run the console reads as it should exactly where all that is logged is plain. -/
theorem reads_along_iff (hascii : Lmbcs.KeepsAscii codePage) (h : Reads codePage s)
    (calls : List Call) :
    Run.Along (step codePage) (fun s call => Reads codePage (step codePage s call)) s calls ↔
      Run.Along (step codePage) (PlainCall codePage) s calls := by
  induction calls generalizing s with
  | nil => exact Iff.rfl
  | cons call calls ih =>
      have hfirst := reads_step_iff hascii h call
      constructor
      · rintro ⟨hreads, hrest⟩
        exact ⟨hfirst.mp hreads, (ih hreads).mp hrest⟩
      · rintro ⟨hplain, hrest⟩
        have hreads := hfirst.mpr hplain
        exact ⟨hreads, (ih hreads).mpr hrest⟩

/-- A program starts without a prefix and with an empty log. -/
def start : Journal × Log := (⟨[], []⟩, ⟨none, []⟩)

theorem reads_start (codePage : CharCode Char UInt8) : Reads codePage start := ⟨keeps_nil rfl, rfl⟩

theorem reads_program_iff (hascii : Lmbcs.KeepsAscii codePage) (calls : List Call) :
    Run.Along (step codePage) (fun s call => Reads codePage (step codePage s call)) start calls ↔
      Run.Along (step codePage) (PlainCall codePage) start calls :=
  reads_along_iff hascii (reads_start codePage) calls

end Dmn.Addin
