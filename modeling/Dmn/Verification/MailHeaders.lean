import Dmn.Verification.Lmbcs.Unchanged
import Dmn.Verification.MailSend

/-! # The sender and the subject of a mail

Their bytes are passed on as they are, where a note gets texts in LMBCS. -/

namespace Dmn.MailSend

open Exec Native CharCode

variable {env : Env} {s t : Called World}

/-- What the message has for an item. -/
def stored (item : HeaderItem) (w : World) : Option (List UInt8) :=
  (Table.lookup Prod.fst item w.headers).map Prod.snd

/-- The header item has the bytes that `note::set` stores for the text, and is read back as it. -/
def StoredAsText (env : Env) (item : HeaderItem) (text : List UInt8) (w : World) : Prop :=
  stored item w = some (NoteValue.applyString env.toNoteValue text).buffer ∧
    (stored item w).map (Lmbcs.toString env.codePage) = some text

/-- The text survives the translation to LMBCS and back. -/
def RoundTrips (env : Env) (cs : List Char) : Prop :=
  Lmbcs.toString env.codePage (Lmbcs.fromString env.codePage (utf8.encodeAll cs)) =
    utf8.encodeAll cs

/-! ## What is stored -/

theorem exec_getMessage_eq_ok {hdl : ℕ} (h : exec getMessage s = (.ok hdl, t)) : t = s := by
  rw [getMessage, exec_bind_of_ok (exec_value s)] at h
  split at h
  · cases h
  · cases h
    rfl

theorem headers_addHeaderItem {item : HeaderItem} {value : List UInt8}
    (h : exec (addHeaderItem env item value) s = (.ok (), t)) :
    t.value.headers = (item, value.take (value.length % 2 ^ 16)) :: s.value.headers := by
  obtain ⟨_, u, hmessage, hrest⟩ := exec_bind_eq_ok h
  obtain rfl := exec_getMessage_eq_ok hmessage
  obtain ⟨result, v, hadded, hchecked⟩ := exec_bind_eq_ok hrest
  rw [mailAddHeaderItem, exec_bind_of_ok (exec_call _)] at hadded
  unfold Status.throwIfError at hchecked
  cases hresult : (env.native.status u.calls).isError with
  | true =>
      rw [hresult] at hadded
      cases hadded
      rw [hresult] at hchecked
      cases hchecked
  | false =>
      rw [hresult] at hadded
      cases hadded
      rw [hresult] at hchecked
      cases hchecked
      rfl

theorem stored_cons_of_eq {item : HeaderItem} {bytes : List UInt8}
    {headers : List (HeaderItem × List UInt8)} {w : World} (h : w.headers = (item, bytes) :: headers) :
    stored item w = some bytes := by
  have hfound : Table.lookup Prod.fst item ((item, bytes) :: headers) = some (item, bytes) :=
    Table.lookup_cons_of_eq Prod.fst headers rfl
  rw [stored, h, hfound]
  rfl

theorem stored_cons_of_ne {item other : HeaderItem} {bytes : List UInt8} {w w' : World}
    (hne : other ≠ item) (h : w'.headers = (other, bytes) :: w.headers) :
    stored item w' = stored item w := by
  rw [stored, h, Table.lookup_cons_of_ne Prod.fst _ hne]
  rfl

theorem reads_transferMessage : Reads (do
    let _ ← getMessage
    let result ← mailTransferMessageLocal env
    result.throwIfError "Failed to transfer mail" : M Unit) := by
  have hmessage : Reads getMessage := by
    refine .bind .value fun w => ?_
    split
    · exact .throw _
    · exact .pure _
  exact hmessage.bind fun _ => .bind .call fun _ => .throwIfError _ _

/-- A mail that was sent has the bytes it was given, as far as 16 bits count them. -/
theorem stored_send {from_ subject : List UInt8}
    (h : exec (send env from_ subject) s = (.ok (), t)) :
    stored .from_ t.value = some (from_.take (from_.length % 2 ^ 16)) ∧
      stored .subject t.value = some (subject.take (subject.length % 2 ^ 16)) := by
  obtain ⟨_, _, _, h⟩ := exec_bind_eq_ok h
  obtain ⟨_, _, _, h⟩ := exec_bind_eq_ok h
  split at h
  · cases h
  · obtain ⟨_, _, _, h⟩ := exec_bind_eq_ok h
    obtain ⟨_, _, _, h⟩ := exec_bind_eq_ok h
    obtain ⟨_, _, _, h⟩ := exec_bind_eq_ok h
    obtain ⟨_, _, _, h⟩ := exec_bind_eq_ok h
    obtain ⟨_, _, _, h⟩ := exec_bind_eq_ok h
    obtain ⟨_, u₁, hfrom, h⟩ := exec_bind_eq_ok h
    obtain ⟨_, u₂, hsubject, h⟩ := exec_bind_eq_ok h
    obtain ⟨_, u₃, hcomposed, h⟩ := exec_bind_eq_ok h
    obtain ⟨_, u₄, hposted, h⟩ := exec_bind_eq_ok h
    have hend : t.value = u₄.value := reads_transferMessage.of_ok h
    rw [hend]
    have hdates : ∀ item, HeaderItem.composedDate ≠ item → HeaderItem.postedDate ≠ item →
        stored item u₄.value = stored item u₂.value := by
      intro item hcomposedNe hpostedNe
      rw [stored_cons_of_ne hpostedNe (headers_addHeaderItem hposted),
        stored_cons_of_ne hcomposedNe (headers_addHeaderItem hcomposed)]
    constructor
    · rw [hdates _ (by decide) (by decide),
        stored_cons_of_ne (by decide) (headers_addHeaderItem hsubject)]
      exact stored_cons_of_eq (headers_addHeaderItem hfrom)
    · rw [hdates _ (by decide) (by decide)]
      exact stored_cons_of_eq (headers_addHeaderItem hsubject)

/-! ## Texts -/

/-- A text that survives the translation is short enough to be stored as a whole. -/
theorem storedAsText_iff {item : HeaderItem} {cs : List Char} {w : World}
    (hforms : ∀ c, Lmbcs.Form env.codePage c) (hround : RoundTrips env cs)
    (hstored : stored item w = some ((utf8.encodeAll cs).take ((utf8.encodeAll cs).length % 2 ^ 16))) :
    StoredAsText env item (utf8.encodeAll cs) w ↔
      ∀ c ∈ cs, env.codePage.encode c = utf8.encode c := by
  have hlength := (Lmbcs.survivors_of_toString_fromString env.codePage hround).1
  have hconverted := Lmbcs.fromString_of_toString_fromString env.codePage hround
  rw [Nat.mod_eq_of_lt hlength, List.take_length] at hstored
  rw [StoredAsText, NoteValue.applyString, hconverted, hstored, Option.some.injEq, Option.map_some,
    Option.some.injEq, eq_comm, ← Lmbcs.encodeAll_eq_utf8_iff hforms]
  constructor
  · exact And.left
  · intro heq
    have hback : Lmbcs.toString env.codePage (env.codePage.encodeAll cs) = utf8.encodeAll cs := by
      rw [← hconverted]
      exact hround
    rw [heq] at hback
    exact ⟨heq, hback⟩

/-- The sender and the subject are stored as texts where LMBCS leaves all of their characters as
they are. -/
theorem send_storedAsText_iff {from_ subject : List Char}
    (hforms : ∀ c, Lmbcs.Form env.codePage c)
    (h : exec (send env (utf8.encodeAll from_) (utf8.encodeAll subject)) s = (.ok (), t)) :
    (RoundTrips env from_ → (StoredAsText env .from_ (utf8.encodeAll from_) t.value ↔
      ∀ c ∈ from_, env.codePage.encode c = utf8.encode c)) ∧
    (RoundTrips env subject → (StoredAsText env .subject (utf8.encodeAll subject) t.value ↔
      ∀ c ∈ subject, env.codePage.encode c = utf8.encode c)) := by
  obtain ⟨hfrom, hsubject⟩ := stored_send h
  exact ⟨fun hround => storedAsText_iff hforms hround hfrom,
    fun hround => storedAsText_iff hforms hround hsubject⟩

theorem isError_listFull_sampleEnv : MemoryOwner.sampleEnv.listFull.isError = true := rfl

/-- No native call fails, and `ä` is a single byte. -/
def groupedEnv : Env where
  toMemoryOwner := { MemoryOwner.sampleEnv with
    codePage := Lmbcs.codePageGrouped
    isError_listFull := isError_listFull_sampleEnv }
  memoForm := [0x4D]
  now := ⟨0, 0⟩

/-- A mail from `A` with the subject `ä`. -/
def sampleSend : M Unit := send groupedEnv (utf8.encodeAll ['A']) (utf8.encodeAll ['ä'])

def sentMail : Called World := (exec sampleSend sampleMail).2

theorem exec_sampleSend : exec sampleSend sampleMail = (.ok (), sentMail) := Prod.ext rfl rfl

theorem roundTrips_sample : RoundTrips groupedEnv ['A'] ∧ RoundTrips groupedEnv ['ä'] := by
  constructor <;> rw [RoundTrips, Lmbcs.toString_fromString _ _ (by decide)] <;> decide

theorem send_storedAsText_iff_sample :
    (StoredAsText groupedEnv .from_ (utf8.encodeAll ['A']) sentMail.value ↔
      ∀ c ∈ ['A'], groupedEnv.codePage.encode c = utf8.encode c) ∧
    (StoredAsText groupedEnv .subject (utf8.encodeAll ['ä']) sentMail.value ↔
      ∀ c ∈ ['ä'], groupedEnv.codePage.encode c = utf8.encode c) :=
  have h := send_storedAsText_iff Lmbcs.forms_codePageGrouped exec_sampleSend
  ⟨h.1 roundTrips_sample.1, h.2 roundTrips_sample.2⟩

/-- The subject `ä` is stored in the two bytes of UTF-8. -/
theorem not_storedAsText_subject : ¬ ∀ (env : Env) (s t : Called World) (from_ subject : List Char),
    (∀ c, Lmbcs.Form env.codePage c) →
    exec (send env (utf8.encodeAll from_) (utf8.encodeAll subject)) s = (.ok (), t) →
      RoundTrips env subject → StoredAsText env .subject (utf8.encodeAll subject) t.value := by
  intro h
  have hround := roundTrips_sample.2
  have htext := h groupedEnv sampleMail sentMail ['A'] ['ä'] Lmbcs.forms_codePageGrouped
    exec_sampleSend hround
  have hstored := (stored_send exec_sampleSend).2
  have hsame := (storedAsText_iff Lmbcs.forms_codePageGrouped hround hstored).mp htext
  exact absurd (hsame 'ä' List.mem_cons_self) (by decide)

end Dmn.MailSend
