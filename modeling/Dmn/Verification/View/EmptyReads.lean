import Dmn.Verification.View.Iteration

/-! # Reads without an entry

The handle of a buffer is checked before the number of entries in it is looked at. An answer
without entries has a null handle, so it ends the iteration with an exception, where the
function means to return. -/

namespace Dmn.View

open Exec

variable {Pos Note : Type}

/-! ## What NIF answers -/

/-- A successful `NIFReadEntries` with these entries. Without an entry there is no buffer. -/
structure Holds (answer : Answer Pos) (es : List Entry) : Prop where
  encodable : ∀ e ∈ es, tableLength e.columns < 2 ^ 16
  length_eq : answer.entriesLength.toNat = es.length
  buffer_eq : answer.buffer = if es = [] then none else some (es.flatMap entryBytes)
  small : (es.flatMap entryBytes).length < 2 ^ 16

/-- The entries that NIF returns, by the reads before and the read itself. Nothing relates the
entries of different reads, so they may be inserted and deleted in between. -/
def Reads (nif : Nif Pos) (read : List (Request Pos) → Request Pos → List Entry) : Prop :=
  ∀ previous request, (nif.readEntries previous request).status = .noError →
    Holds (nif.readEntries previous request) (read previous request)

theorem Holds.eq_nil_iff {answer : Answer Pos} {es : List Entry} (h : Holds answer es) :
    es = [] ↔ answer.entriesLength = 0 := by
  rw [← List.length_eq_zero_iff, ← h.length_eq]
  exact ⟨fun hzero => UInt32.toNat_inj.mp hzero, fun hzero => by rw [hzero]; rfl⟩

/-- The replies to a request and to those behind it: entries, or the exception for an error
status. Another request is made while entries come, more are asked for and more signalled. -/
def replies (nif : Nif Pos) (read : List (Request Pos) → Request Pos → List Entry)
    (previous : List (Request Pos)) (request : Request Pos) : List (Except Error (List Entry)) :=
  let answer := nif.readEntries previous request
  if request.count = 0 then []
  else if answer.status ≠ .noError then
    [.error (.nativeError "Failed to read entries" answer.status)]
  else .ok (read previous request) ::
    if _hnext : answer.entriesLength ≠ 0 ∧ ¬ request.count ≤ answer.entriesLength ∧
        answer.more then
      replies nif read (previous ++ [request])
        ⟨answer.position, 0, request.count - answer.entriesLength⟩
    else []
  termination_by request.count.toNat
  decreasing_by
    have hsub := toNat_sub_of_not_le _hnext.2.1
    have hne := toNat_ne_zero _hnext.1
    have hlt := UInt32.not_le.mp _hnext.2.1
    have hlt : answer.entriesLength.toNat < request.count.toNat := hlt
    change (request.count - answer.entriesLength).toNat < request.count.toNat
    omega

/-- The first request of `iterateEntries`. Where nothing is left to read its count is zero. -/
def firstRequest (opts : QueryOptions) (available : UInt32) (position : Pos) : Request Pos where
  position := position
  skip :=
    if opts.key.isNone ∧ opts.offset ≠ 0xFFFFFFFF then opts.offset + 1 else opts.offset
  count := if available ≤ opts.offset then 0 else min opts.count (available - opts.offset)

/-- The replies to all requests of an iteration. -/
def conversation (nif : Nif Pos) (read : List (Request Pos) → Request Pos → List Entry)
    (codePage : CharCode Char UInt8) (opts : QueryOptions) : List (Except Error (List Entry)) :=
  if opts.key.getD [] = [] then replies nif read [] (firstRequest opts opts.count nif.start)
  else
    let found := nif.findByName (Lmbcs.fromString codePage (opts.key.getD []))
    if found.status.isNotFound then []
    else if found.status ≠ .noError then
      [.error (.nativeError "Failed to find entries by key" found.status)]
    else replies nif read [] (firstRequest opts found.numMatches found.position)

/-! ## What the replies ask for -/

/-- The entries of the replies are visited, up to the first exception. -/
def conclude (visitor : Visitor Note) : List (Except Error (List Entry)) →
    List (Note × List (List UInt8)) → Option Error × List (Note × List (List UInt8))
  | [], calls => (none, calls)
  | .error error :: _, calls => (some error, calls)
  | .ok es :: rest, calls =>
      match deliver visitor es calls with
      | (some error, calls') => (some error, calls')
      | (none, calls') => conclude visitor rest calls'

/-- A reply as the constructor of the locker lets it through. -/
def checked : Except Error (List Entry) → Except Error (List Entry)
  | .ok [] => .error (.invalidHandle "Provided handle is empty")
  | reply => reply

/-- What the caller sees: the result, and the calls of the callback. -/
def observed (r : Except Stop Unit × State Pos Note) :
    Except Stop Unit × List (Note × List (List UInt8)) := (r.1, r.2.calls)

/-- Behind these calls, the iteration gets to a reply without entries. -/
def Starves (visitor : Visitor Note) (replies : List (Except Error (List Entry)))
    (calls : List (Note × List (List UInt8))) : Prop :=
  ∃ done rest, replies = done ++ .ok [] :: rest ∧ (conclude visitor done calls).1 = none

variable (visitor : Visitor Note)

theorem conclude_append (as bs : List (Except Error (List Entry)))
    (calls : List (Note × List (List UInt8))) :
    conclude visitor (as ++ bs) calls =
      match conclude visitor as calls with
      | (some error, calls') => (some error, calls')
      | (none, calls') => conclude visitor bs calls' := by
  induction as generalizing calls with
  | nil => rfl
  | cons reply rest ih =>
      cases reply with
      | error error => rfl
      | ok es =>
          simp only [List.cons_append, conclude]
          split
          · rfl
          · exact ih _

theorem checked_of_ne_nil {es : List Entry} (h : es ≠ []) : checked (.ok es) = .ok es := by
  cases es with
  | nil => exact absurd rfl h
  | cons e es => rfl

/-- The check makes no difference as long as every reply that is reached has entries. -/
theorem conclude_checked_of_not_starves {replies : List (Except Error (List Entry))}
    {calls : List (Note × List (List UInt8))} (h : ¬ Starves visitor replies calls) :
    conclude visitor (replies.map checked) calls = conclude visitor replies calls := by
  induction replies generalizing calls with
  | nil => rfl
  | cons reply rest ih =>
      cases reply with
      | error error => rfl
      | ok es =>
          cases es with
          | nil => exact absurd ⟨[], rest, rfl, rfl⟩ h
          | cons e es =>
              simp only [List.map_cons, checked, conclude]
              rcases hvisits : deliver visitor (e :: es) calls with ⟨_ | error, calls'⟩
              · apply ih
                rintro ⟨done, rest', rfl, hdone⟩
                refine h ⟨.ok (e :: es) :: done, rest', rfl, ?_⟩
                rw [conclude, hvisits]
                exact hdone
              · rfl

/-- A reply without entries that is reached ends the iteration with an exception. -/
theorem conclude_checked_of_starves {replies : List (Except Error (List Entry))}
    {calls : List (Note × List (List UInt8))} (h : Starves visitor replies calls) :
    (conclude visitor (replies.map checked) calls).1 =
      some (.invalidHandle "Provided handle is empty") := by
  obtain ⟨done, rest, rfl, hdone⟩ := h
  induction done generalizing calls with
  | nil => rfl
  | cons reply done ih =>
      cases reply with
      | error error => cases hdone
      | ok es =>
          cases es with
          | nil => rfl
          | cons e es =>
              simp only [List.cons_append, List.map_cons, checked, conclude] at hdone ⊢
              rcases hvisits : deliver visitor (e :: es) calls with ⟨_ | error, calls'⟩ <;>
                rw [hvisits] at hdone
              · exact ih hdone
              · cases hdone

/-! ## The loop -/

variable {visitor} {nif : Nif Pos} {read : List (Request Pos) → Request Pos → List Entry}

/-- No request follows on a reply without entries. -/
theorem replies_eq_append (h : Reads nif read) (previous : List (Request Pos))
    (request : Request Pos) {done rest : List (Except Error (List Entry))}
    (hreplies : replies nif read previous request = done ++ .ok [] :: rest) : rest = [] := by
  fun_induction replies nif read previous request generalizing done with
  | case1 => simp at hreplies
  | case2 => cases done <;> simp at hreplies
  | case3 =>
      rename_i previous request answer hcount hstatus ih
      have hread := h previous request (not_not.mp hstatus)
      cases done with
      | nil =>
          obtain ⟨hfirst, hrest⟩ := List.cons.inj hreplies
          have hzero := hread.eq_nil_iff.mp (Except.ok.inj hfirst)
          rw [← hrest, dif_neg fun hnext => hnext.1 hzero]
      | cons reply done =>
          obtain ⟨-, hrest⟩ := List.cons.inj hreplies
          by_cases hnext : answer.entriesLength ≠ 0 ∧ ¬ request.count ≤ answer.entriesLength ∧
              answer.more
          · rw [dif_pos hnext] at hrest
            exact ih hnext hrest
          · rw [dif_neg hnext] at hrest
            cases done <;> simp at hrest

/-- The loop does what the replies ask for, after each has been checked. -/
theorem exec_readLoop (h : Reads nif read) (remaining skip : UInt32) (s : State Pos Note) :
    observed (exec (readLoop nif visitor remaining skip) s) = outcome (conclude visitor
      ((replies nif read s.requests ⟨s.position, skip, remaining⟩).map checked) s.calls) := by
  induction hn : remaining.toNat using Nat.strong_induction_on
    generalizing remaining skip s with
  | _ n ih =>
      subst hn
      unfold readLoop replies
      by_cases hzero : remaining = 0
      · simp [hzero, conclude, outcome, observed]
      have hread := h s.requests ⟨s.position, skip, remaining⟩
      rw [if_neg hzero, exec_bind_of_ok (exec_nifReadEntries_eq nif skip remaining s)]
      simp only [if_neg hzero]
      generalize nif.readEntries s.requests ⟨s.position, skip, remaining⟩ = answer at hread ⊢
      generalize read s.requests ⟨s.position, skip, remaining⟩ = es at hread ⊢
      by_cases hstatus : answer.status = .noError
      · have hholds := hread hstatus
        rw [if_neg (not_not.mpr hstatus), hstatus,
          exec_bind_of_ok (Status.exec_throwIfError_noError _ _), hholds.buffer_eq]
        rw [List.map_cons]
        by_cases hes : es = []
        · have hlast : ¬ (answer.entriesLength ≠ 0 ∧ ¬ remaining ≤ answer.entriesLength ∧
              answer.more) := fun hnext => hnext.1 (hholds.eq_nil_iff.mp hes)
          rw [if_pos hes, hes]
          rfl
        have hlength : answer.entriesLength ≠ 0 := fun hzero => hes (hholds.eq_nil_iff.mpr hzero)
        rw [if_neg hes, exec_bind_of_ok (exec_lock_some _ _), dif_neg hlength, hholds.length_eq,
          exec_bind, exec_readEntries visitor hholds.encodable (Cursor.before_make hholds.small),
          delivered, checked_of_ne_nil hes, conclude, State.read_calls]
        rcases deliver visitor es s.calls with ⟨_ | error, calls⟩
        · simp only
          by_cases hdone : remaining ≤ answer.entriesLength
          · rw [dif_pos hdone, dif_neg fun hnext => hnext.2.1 hdone]
            rfl
          by_cases hmore : answer.more
          · have hne := toNat_ne_zero hlength
            have hlt : answer.entriesLength.toNat < remaining.toNat := UInt32.not_le.mp hdone
            have hsub := toNat_sub_of_not_le hdone
            rw [dif_neg hdone, if_pos hmore, dif_pos ⟨hlength, hdone, hmore⟩,
              ih _ (by omega) _ 0 _ rfl]
            rfl
          · rw [dif_neg hdone, if_neg hmore, dif_neg fun hnext => hmore hnext.2.2]
            rfl
        · rfl
      · rw [exec_bind_of_error (Status.exec_throwIfError_of_ne hstatus _ _), if_pos hstatus]
        rfl

theorem exec_iterateEntries (h : Reads nif read) (opts : QueryOptions) (available : UInt32)
    (s : State Pos Note) :
    observed (exec (iterateEntries nif visitor opts available) s) = outcome (conclude visitor
      ((replies nif read s.requests (firstRequest opts available s.position)).map checked)
      s.calls) := by
  unfold iterateEntries firstRequest
  by_cases hle : available ≤ opts.offset
  · simp only [if_pos hle]
    rw [replies, if_pos rfl]
    rfl
  · simp only [if_neg hle]
    exact exec_readLoop h _ _ s

/-! ## The iteration -/

/-- The iteration does what the replies ask for, after each has been checked. -/
theorem exec_iterate (h : Reads nif read) (codePage : CharCode Char UInt8) (opts : QueryOptions) :
    observed (exec (iterate nif visitor codePage opts) (initial nif)) =
      outcome (conclude visitor ((conversation nif read codePage opts).map checked) []) := by
  unfold iterate conversation
  rcases hkey : opts.key with _ | key
  · simp only [Option.getD_none, if_pos]
    exact exec_iterateEntries h opts opts.count (initial nif)
  simp only [Option.getD_some]
  by_cases hempty : key = []
  · rw [if_pos hempty, if_pos hempty]
    exact exec_iterateEntries h opts opts.count (initial nif)
  rw [if_neg hempty, if_neg hempty]
  generalize nif.findByName (Lmbcs.fromString codePage key) = found
  by_cases hnotFound : found.status.isNotFound
  · rw [if_pos hnotFound, if_pos hnotFound]
    rfl
  rw [if_neg hnotFound, if_neg hnotFound]
  by_cases hstatus : found.status = .noError
  · rw [if_neg (not_not.mpr hstatus), hstatus,
      exec_bind_of_ok (Status.exec_throwIfError_noError _ _), exec_bind, exec_modify]
    exact exec_iterateEntries h opts found.numMatches _
  · rw [if_pos hstatus, exec_bind_of_error (Status.exec_throwIfError_of_ne hstatus _ _)]
    rfl

theorem conversation_eq_append (h : Reads nif read) {codePage : CharCode Char UInt8}
    {opts : QueryOptions} {done rest : List (Except Error (List Entry))}
    (hreplies : conversation nif read codePage opts = done ++ .ok [] :: rest) : rest = [] := by
  unfold conversation at hreplies
  split at hreplies
  · exact replies_eq_append h _ _ hreplies
  · simp only at hreplies
    split at hreplies
    · simp at hreplies
    · split at hreplies
      · cases done <;> simp at hreplies
      · exact replies_eq_append h _ _ hreplies

/-- Where the iteration gets to a reply without entries, the function means to return. -/
theorem conclude_of_starves (h : Reads nif read) {codePage : CharCode Char UInt8}
    {opts : QueryOptions} {calls : List (Note × List (List UInt8))}
    (hstarves : Starves visitor (conversation nif read codePage opts) calls) :
    (conclude visitor (conversation nif read codePage opts) calls).1 = none := by
  obtain ⟨done, rest, hreplies, hdone⟩ := hstarves
  rw [hreplies, conversation_eq_append h hreplies, conclude_append]
  rcases hresult : conclude visitor done calls with ⟨_ | error, calls'⟩ <;> rw [hresult] at hdone
  · rfl
  · cases hdone

/-- What `getEntries` makes of the calls of its callback. -/
def collected (noteId : Note → UInt32)
    (r : Except Stop Unit × List (Note × List (List UInt8))) : Except Stop (List Entry) :=
  r.1.map fun _ => r.2.map fun call => ⟨noteId call.1, call.2⟩

theorem exec_getEntries (codePage : CharCode Char UInt8)
    (getNote : UInt32 → Except Error (Option Note)) (noteId : Note → UInt32)
    (opts : QueryOptions) (s : State Pos Note) :
    (exec (getEntries nif codePage getNote noteId opts) s).1 =
      collected noteId (observed (exec (iterate nif ⟨getNote, fun _ => none⟩ codePage opts) s)) := by
  rw [getEntries, exec_bind, observed]
  rcases exec (iterate nif ⟨getNote, fun _ => none⟩ codePage opts) s with ⟨_ | _, t⟩ <;> rfl

/-- What the replies ask for. The entries before a reply without entries are delivered, and
only an error status or an exception of the visits is thrown. -/
def meant (visitor : Visitor Note) (nif : Nif Pos)
    (read : List (Request Pos) → Request Pos → List Entry) (codePage : CharCode Char UInt8)
    (opts : QueryOptions) : Except Stop Unit × List (Note × List (List UInt8)) :=
  outcome (conclude visitor (conversation nif read codePage opts) [])

/-- The check makes an exception of a normal end where a reply without entries is reached, and
nothing else. -/
theorem checked_cases (h : Reads nif read) (visitor : Visitor Note)
    (codePage : CharCode Char UInt8) (opts : QueryOptions) :
    let replies := conversation nif read codePage opts
    let actual := outcome (conclude visitor (replies.map checked) [])
    (¬ Starves visitor replies [] ∧ actual = meant visitor nif read codePage opts) ∨
      (Starves visitor replies [] ∧ (meant visitor nif read codePage opts).1 = .ok () ∧
        actual.1 = .error (.throws (.invalidHandle "Provided handle is empty"))) := by
  intro replies actual
  by_cases hstarves : Starves visitor replies []
  · right
    refine ⟨hstarves, ?_, ?_⟩
    · have hmeant := conclude_of_starves h hstarves
      rw [meant]
      rcases hresult : conclude visitor (conversation nif read codePage opts) [] with
        ⟨_ | error, calls⟩ <;> rw [hresult] at hmeant
      · rfl
      · cases hmeant
    · have hactual := conclude_checked_of_starves visitor hstarves
      rcases hresult : conclude visitor (replies.map checked) [] with ⟨_ | error, calls⟩ <;>
        rw [hresult] at hactual
      · cases hactual
      · obtain rfl := Option.some.inj hactual
        simp only [actual, hresult, outcome]
  · left
    refine ⟨hstarves, ?_⟩
    simp only [actual, meant, replies, conclude_checked_of_not_starves visitor hstarves]

/-- The entry of a read of `oneByOne`. -/
def nextEntry (entries : List Entry) (_previous : List (Request ℤ)) (request : Request ℤ) :
    List Entry := (entries.drop (request.position + request.skip.toNat).toNat).take 1

theorem oneByOne_reads {entries : List Entry}
    (hsize : ∀ e ∈ entries, tableLength e.columns < 2 ^ 16 - 4) :
    Reads (oneByOne entries) (nextEntry entries) := by
  rintro previous request -
  simp only [oneByOne, nextEntry]
  cases hrest : entries.drop (request.position + request.skip.toNat).toNat with
  | nil => exact ⟨by simp, rfl, rfl, by simp⟩
  | cons e rest =>
      have hmem : e ∈ entries := List.drop_subset _ entries (by rw [hrest]; exact List.mem_cons_self)
      have hlength := hsize e hmem
      refine ⟨?_, rfl, by simp, ?_⟩
      · intro x hx
        obtain rfl : x = e := by simpa using hx
        omega
      · simp [length_entryBytes]
        omega

end Dmn.View
