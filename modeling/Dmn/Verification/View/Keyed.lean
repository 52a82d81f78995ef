import Dmn.Verification.View.Iteration

/-! # Iteration with a key

Reading starts at the first match, and stops at the last one that is asked for. There the view
has not ended, so every chunk but the last one sets the signal. -/

namespace Dmn.View

open Exec

variable {Pos Note : Type}

/-! ## What the callback sees -/

/-- Opening the note of the entry throws, or the callback does, which has made these calls. -/
def Throws (visitor : Visitor Note) (e : Entry) (calls : List (Note × List (List UInt8)))
    (error : Error) : Prop :=
  visitor.getNote e.noteid = .error error ∨
    ∃ note, visitor.getNote e.noteid = .ok (some note) ∧
      visitor.func (calls ++ [(note, e.withoutEmpty.columns)]) = some error

/-- The callback was called on these entries, up to the first one where an exception is thrown. -/
structure Visited (visitor : Visitor Note) (es : List Entry) (result : Except Stop Unit)
    (calls : List (Note × List (List UInt8))) : Prop where
  complete : result = .ok () → calls = es.filterMap (seen visitor)
  stopped : ∀ stop, result = .error stop → ∃ done e rest error, es = done ++ e :: rest ∧
    stop = .throws error ∧ Throws visitor e (done.filterMap (seen visitor)) error ∧
      calls = (done ++ [e]).filterMap (seen visitor)

variable (visitor : Visitor Note)

theorem deliver_one (e : Entry) (calls : List (Note × List (List UInt8))) :
    deliver visitor [e] calls = (none, calls ++ [e].filterMap (seen visitor)) ∨
      ∃ error, Throws visitor e calls error ∧
        deliver visitor [e] calls = (some error, calls ++ [e].filterMap (seen visitor)) := by
  cases hnote : visitor.getNote e.noteid with
  | error error =>
      exact .inr ⟨error, .inl hnote, by simp [deliver, hnote, seen, openNote]⟩
  | ok note =>
      cases note with
      | none => exact .inl (by simp [deliver, hnote, seen, openNote])
      | some note =>
          cases hfunc : visitor.func (calls ++ [(note, e.withoutEmpty.columns)]) with
          | none => exact .inl (by simp [deliver, hnote, hfunc, seen, openNote])
          | some error =>
              exact .inr ⟨error, .inr ⟨note, hnote, hfunc⟩,
                by simp [deliver, hnote, hfunc, seen, openNote]⟩

/-- Either all entries are visited, or an exception ends the visits at one of them. -/
theorem deliver_cases (es : List Entry) (calls : List (Note × List (List UInt8))) :
    deliver visitor es calls = (none, calls ++ es.filterMap (seen visitor)) ∨
      ∃ done e rest error, es = done ++ e :: rest ∧
        Throws visitor e (calls ++ done.filterMap (seen visitor)) error ∧
        deliver visitor es calls =
          (some error, calls ++ (done ++ [e]).filterMap (seen visitor)) := by
  induction es generalizing calls with
  | nil => exact .inl (by simp [deliver])
  | cons e es ih =>
      have hsplit := deliver_append visitor [e] es calls
      rw [List.singleton_append] at hsplit
      have hcons (tail : List Entry) : (e :: tail).filterMap (seen visitor) =
          [e].filterMap (seen visitor) ++ tail.filterMap (seen visitor) := by
        rw [← List.filterMap_append, List.singleton_append]
      rcases deliver_one visitor e calls with hone | ⟨error, hthrows, hone⟩ <;>
        rw [hone] at hsplit
      · replace hsplit : deliver visitor (e :: es) calls =
            deliver visitor es (calls ++ [e].filterMap (seen visitor)) := hsplit
        rw [hsplit]
        rcases ih (calls ++ [e].filterMap (seen visitor)) with
          hall | ⟨done, e', rest, error, rfl, hthrows, hstop⟩
        · left
          rw [hcons es, ← List.append_assoc]
          exact hall
        · refine .inr ⟨e :: done, e', rest, error, rfl, ?_, ?_⟩
          · rwa [hcons done, ← List.append_assoc]
          · rw [List.cons_append, hcons (done ++ [e']), ← List.append_assoc]
            exact hstop
      · refine .inr ⟨[], e, es, error, rfl, ?_, hsplit⟩
        simpa using hthrows

theorem visited_deliver (es : List Entry) : Visited visitor es
    (outcome (deliver visitor es [])).1 (outcome (deliver visitor es [])).2 := by
  rcases deliver_cases visitor es [] with hall | ⟨done, e, rest, error, hes, hthrows, hstop⟩
  · rw [hall]
    exact ⟨fun _ => rfl, nofun⟩
  · rw [hstop]
    refine ⟨nofun, ?_⟩
    rintro stop ⟨⟩
    exact ⟨done, e, rest, error, hes, rfl, hthrows, rfl⟩

/-! ## Matches -/

/-- `NIFFindByName` finds these entries, with the position in front of entry number `first`. -/
def Finds (nif : Nif Pos) (place : Pos → ℤ) (name : List UInt8) (first : ℕ)
    (matching : List Entry) : Prop :=
  ((nif.findByName name).status.isNotFound ∧ matching = []) ∨
    ((nif.findByName name).status = .noError ∧ place (nif.findByName name).position = first ∧
      (nif.findByName name).numMatches.toNat = matching.length)

/-- The matches that the options ask for. -/
def window (matching : List Entry) (opts : QueryOptions) : List Entry :=
  (matching.drop opts.offset.toNat).take opts.count.toNat

variable {visitor} {nif : Nif Pos} {front matching back : List Entry} {place : Pos → ℤ}

variable (visitor) in
/-- From the position of the first match, the matches that are asked for are visited. -/
theorem iterateEntries_visits (h : ReadsChunks nif (front ++ (matching ++ back)) place)
    (opts : QueryOptions) (hkey : opts.key.isSome) (s : State Pos Note)
    (hplace : place s.position = front.length) (numMatches : UInt32)
    (hmatches : numMatches.toNat = matching.length) :
    let visits := outcome (deliver visitor (window matching opts) s.calls)
    let r := exec (iterateEntries nif visitor opts numMatches) s
    r.1 = visits.1 ∧ r.2.calls = visits.2 := by
  have hnone : ¬ (opts.key.isNone ∧ opts.offset ≠ 0xFFFFFFFF) := by
    rintro ⟨hnone, _⟩
    rw [Option.isNone_iff_eq_none] at hnone
    rw [hnone] at hkey
    cases hkey
  simp only [iterateEntries, if_neg hnone]
  by_cases hle : numMatches ≤ opts.offset
  · have hle' : matching.length ≤ opts.offset.toNat := hmatches ▸ hle
    rw [if_pos hle, window, List.drop_eq_nil_of_le hle']
    simp [deliver, outcome]
  · have hlt : opts.offset.toNat < matching.length := hmatches ▸ Nat.lt_of_not_le hle
    have hrest : (front ++ (matching ++ back)).drop (front.length + opts.offset.toNat) =
        matching.drop opts.offset.toNat ++ back := by
      rw [← List.drop_drop, List.drop_left, List.drop_append_of_le_length (Nat.le_of_lt hlt)]
    have hremaining : (min opts.count (numMatches - opts.offset)).toNat =
        min opts.count.toNat (matching.length - opts.offset.toNat) := by
      rw [toNat_min, toNat_sub_of_not_le hle, hmatches]
    have hlength : (min opts.count (numMatches - opts.offset)).toNat ≤
        (matching.drop opts.offset.toNat).length := by
      rw [hremaining, List.length_drop]
      exact Nat.min_le_right _ _
    have hwindow : (matching.drop opts.offset.toNat ++ back).take
        (min opts.count (numMatches - opts.offset)).toNat = window matching opts := by
      rw [List.take_append_of_le_length hlength, hremaining, window, ← List.length_drop,
        ← List.take_take, List.take_length]
    rw [if_neg hle]
    obtain ⟨hcalls, hresult⟩ := readLoop_visits visitor h
      (min opts.count (numMatches - opts.offset)) opts.offset s (front.length + opts.offset.toNat)
      (by rw [hplace]; simp)
    rw [hrest, hwindow] at hcalls hresult
    refine ⟨hresult ?_, hcalls⟩
    rw [List.length_append]
    exact Nat.le_trans hlength (Nat.le_add_right _ _)

variable (visitor) in
theorem iterate_key_visits (h : ReadsChunks nif (front ++ (matching ++ back)) place)
    (codePage : CharCode Char UInt8) (key : List UInt8)
    (hfound : Finds nif place (Lmbcs.fromString codePage key) front.length matching)
    (opts : QueryOptions) (hkey : opts.key = some key) (hne : key ≠ []) :
    let r := exec (iterate nif visitor codePage opts) (initial nif)
    (r.1, r.2.calls) = outcome (deliver visitor (window matching opts) []) := by
  intro r
  have hr : r = exec (iterate nif visitor codePage opts) (initial nif) := rfl
  rw [iterate, hkey] at hr
  simp only [if_neg hne] at hr
  rcases hfound with ⟨hnotFound, rfl⟩ | ⟨hstatus, hplace, hmatches⟩
  · rw [if_pos hnotFound] at hr
    rw [hr, window, List.drop_nil, List.take_nil]
    rfl
  · rw [hstatus, if_neg (by decide), exec_bind_of_ok (Status.exec_throwIfError_noError _ _),
      exec_bind_of_ok (exec_modify _ _)] at hr
    obtain ⟨hresult, hcalls⟩ := iterateEntries_visits visitor h opts (by rw [hkey]; rfl)
      { (initial nif : State Pos Note) with position :=
          (nif.findByName (Lmbcs.fromString codePage key)).position } hplace _ hmatches
    rw [hr, hresult, hcalls]
    rfl

/-- NIF that returns a single entry at a time, with the signal where more were asked for. -/
def stepwise (entries : List Entry) (found : Found ℤ) : Nif ℤ where
  start := -1
  readEntries _ request :=
    let first := (request.position + request.skip.toNat).toNat
    match entries.drop first with
    | [] => ⟨.noError, first, none, 0, signalMoreToDo⟩
    | e :: _ =>
        ⟨.noError, first + 1, some (entryBytes e), 1,
          if request.count ≤ 1 then 0 else signalMoreToDo⟩
  findByName _ := found

/-- The signal is set exactly when a read stopped before the requested count. -/
def SignalsStop (nif : Nif Pos) : Prop :=
  ∀ previous request, request.count ≠ 0 → ((nif.readEntries previous request).more ↔
    (nif.readEntries previous request).entriesLength < request.count)

theorem stepwise_signalsStop (entries : List Entry) (found : Found ℤ) :
    SignalsStop (stepwise entries found) := by
  rintro previous ⟨position, skip, count⟩ hcount
  have hpos : 0 < count := UInt32.pos_iff_ne_zero.mpr hcount
  simp only [stepwise]
  split
  · simp [Answer.more, signalMoreToDo, hpos]
  · by_cases hle : count ≤ 1 <;> simp [Answer.more, signalMoreToDo, hle, UInt32.not_le.mp]

theorem stepwise_readsChunks {entries : List Entry} (found : Found ℤ)
    (hsize : ∀ e ∈ entries, tableLength e.columns < 2 ^ 16 - 4) :
    ReadsChunks (stepwise entries found) entries id := by
  refine ⟨fun e he => lt_of_lt_of_le (hsize e he) (by decide), ?_⟩
  rintro previous ⟨position, skip, count⟩ first hcount hfirst
  have hcount' : count.toNat ≠ 0 := toNat_ne_zero hcount
  have hnat : (position + skip.toNat).toNat = first := by
    simp only [id] at hfirst
    omega
  simp only [stepwise, hnat]
  cases hrest : entries.drop first with
  | nil => exact ⟨by constructor <;> simp, by simp⟩
  | cons e rest =>
      have hmem : e ∈ entries := List.drop_subset first entries (by simp [hrest])
      refine chunkSpec_single first rest _ (hsize e hmem) hcount' fun hlt _ => ?_
      have hmore : ¬ count ≤ 1 := UInt32.not_le.mpr hlt
      simp [signalMoreToDo, hmore]

/-- The first two of three entries are found by any key. -/
def twoMatches : Nif ℤ := stepwise threeEntries ⟨.noError, 0, 2⟩

theorem twoMatches_readsChunks :
    ReadsChunks twoMatches ([] ++ ([⟨1, []⟩, ⟨2, []⟩] ++ [⟨3, []⟩])) id :=
  stepwise_readsChunks _ (by decide)

theorem twoMatches_finds (name : List UInt8) :
    Finds twoMatches id name ([] : List Entry).length [⟨1, []⟩, ⟨2, []⟩] :=
  .inr ⟨rfl, rfl, rfl⟩

/-- The first note cannot be opened, and the error is not that it does not exist. -/
def lockedVisitor : Visitor UInt32 where
  getNote noteid := if noteid = 1 then .error (.nativeError "Failed to open note" (.other 0))
    else .ok (some noteid)
  func _ := none

end Dmn.View
