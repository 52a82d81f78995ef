import Dmn.Verification.View.Entries

/-! # Iteration without a key

`iterate` passes the count of the options as the number of available entries, so the offset
is taken off the count: of the `count` entries behind the offset, only those at positions
below `count` are visited. -/

namespace Dmn.View

open Exec Cursor

variable {Pos Note : Type}

/-! ## What is assumed of NIF -/

/-- One read that starts at entry number `first`, in front of the entries `rest`, up to its signal. -/
structure AnswerSpec (place : Pos → ℤ) (first : ℕ) (rest : List Entry) (count : UInt32)
    (answer : Answer Pos) : Prop where
  status_eq : answer.status = .noError
  le_rest : answer.entriesLength.toNat ≤ rest.length
  le_count : answer.entriesLength.toNat ≤ count.toNat
  progress : rest ≠ [] → answer.entriesLength.toNat ≠ 0
  buffer_eq : answer.entriesLength.toNat ≠ 0 →
    answer.buffer = some ((rest.take answer.entriesLength.toNat).flatMap entryBytes)
  small : ((rest.take answer.entriesLength.toNat).flatMap entryBytes).length < 2 ^ 16
  place_eq : place answer.position = first + answer.entriesLength.toNat

/-- The signal is set where entries are left. -/
structure ReadSpec (place : Pos → ℤ) (first : ℕ) (rest : List Entry) (count : UInt32)
    (answer : Answer Pos) : Prop extends AnswerSpec place first rest count answer where
  more_iff : answer.entriesLength.toNat < count.toNat →
    (answer.more ↔ answer.entriesLength.toNat < rest.length)

/-- NIF on a view with these entries. `place` tells the number of the entry at which a read
with skip 0 starts; the start position is before the first entry. -/
structure ReadsView (nif : Nif Pos) (entries : List Entry) (place : Pos → ℤ) : Prop where
  start_eq : place nif.start = -1
  encodable : ∀ e ∈ entries, tableLength e.columns < 2 ^ 16
  read : ∀ previous (request : Request Pos) (first : ℕ), request.count ≠ 0 →
    place request.position + request.skip.toNat = first →
      ReadSpec place first (entries.drop first) request.count (nif.readEntries previous request)

/-! The loop needs less: it does not matter when the signal is set at the end of the view. -/

/-- `ReadSpec` with a signal that must be set only where entries are left. -/
structure ChunkSpec (place : Pos → ℤ) (first : ℕ) (rest : List Entry) (count : UInt32)
    (answer : Answer Pos) : Prop extends AnswerSpec place first rest count answer where
  more : answer.entriesLength.toNat < count.toNat → answer.entriesLength.toNat < rest.length →
    answer.more

/-- NIF reads these entries in chunks, from any position. -/
structure ReadsChunks (nif : Nif Pos) (entries : List Entry) (place : Pos → ℤ) : Prop where
  encodable : ∀ e ∈ entries, tableLength e.columns < 2 ^ 16
  read : ∀ previous (request : Request Pos) (first : ℕ), request.count ≠ 0 →
    place request.position + request.skip.toNat = first →
      ChunkSpec place first (entries.drop first) request.count (nif.readEntries previous request)

theorem ReadsView.chunks {nif : Nif Pos} {entries : List Entry} {place : Pos → ℤ}
    (h : ReadsView nif entries place) : ReadsChunks nif entries place where
  encodable := h.encodable
  read previous request first hcount hplace :=
    have hread := h.read previous request first hcount hplace
    ⟨hread.toAnswerSpec, fun hlt hrest => (hread.more_iff hlt).mpr hrest⟩

/-! ## Visits -/

variable (visitor : Visitor Note)

/-- Visit entries up to the first visit that throws. -/
def deliver : List Entry → List (Note × List (List UInt8)) →
    Option Error × List (Note × List (List UInt8))
  | [], calls => (none, calls)
  | e :: es, calls =>
      match visitor.getNote e.noteid with
      | .error error => (some error, calls)
      | .ok none => deliver es calls
      | .ok (some note) =>
          match visitor.func (calls ++ [(note, e.withoutEmpty.columns)]) with
          | some error => (some error, calls ++ [(note, e.withoutEmpty.columns)])
          | none => deliver es (calls ++ [(note, e.withoutEmpty.columns)])

theorem deliver_append (as bs : List Entry) (calls : List (Note × List (List UInt8))) :
    deliver visitor (as ++ bs) calls =
      match deliver visitor as calls with
      | (some error, calls') => (some error, calls')
      | (none, calls') => deliver visitor bs calls' := by
  induction as generalizing calls with
  | nil => rfl
  | cons e es ih =>
      simp only [List.cons_append, deliver]
      split
      · rfl
      · exact ih _
      · split
        · rfl
        · exact ih _

/-- The result of a program that visited these entries in the state `s`. -/
def delivered (s : State Pos Note) (es : List Entry) : Except Stop Unit × State Pos Note :=
  match deliver visitor es s.calls with
  | (some error, calls) => (.error (.throws error), { s with calls := calls })
  | (none, calls) => (.ok (), { s with calls := calls })

theorem exec_visit (e : Entry) (s : State Pos Note) :
    exec (visit visitor e.withoutEmpty) s = delivered visitor s [e] := by
  simp only [visit, delivered, deliver, Entry.withoutEmpty]
  rcases visitor.getNote e.noteid with error | _ | note
  · rfl
  · rfl
  · simp only [exec_bind, exec_modify, exec_get]
    rcases visitor.func (s.calls ++ [(note, e.columns.filter (· ≠ []))]) with _ | error <;> rfl

theorem exec_readEntries {chunk : List Entry} (hsize : ∀ e ∈ chunk, tableLength e.columns < 2 ^ 16)
    {c : Cursor} (h : c.Before (chunk.flatMap entryBytes)) (s : State Pos Note) :
    exec (readEntries visitor chunk.length c) s = delivered visitor s chunk := by
  induction chunk generalizing c s with
  | nil => rfl
  | cons e es ih =>
      rw [List.flatMap_cons] at h
      have hread := exec_readEntry (hsize e List.mem_cons_self) h
      have hrest := ih (fun x hx => hsize x (List.mem_cons_of_mem _ hx)) h.advanced
      have hsplit := deliver_append visitor [e] es s.calls
      rw [List.singleton_append] at hsplit
      rw [List.length_cons, readEntries, hread]
      simp only [exec_bind, exec_visit]
      unfold delivered at hrest ⊢
      rw [hsplit]
      rcases deliver visitor [e] s.calls with ⟨_ | error, calls⟩
      · exact hrest { s with calls := calls }
      · rfl

/-! ## Counts -/

theorem toNat_ne_zero {a : UInt32} (h : a ≠ 0) : a.toNat ≠ 0 :=
  fun h0 => h (UInt32.toNat_inj.mp h0)

theorem toNat_sub_of_not_le {a b : UInt32} (h : ¬ a ≤ b) : (a - b).toNat = a.toNat - b.toNat :=
  UInt32.toNat_sub_of_le _ _ (UInt32.le_of_lt (UInt32.not_le.mp h))

theorem toNat_min (a b : UInt32) : (min a b).toNat = min a.toNat b.toNat := by
  change (if a ≤ b then a else b).toNat = _
  split
  · next hle => exact (Nat.min_eq_left hle).symm
  · next hle => exact (Nat.min_eq_right (Nat.le_of_not_le hle)).symm

/-! ## The read loop -/

variable {visitor} {nif : Nif Pos} {entries : List Entry} {place : Pos → ℤ}

/-- Behind a read: the position that NIF leaves, and the request in the record. -/
def State.read (s : State Pos Note) (request : Request Pos) (position : Pos) : State Pos Note :=
  { s with position := position, requests := s.requests ++ [request] }

@[simp] theorem State.read_calls (s : State Pos Note) (request : Request Pos) (position : Pos) :
    (s.read request position).calls = s.calls := rfl

variable (nif) in
theorem exec_nifReadEntries_eq (skip count : UInt32) (s : State Pos Note) :
    exec (nifReadEntries nif skip count) s =
      (.ok (nif.readEntries s.requests ⟨s.position, skip, count⟩),
        s.read ⟨s.position, skip, count⟩
          (nif.readEntries s.requests ⟨s.position, skip, count⟩).position) := rfl

variable (nif) in
theorem exec_nifReadEntries (skip count : UInt32) (s : State Pos Note) :
    ∃ s' : State Pos Note, exec (nifReadEntries nif skip count) s =
        (.ok (nif.readEntries s.requests ⟨s.position, skip, count⟩), s') ∧
      s'.calls = s.calls ∧
      s'.position = (nif.readEntries s.requests ⟨s.position, skip, count⟩).position :=
  ⟨_, exec_nifReadEntries_eq nif skip count s, rfl, rfl⟩

theorem exec_lock_some (bytes : List UInt8) (s : State Pos Note) :
    exec (lock (some bytes)) s = (.ok (Cursor.make (some bytes)), s) := rfl

theorem exec_lock_state (buffer : Option (List UInt8)) (s : State Pos Note) :
    (exec (lock buffer) s).2 = s := by
  cases buffer <;> rfl

theorem ChunkSpec.exec_readEntries {first : ℕ} {rest : List Entry} {count : UInt32}
    {answer : Answer Pos} (h : ChunkSpec place first rest count answer)
    (hsize : ∀ e ∈ rest, tableLength e.columns < 2 ^ 16) (s : State Pos Note) :
    exec (readEntries visitor answer.entriesLength.toNat (Cursor.make
        (some ((rest.take answer.entriesLength.toNat).flatMap entryBytes)))) s =
      delivered visitor s (rest.take answer.entriesLength.toNat) := by
  have hlength : (rest.take answer.entriesLength.toNat).length = answer.entriesLength.toNat :=
    List.length_take_of_le h.le_rest
  have hchunk := View.exec_readEntries visitor
    (fun e he => hsize e (List.take_subset _ _ he)) (before_make h.small) s
  rwa [hlength] at hchunk

/-- An empty answer means that no entry is left. -/
theorem ChunkSpec.rest_eq_nil {first : ℕ} {rest : List Entry} {count : UInt32}
    {answer : Answer Pos} (h : ChunkSpec place first rest count answer)
    (hempty : answer.entriesLength = 0) : rest = [] := by
  by_contra hne
  exact h.progress hne (by rw [hempty]; rfl)

/-- An answer that stops before its count without a signal reaches the end. -/
theorem ChunkSpec.length_le {first : ℕ} {rest : List Entry} {count : UInt32}
    {answer : Answer Pos} (h : ChunkSpec place first rest count answer)
    (hlt : answer.entriesLength.toNat < count.toNat) (hmore : ¬ answer.more) :
    rest.length ≤ answer.entriesLength.toNat :=
  Nat.le_of_not_lt fun hrest => hmore (h.more hlt hrest)

/-- What is asked for, cut behind the answer. -/
theorem ChunkSpec.take_eq {first : ℕ} {rest : List Entry} {count : UInt32}
    {answer : Answer Pos} (h : ChunkSpec place first rest count answer) :
    rest.take count.toNat = rest.take answer.entriesLength.toNat ++
      (rest.drop answer.entriesLength.toNat).take
        (count.toNat - answer.entriesLength.toNat) := by
  rw [← List.take_add, Nat.add_sub_cancel' h.le_count]

/-- The result and the calls of a program that has visited entries. -/
def outcome : Option Error × List (Note × List (List UInt8)) →
    Except Stop Unit × List (Note × List (List UInt8))
  | (some error, calls) => (.error (.throws error), calls)
  | (none, calls) => (.ok (), calls)

variable (visitor) in
/-- Whatever the chunks are, the loop visits the next `remaining` entries. Where there are that
many, it ends as the visits do. -/
theorem readLoop_visits (h : ReadsChunks nif entries place) (remaining skip : UInt32)
    (s : State Pos Note) (first : ℕ) (hplace : place s.position + skip.toNat = first) :
    let visits := outcome (deliver visitor ((entries.drop first).take remaining.toNat) s.calls)
    let r := exec (readLoop nif visitor remaining skip) s
    r.2.calls = visits.2 ∧ (remaining.toNat ≤ (entries.drop first).length → r.1 = visits.1) := by
  induction hn : remaining.toNat using Nat.strong_induction_on
    generalizing remaining skip s first with
  | _ n ih =>
      subst hn
      unfold readLoop
      by_cases hzero : remaining = 0
      · subst hzero
        simp [deliver, outcome]
      rw [if_neg hzero]
      have hread := h.read s.requests ⟨s.position, skip, remaining⟩ first hzero hplace
      obtain ⟨s', hnif, hcalls, hposition⟩ := exec_nifReadEntries nif skip remaining s
      rw [exec_bind_of_ok hnif]
      generalize nif.readEntries s.requests ⟨s.position, skip, remaining⟩ = answer
        at hread hposition
      rw [hread.status_eq, exec_bind_of_ok (Status.exec_throwIfError_noError _ _), ← hcalls]
      by_cases hempty : answer.entriesLength = 0
      · have hpos : ¬ remaining.toNat ≤ 0 := fun hle =>
          hzero (UInt32.toNat_inj.mp (Nat.le_zero.mp hle))
        rw [hread.rest_eq_nil hempty, exec_bind]
        have hlock := exec_lock_state answer.buffer s'
        rcases hresult : exec (lock answer.buffer) s' with ⟨_ | obj, t⟩ <;> rw [hresult] at hlock
        · obtain rfl : t = s' := hlock
          exact ⟨by simp [deliver, outcome], fun hle => absurd hle hpos⟩
        · obtain rfl : t = s' := hlock
          simp [hempty, deliver, outcome]
      have hlen := toNat_ne_zero hempty
      rw [hread.buffer_eq hlen, exec_bind_of_ok (exec_lock_some _ _), dif_neg hempty, exec_bind,
        hread.exec_readEntries fun e he => h.encodable e (List.drop_subset _ _ he)]
      rw [hread.take_eq, deliver_append]
      unfold delivered
      rcases deliver visitor ((entries.drop first).take answer.entriesLength.toNat) s'.calls
        with ⟨_ | error, calls⟩
      · simp only
        by_cases hdone : remaining ≤ answer.entriesLength
        · have hle : remaining.toNat ≤ answer.entriesLength.toNat := hdone
          rw [dif_pos hdone, Nat.sub_eq_zero_of_le hle]
          simp [deliver, outcome]
        have hlt : answer.entriesLength.toNat < remaining.toNat := UInt32.not_le.mp hdone
        have hsub := toNat_sub_of_not_le hdone
        rw [dif_neg hdone, List.drop_drop]
        by_cases hmore : answer.more
        · have hnext : place s'.position + (0 : UInt32).toNat =
              (first + answer.entriesLength.toNat : ℕ) := by
            rw [hposition, hread.place_eq]
            simp
          have hloop := ih _ (by rw [hsub]; omega) (remaining - answer.entriesLength) 0
            { s' with calls := calls } _ hnext rfl
          rw [hsub] at hloop
          rw [if_pos hmore]
          refine ⟨hloop.1, fun hrest => hloop.2 ?_⟩
          rw [List.length_drop] at hrest ⊢
          omega
        · rw [if_neg hmore, ← List.drop_drop, List.drop_eq_nil_of_le (hread.length_le hlt hmore)]
          simp [deliver, outcome]
      · exact ⟨rfl, fun _ => rfl⟩

theorem readLoop_calls (h : ReadsView nif entries place) (remaining skip : UInt32)
    (s : State Pos Note) (first : ℕ) (hplace : place s.position + skip.toNat = first) :
    (exec (readLoop nif visitor remaining skip) s).2.calls =
      (deliver visitor ((entries.drop first).take remaining.toNat) s.calls).2 := by
  have hvisits := (readLoop_visits visitor h.chunks remaining skip s first hplace).1
  rw [hvisits]
  rcases deliver visitor ((entries.drop first).take remaining.toNat) s.calls with ⟨_ | _, _⟩ <;> rfl

/-- Without a key, the entries at positions from the offset up to the count are visited. -/
theorem iterate_calls (h : ReadsView nif entries place) (codePage : CharCode Char UInt8)
    (opts : QueryOptions) (hkey : opts.key = none) :
    (exec (iterate nif visitor codePage opts) (initial nif)).2.calls =
      (deliver visitor ((entries.drop opts.offset.toNat).take
        (opts.count.toNat - opts.offset.toNat)) []).2 := by
  rw [iterate, hkey]
  simp only [iterateEntries, hkey, Option.isNone_none, true_and]
  by_cases hle : opts.count ≤ opts.offset
  · have hle' : opts.count.toNat ≤ opts.offset.toNat := hle
    rw [if_pos hle, Nat.sub_eq_zero_of_le hle']
    simp [deliver, initial]
  · have hlt : opts.offset.toNat < opts.count.toNat := UInt32.not_le.mp hle
    have hcount := opts.count.toNat_lt
    have hmax : opts.offset ≠ 0xFFFFFFFF := by
      intro hoffset
      rw [hoffset] at hlt
      simp at hlt
      omega
    have hsub := toNat_sub_of_not_le hle
    have hmin : min opts.count (opts.count - opts.offset) = opts.count - opts.offset := by
      apply UInt32.toNat_inj.mp
      rw [toNat_min, hsub]
      omega
    have hplace : place (initial nif : State Pos Note).position + (opts.offset + 1).toNat =
        (opts.offset.toNat : ℕ) := by
      have hadd : (opts.offset + 1).toNat = opts.offset.toNat + 1 := by
        rw [UInt32.toNat_add]
        have : (1 : UInt32).toNat = 1 := rfl
        omega
      rw [hadd, initial, h.start_eq]
      omega
    rw [if_neg hle, if_pos hmax, hmin, readLoop_calls h _ _ _ _ hplace, hsub]
    rfl

/-! ## The calls of the callback -/

/-- The note of an entry, if it can be opened. -/
def openNote (visitor : Visitor Note) (e : Entry) : Option Note :=
  match visitor.getNote e.noteid with
  | .ok note => note
  | .error _ => none

/-- The number of visits up to the first one that throws, which counts. -/
def visits (visitor : Visitor Note) : List Entry → List (Note × List (List UInt8)) → ℕ
  | [], _ => 0
  | e :: es, calls =>
      match deliver visitor [e] calls with
      | (some _, _) => 1
      | (none, calls') => visits visitor es calls' + 1

variable (visitor) in
theorem visits_le_length (es : List Entry) (calls : List (Note × List (List UInt8))) :
    visits visitor es calls ≤ es.length := by
  induction es generalizing calls with
  | nil => exact Nat.le_refl _
  | cons e es ih =>
      rw [visits, List.length_cons]
      split
      · omega
      · exact Nat.succ_le_succ (ih _)

/-- The note of an entry, if it can be opened, with the columns that hold a value. -/
def seen (visitor : Visitor Note) (e : Entry) : Option (Note × List (List UInt8)) :=
  (openNote visitor e).map fun note => (note, e.withoutEmpty.columns)

variable (visitor) in
theorem deliver_one_calls (e : Entry) (calls : List (Note × List (List UInt8))) :
    (deliver visitor [e] calls).2 = calls ++ (seen visitor e).toList := by
  simp only [deliver, seen, openNote]
  cases visitor.getNote e.noteid with
  | error error => simp
  | ok note =>
      cases note with
      | none => simp
      | some note =>
          simp only
          split <;> simp

theorem deliver_calls (es : List Entry) (calls : List (Note × List (List UInt8))) :
    (deliver visitor es calls).2 =
      calls ++ (es.take (visits visitor es calls)).filterMap (seen visitor) := by
  induction es generalizing calls with
  | nil => simp [deliver]
  | cons e es ih =>
      have hone := deliver_one_calls visitor e calls
      have hsplit := deliver_append visitor [e] es calls
      rw [List.singleton_append] at hsplit
      rw [hsplit, visits]
      rcases hresult : deliver visitor [e] calls with ⟨_ | error, calls'⟩ <;>
        rw [hresult] at hone
      · simp only at hone ⊢
        rw [ih, hone, List.take_succ_cons, List.filterMap_cons, List.append_assoc]
        cases seen visitor e <;> rfl
      · simp only at hone ⊢
        rw [hone, List.take_succ_cons, List.take_zero, List.filterMap_cons]
        cases seen visitor e <;> rfl

theorem map_fst_seen (es : List Entry) :
    (es.filterMap (seen visitor)).map Prod.fst = es.filterMap (openNote visitor) := by
  rw [List.map_filterMap]
  congr 1
  funext e
  simp [seen, Function.comp_def]

theorem map_fst_deliver (es : List Entry) (calls : List (Note × List (List UInt8))) :
    (deliver visitor es calls).2.map Prod.fst = calls.map Prod.fst ++
      (es.take (visits visitor es calls)).filterMap (openNote visitor) := by
  rw [deliver_calls, List.map_append, map_fst_seen]

/-- The entries that the options ask for. -/
def requested (entries : List Entry) (opts : QueryOptions) : List Entry :=
  (entries.drop opts.offset.toNat).take opts.count.toNat

/-- The requested entries at positions from the count on, and those behind a visit that
throws. -/
def unvisited (visitor : Visitor Note) (entries : List Entry) (opts : QueryOptions) :
    List Entry :=
  (requested entries opts).drop (visits visitor
    ((requested entries opts).take (opts.count.toNat - opts.offset.toNat)) [])

/-- NIF that returns a single entry at a time. -/
def oneByOne (entries : List Entry) : Nif ℤ where
  start := -1
  readEntries _ request :=
    let first := (request.position + request.skip.toNat).toNat
    match entries.drop first with
    | [] => ⟨.noError, first, none, 0, 0⟩
    | e :: rest =>
        ⟨.noError, first + 1, some (entryBytes e), 1, if rest = [] then 0 else signalMoreToDo⟩
  findByName _ := ⟨.notFound, -1, 0⟩

/-- A single entry is a chunk where the signal is set when it should be. -/
theorem chunkSpec_single {e : Entry} {count : UInt32} (first : ℕ) (rest : List Entry)
    (signal : UInt16) (hsize : tableLength e.columns < 2 ^ 16 - 4) (hcount : count.toNat ≠ 0)
    (hmore : 1 < count.toNat → rest ≠ [] → signal &&& signalMoreToDo ≠ 0) :
    ChunkSpec id first (e :: rest) count ⟨.noError, first + 1, some (entryBytes e), 1, signal⟩ where
  status_eq := rfl
  le_rest := by simp
  le_count := by
    simp
    omega
  progress := by simp
  buffer_eq := by simp
  small := by
    simp [length_entryBytes]
    omega
  more := by
    intro hlt hrest
    have hbehind : rest ≠ [] := by
      rintro rfl
      simp at hrest
    simpa [Answer.more] using hmore hlt hbehind
  place_eq := by simp

theorem oneByOne_readsView {entries : List Entry}
    (hsize : ∀ e ∈ entries, tableLength e.columns < 2 ^ 16 - 4) :
    ReadsView (oneByOne entries) entries id := by
  refine ⟨rfl, fun e he => lt_of_lt_of_le (hsize e he) (by decide), ?_⟩
  rintro previous ⟨position, skip, count⟩ first hcount hfirst
  have hcount' : count.toNat ≠ 0 := toNat_ne_zero hcount
  have hnat : (position + skip.toNat).toNat = first := by
    simp only [id] at hfirst
    omega
  simp only [oneByOne, hnat]
  cases hrest : entries.drop first with
  | nil => exact ⟨by constructor <;> simp, by simp [Answer.more]⟩
  | cons e rest =>
      have hmem : e ∈ entries := List.drop_subset first entries (by simp [hrest])
      have hchunk := chunkSpec_single first rest (if rest = [] then 0 else signalMoreToDo)
        (hsize e hmem) hcount' (by simp +contextual [signalMoreToDo])
      refine ⟨hchunk.toAnswerSpec, fun _ => ?_⟩
      cases rest <;> simp [Answer.more, signalMoreToDo]

/-- Three entries without columns, whose notes are their ids. -/
def threeEntries : List Entry := [⟨1, []⟩, ⟨2, []⟩, ⟨3, []⟩]

def idVisitor : Visitor UInt32 := ⟨fun noteid => .ok (some noteid), fun _ => none⟩

theorem threeEntries_readsView : ReadsView (oneByOne threeEntries) threeEntries id :=
  oneByOne_readsView (by decide)

end Dmn.View
