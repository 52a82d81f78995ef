import Dmn.Library.Terminated
import Dmn.Model.Names
import Dmn.Verification.MemoryOwner

/-! # Names that are read from a block

The walk through the views is a walk through the list of the bytes that a view has, and stays inside
the block. -/

namespace Dmn.Names

open Exec Native Heap Locker Terminated

namespace View

variable (bytes : List UInt8) {view : View}

/-- The bytes of the view. -/
def window (view : View) : List UInt8 := (bytes.drop view.offset).take view.size

/-- The view lies in the block. -/
def Fits (view : View) : Prop := view.offset + view.size ≤ bytes.length

variable {bytes}

theorem Fits.length_window (h : view.Fits bytes) : (view.window bytes).length = view.size := by
  rw [window, List.length_take, List.length_drop]
  have hfits : view.offset + view.size ≤ bytes.length := h
  omega

theorem Fits.substr (h : view.Fits bytes) {pos : ℕ} (hpos : pos ≤ view.size) :
    ∃ rest, view.substr pos = .ok rest ∧ rest.Fits bytes ∧
      rest.window bytes = (view.window bytes).drop pos := by
  have hfits : view.offset + view.size ≤ bytes.length := h
  refine ⟨⟨view.offset + pos, view.size - pos⟩, if_neg (by omega), ?_, ?_⟩
  · show view.offset + pos + (view.size - pos) ≤ bytes.length
    omega
  · simp [window, List.drop_take]

theorem Fits.load_front (h : view.Fits bytes) {count : ℕ} (hcount : count ≤ view.size) :
    (view.front count).load bytes = .ok ((view.window bytes).take count) := by
  have hfits : view.offset + view.size ≤ bytes.length := h
  have hsize : min count view.size = count := Nat.min_eq_left hcount
  have hinside : ¬ bytes.length < view.offset + count := by omega
  rw [front, hsize, load, if_neg hinside, window, List.take_take, hsize]

theorem findFrom_eq (remaining : ℕ) {pos : ℕ}
    (h : view.offset + pos + remaining ≤ bytes.length) :
    view.findFrom bytes pos remaining =
      .ok ((position 0 ((bytes.drop (view.offset + pos)).take remaining)).map (pos + ·)) := by
  induction remaining generalizing pos with
  | zero => rfl
  | succ remaining ih =>
    have hpos : view.offset + pos < bytes.length := by omega
    have hbyte : view.byteAt bytes pos = .ok bytes[view.offset + pos] := by
      simp [byteAt, hpos]
    rw [findFrom, hbyte, List.drop_eq_getElem_cons hpos, List.take_succ_cons]
    by_cases hzero : bytes[view.offset + pos] = 0
    · rw [hzero, position_cons_self]
      rfl
    · have hrest := @ih (pos + 1) (by omega)
      rw [position_cons_of_ne hzero, Option.map_map]
      show (if _ then _ else _) = _
      rw [if_neg hzero, hrest, Nat.add_assoc]
      congr 2
      funext nul
      show pos + 1 + nul = pos + (nul + 1)
      omega

theorem Fits.find_eq (h : view.Fits bytes) :
    view.find bytes = .ok (position 0 (view.window bytes)) := by
  have hfits : view.offset + 0 + view.size ≤ bytes.length := h
  rw [find, findFrom_eq view.size hfits]
  simp [window]

/-! ## The walk -/

/-- The text at `index`, if that many texts end with a null byte. -/
def textAt : ℕ → List UInt8 → Option (List UInt8)
  | 0, current => if 0 ∈ current then some (current.takeWhile (· ≠ 0)) else none
  | index + 1, current =>
      if 0 ∈ current then textAt index ((current.dropWhile (· ≠ 0)).drop 1) else none

/-- The exception of a list that ends before the name. -/
def malformed : Stop := .throws (.runtimeError "Names list is malformed")

/-- The loop comes to the view of the text, or finds that there is none. -/
theorem Fits.skip (h : view.Fits bytes) (index : ℕ) :
    (∃ rest, view.skip bytes index = .ok rest ∧ rest.Fits bytes ∧
        textAt 0 (rest.window bytes) = textAt index (view.window bytes)) ∨
      view.skip bytes index = .error malformed ∧
        textAt index (view.window bytes) = none := by
  induction index generalizing view with
  | zero => exact .inl ⟨view, rfl, h, rfl⟩
  | succ index ih =>
    by_cases hnull : 0 ∈ view.window bytes
    · have hlt := length_takeWhile_lt hnull
      rw [h.length_window] at hlt
      obtain ⟨next, hsubstr, hnext, hwindow⟩ := h.substr hlt
      rw [drop_length_takeWhile] at hwindow
      have hskip : view.skip bytes (index + 1) = next.skip bytes index := by
        rw [View.skip, h.find_eq, position_of_mem hnull]
        simp only [bind, Except.bind, hsubstr]
      rw [hskip, textAt, if_pos hnull, ← hwindow]
      exact ih hnext
    · right
      rw [View.skip, h.find_eq, position_of_notMem hnull, textAt, if_neg hnull]
      exact ⟨rfl, rfl⟩

end View

open Names.View

variable {env : MemoryOwner.Env} {bytes : List UInt8}

/-- The walk reads the same text as the function on lists does. -/
theorem nameAt_eq (h : env.sizeofNamesList ≤ bytes.length) (index : ℕ) :
    nameAt env bytes bytes.length index =
      match textAt index (bytes.drop env.sizeofNamesList) with
      | none => .error malformed
      | some text => .ok (Lmbcs.toString env.codePage text) := by
  have hwhole : Fits bytes ⟨0, bytes.length⟩ := by simp [Fits]
  obtain ⟨first, hfirst, hfits, hwindow⟩ := hwhole.substr h
  have hbytes : first.window bytes = bytes.drop env.sizeofNamesList := by
    simpa [window] using hwindow
  rw [← hbytes, nameAt, hfirst]
  rcases hfits.skip index with ⟨rest, hskip, hrest, htext⟩ | ⟨hskip, htext⟩
  · rw [← htext, textAt]
    show (first.skip bytes index >>= _) = _
    rw [hskip]
    show (rest.find bytes >>= _) = _
    rw [hrest.find_eq]
    by_cases hnull : 0 ∈ rest.window bytes
    · have hle := Nat.le_of_lt (length_takeWhile_lt hnull)
      rw [hrest.length_window] at hle
      have hload := hrest.load_front hle
      rw [take_length_takeWhile] at hload
      rw [position_of_mem hnull, if_pos hnull]
      simp only [bind, Except.bind, hload]
    · rw [position_of_notMem hnull, if_neg hnull]
      rfl
  · rw [htext]
    show (first.skip bytes index >>= _) = _
    rw [hskip]
    rfl

/-! ## Reading through a cursor -/

variable {self : MemoryOwner} {heap : Heap} {block : Block} {α : Type}

/-- A program on the bytes of the block, which is locked for it. -/
theorem answers_within (hblock : heap.get? self.hdl_ = some block) {body : Locker → Heap.M α}
    {result : Except Stop α}
    (hbody : ∀ n, exec (body ⟨self.hdl_, block.bytes.length, .borrow⟩)
        ⟨n, heap.modify self.hdl_ relocked⟩ = (result, ⟨n, heap.modify self.hdl_ relocked⟩)) :
    Answers env.native (within (MemoryOwner.namesGetCursor env self) body) heap result := by
  have hne : self.hdl_ ≠ 0 := Nat.ne_of_gt (valid_of_get? hblock).1
  have hcursor : MemoryOwner.namesGetCursor env self = ofHandle env.native self.hdl_ .borrow := by
    rw [MemoryOwner.namesGetCursor, MemoryOwner.getHandle, if_neg hne]
    rfl
  rw [hcursor]
  exact answers_within_ofHandle hblock hbody

theorem exec_block_relocked (hblock : heap.get? self.hdl_ = some block) (n : ℕ) :
    exec (Heap.block self.hdl_) ⟨n, heap.modify self.hdl_ relocked⟩ =
      (.ok (relocked block), ⟨n, heap.modify self.hdl_ relocked⟩) :=
  exec_block (get?_modify_self hblock relocked)

variable (env) in
/-- The count in the header of a block. -/
def count (bytes : List UInt8) : ℕ := env.numNames (bytes.take env.sizeofNamesList)

theorem answers_size (hblock : heap.get? self.hdl_ = some block)
    (hheader : env.sizeofNamesList ≤ block.bytes.length) :
    Answers env.native (size env self) heap (.ok (count env block.bytes)) := by
  refine answers_within hblock fun n => ?_
  have hload : View.load block.bytes ⟨0, env.sizeofNamesList⟩ =
      .ok (block.bytes.take env.sizeofNamesList) := by
    have hinside : ¬ block.bytes.length < 0 + env.sizeofNamesList := by omega
    rw [View.load, if_neg hinside, List.drop_zero]
  rw [exec_bind_of_ok (exec_block_relocked hblock n)]
  simp only [relocked, hload]
  rfl

variable (env) in
/-- What `at` gives on a block. -/
def result (bytes : List UInt8) (index : ℕ) : Except Stop (List UInt8) :=
  if count env bytes ≤ index then .error (.throws (.outOfRange "Index is out of range"))
  else match textAt index (bytes.drop env.sizeofNamesList) with
    | none => .error malformed
    | some text => .ok (Lmbcs.toString env.codePage text)

theorem result_ne_undefined (bytes : List UInt8) (index : ℕ) :
    result env bytes index ≠ .error .undefined := by
  unfold result
  split
  · simp
  · split <;> simp [malformed]

theorem answers_get (hblock : heap.get? self.hdl_ = some block)
    (hheader : env.sizeofNamesList ≤ block.bytes.length) (index : ℕ) :
    Answers env.native (get env self index) heap (result env block.bytes index) := by
  refine (answers_size hblock hheader).bind ?_
  unfold result
  split
  · exact .throw _ _
  · refine answers_within hblock fun n => ?_
    rw [exec_bind_of_ok (exec_block_relocked hblock n), ← nameAt_eq hheader, exec_ofExcept]
    rfl

/-! ## Stored names -/

/-- The names, with a null byte behind each. -/
def terminated (names : List (List UInt8)) : List UInt8 := names.flatMap fun name => name ++ [0]

theorem textAt_terminated {names : List (List UInt8)} (hnames : ∀ name ∈ names, 0 ∉ name)
    (rest : List UInt8) {index : ℕ} (h : index < names.length) :
    textAt index (terminated names ++ rest) = some names[index] := by
  induction names generalizing index with
  | nil => simp at h
  | cons name names ih =>
    have hname : 0 ∉ name := hnames name List.mem_cons_self
    have hbytes : terminated (name :: names) ++ rest = name ++ 0 :: (terminated names ++ rest) := by
      simp [terminated]
    have hnull : 0 ∈ name ++ 0 :: (terminated names ++ rest) := by simp
    rw [hbytes]
    cases index with
    | zero =>
      rw [textAt, if_pos hnull, takeWhile_append_cons hname]
      rfl
    | succ index =>
      rw [textAt, if_pos hnull, dropWhile_append_cons hname]
      exact ih (fun name hname => hnames name (List.mem_cons_of_mem _ hname)) (by simpa using h)

/-- A block with a header that counts the names, the names, and any bytes behind them. -/
structure Stored (env : MemoryOwner.Env) (names : List (List UInt8)) (bytes : List UInt8) :
    Prop where
  layout : ∃ header rest, bytes = header ++ (terminated names ++ rest) ∧
    header.length = env.sizeofNamesList ∧ env.numNames header = names.length
  no_null : ∀ name ∈ names, 0 ∉ name

theorem Stored.count_eq {names : List (List UInt8)} (h : Stored env names bytes) :
    count env bytes = names.length := by
  obtain ⟨header, rest, rfl, hlength, hcount⟩ := h.layout
  rw [count, ← hlength, List.take_left, hcount]

/-- The name at an index, or the exception where there is none. -/
theorem Stored.result_eq {names : List (List UInt8)} (h : Stored env names bytes) (index : ℕ) :
    result env bytes index = match names[index]? with
      | some name => .ok (Lmbcs.toString env.codePage name)
      | none => .error (.throws (.outOfRange "Index is out of range")) := by
  have hcount := h.count_eq
  obtain ⟨header, rest, rfl, hlength, -⟩ := h.layout
  rw [result, hcount]
  by_cases hindex : index < names.length
  · have htext := textAt_terminated h.no_null rest hindex
    rw [if_neg (Nat.not_le.mpr hindex), ← hlength, List.drop_left, htext,
      List.getElem?_eq_getElem hindex]
  · rw [if_pos (Nat.not_lt.mp hindex), List.getElem?_eq_none (Nat.not_lt.mp hindex)]

theorem Stored.answers_iterateFrom {names : List (List UInt8)} (h : Stored env names block.bytes)
    (hblock : heap.get? self.hdl_ = some block)
    (hheader : env.sizeofNamesList ≤ block.bytes.length) (remaining : ℕ) {index : ℕ}
    (hcount : index + remaining = names.length) :
    Answers env.native (iterateFrom env self index remaining) heap
      (.ok ((names.drop index).map (Lmbcs.toString env.codePage))) := by
  induction remaining generalizing index with
  | zero =>
    have hdrop : names.drop index = [] := List.drop_eq_nil_of_le (by omega)
    rw [hdrop]
    exact .pure _ _
  | succ remaining ih =>
    have hindex : index < names.length := by omega
    have hget := answers_get hblock hheader index
    rw [h.result_eq, List.getElem?_eq_getElem hindex] at hget
    rw [List.drop_eq_getElem_cons hindex, List.map_cons]
    exact hget.bind ((ih (by omega)).bind (.pure _ _))

variable (env self) in
/-- Any block with room for a header is read within its bounds, and a names list name by name. -/
theorem get_reads (hblock : heap.get? self.hdl_ = some block)
    (hheader : env.sizeofNamesList ≤ block.bytes.length) :
    (∀ index, ∃ result, result ≠ .error .undefined ∧
      Answers env.native (get env self index) heap result) ∧
    ∀ names, Stored env names block.bytes →
      (∀ index, Answers env.native (get env self index) heap (match names[index]? with
        | some name => .ok (Lmbcs.toString env.codePage name)
        | none => .error (.throws (.outOfRange "Index is out of range")))) ∧
      Answers env.native (iterate env self) heap
        (.ok (names.map (Lmbcs.toString env.codePage))) := by
  refine ⟨fun index => ⟨_, result_ne_undefined block.bytes index, answers_get hblock hheader index⟩,
    fun names hstored => ⟨fun index => ?_, ?_⟩⟩
  · rw [← hstored.result_eq]
    exact answers_get hblock hheader index
  · have hsize := answers_size hblock hheader
    rw [hstored.count_eq] at hsize
    exact hsize.bind (hstored.answers_iterateFrom hblock hheader names.length (Nat.zero_add _))

/-- The count is the first word of a header of 16 bytes. -/
def sampleEnv : MemoryOwner.Env := { MemoryOwner.sampleEnv with
  numNames header := Cursor.littleEndian (header.take 2)
  sizeofNamesList := 16 }

/-- A header that counts two names, the names `a` and the empty one, and another byte. -/
def sampleBytes : List UInt8 := 2 :: List.replicate 15 0 ++ ([0x61, 0, 0] ++ [0x62])

theorem get_reads_sample :
    let heap := MemoryOwner.noMemory.value.add ⟨0, sampleBytes⟩
    Answers sampleEnv.native (get sampleEnv ⟨1, 0⟩ 1) heap (.ok []) ∧
    Answers sampleEnv.native (get sampleEnv ⟨1, 0⟩ 2) heap
      (.error (.throws (.outOfRange "Index is out of range"))) ∧
    Answers sampleEnv.native (iterate sampleEnv ⟨1, 0⟩) heap (.ok [[0x61], []]) := by
  have hstored : Stored sampleEnv [[0x61], []] sampleBytes :=
    ⟨⟨2 :: List.replicate 15 0, [0x62], rfl, rfl, by decide⟩, by decide⟩
  have hreads := get_reads sampleEnv ⟨1, 0⟩ (get?_add_self MemoryOwner.noMemory.value ⟨0, sampleBytes⟩)
    (by decide)
  obtain ⟨hget, hiterate⟩ := hreads.2 _ hstored
  exact ⟨hget 1, hget 2, hiterate⟩

end Dmn.Names
