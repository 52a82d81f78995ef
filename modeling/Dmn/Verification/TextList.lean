import Mathlib.Data.List.InsertIdx
import Dmn.Library.Run
import Dmn.Model.TextList
import Dmn.Verification.Cursor.Correctness
import Dmn.Verification.Lmbcs.RoundTrip
import Dmn.Verification.Native

/-! # Operations on text lists

While `size_` is the size of the memory, every operation does to the entries what it is for,
or leaves them as they are. -/

namespace Dmn.TextList

open Exec Native Cursor

variable {env : Env} {entries : Entries}

/-! ## Sizes -/

@[simp] theorem length_lengthBytes (entries : Entries) :
    (lengthBytes entries).length = 2 * entries.length := by
  induction entries with
  | nil => rfl
  | cons text entries ih =>
      simp only [lengthBytes, List.flatMap_cons, List.length_append] at ih ⊢
      rw [ih, length_integerBytes, List.length_cons]
      omega

theorem byteSize_eq (entries : Entries) :
    byteSize entries = 4 + 2 * entries.length + entries.flatten.length := by
  simp only [byteSize, bytes, List.length_append, length_integerBytes, length_lengthBytes]
  omega

/-- The memory of the object is that of the entries, and `size_` is its size. -/
structure Holds (entries : Entries) (list : TextList) : Prop where
  memory : list.memory = some entries
  size : list.size_.toNat = byteSize entries

theorem Holds.length_lt {list : TextList} (h : Holds entries list) : entries.length < 2 ^ 16 := by
  have hsize := h.size
  have hlt := list.size_.toNat_lt
  rw [byteSize_eq] at hsize
  omega

/-! ## Native calls -/

theorem exec_getHandle {s : Called TextList} (h : Holds entries s.value) :
    exec getHandle s = (.ok entries, s) := by
  rw [getHandle, exec_bind_of_ok (Native.exec_value _), h.memory]
  rfl

theorem exec_lock {s : Called TextList} (h : Holds entries s.value) : exec (lock env) s =
    if (env.native.status s.calls).isError then
      (.error (.throws (.invalidHandle "Memory pointed to by handle is empty")),
        { s with calls := s.calls + 1 })
    else (.ok entries, { s with calls := s.calls + 1 }) := by
  rw [lock, exec_bind_of_ok (exec_getHandle h), exec_bind_of_ok (exec_call s)]
  split <;> rfl

theorem exec_listChange {s : Called TextList} (h : Holds entries s.value)
    (f : Entries → Entries) : exec (listChange env f) s =
      if (env.native.status s.calls).isError then
        (.ok (env.native.status s.calls), { s with calls := s.calls + 1 })
      else if byteSize (f entries) < 2 ^ 16 then
        (.ok (env.native.status s.calls),
          ⟨s.calls + 1, ⟨some (f entries), UInt16.ofNat (byteSize (f entries))⟩⟩)
      else (.ok env.listFull, { s with calls := s.calls + 1 }) := by
  rw [listChange, exec_bind_of_ok (Native.exec_value _), h.memory]
  simp only
  rw [if_neg (by rw [h.size]; simp), exec_bind_of_ok (exec_call s)]
  split
  · rfl
  · split <;> rfl

theorem exec_getHandle_eq_ok {s t : Called TextList}
    (h : exec getHandle s = (.ok entries, t)) : s.value.memory = some entries ∧ t = s := by
  obtain ⟨list, u, hvalue, h⟩ := exec_bind_eq_ok h
  obtain ⟨rfl, rfl⟩ := exec_value_eq_ok hvalue
  split at h
  · cases h
  · next heq =>
    cases h
    exact ⟨heq, rfl⟩

theorem exec_lock_eq_ok {s t : Called TextList} (h : exec (lock env) s = (.ok entries, t)) :
    s.value.memory = some entries ∧ t.value = s.value := by
  obtain ⟨found, u, hhandle, hrest⟩ := exec_bind_eq_ok h
  obtain ⟨hmemory, hu⟩ := exec_getHandle_eq_ok hhandle
  rw [exec_bind_of_ok (exec_call u)] at hrest
  split at hrest
  · cases hrest
  · cases hrest
    rw [hu]
    exact ⟨hmemory, rfl⟩

/-- A cursor on a list views its bytes, as far as a 16-bit size tells. -/
theorem exec_getCursor_eq_ok {s t : Called TextList} {cursor : Cursor}
    (h : exec (getCursor env) s = (.ok cursor, t)) :
    ∃ entries, s.value.memory = some entries ∧
      cursor = Cursor.make (some ((bytes entries).take (byteSize entries % 2 ^ 16))) := by
  obtain ⟨entries, u, hhandle, hrest⟩ := exec_bind_eq_ok h
  obtain ⟨hmemory, hu⟩ := exec_getHandle_eq_ok hhandle
  obtain ⟨size, u', hsize, hrest⟩ := exec_bind_eq_ok hrest
  unfold bufferSize at hsize
  obtain ⟨measured, u'', hlock, hsize⟩ := exec_bind_eq_ok hsize
  obtain ⟨hmeasured, hvalue⟩ := exec_lock_eq_ok hlock
  cases hsize
  obtain ⟨viewed, w, hlock', hrest⟩ := exec_bind_eq_ok hrest
  obtain ⟨hviewed, _⟩ := exec_lock_eq_ok hlock'
  cases hrest
  rw [hvalue, hu, hmemory] at hviewed
  rw [hu, hmemory] at hmeasured
  cases hviewed
  cases hmeasured
  exact ⟨entries, hmemory, by rw [UInt16.toNat_ofNat']⟩

/-! ## Reading a list -/

theorem readLengths_lengthBytes (entries : Entries) (rest : List UInt8)
    (hsize : ∀ text ∈ entries, text.length < 2 ^ 16) :
    readLengths entries.length (lengthBytes entries ++ rest) = entries.map List.length := by
  induction entries with
  | nil => rfl
  | cons text entries ih =>
      have hsplit : lengthBytes (text :: entries) ++ rest =
          integerBytes 2 text.length ++ (lengthBytes entries ++ rest) := by
        simp [lengthBytes]
      have hlength : (integerBytes 2 text.length).length = 2 := length_integerBytes 2 _
      have hlt : text.length < 256 ^ 2 := hsize text List.mem_cons_self
      rw [hsplit, List.length_cons, readLengths, List.take_left' hlength, List.drop_left' hlength,
        littleEndian_integerBytes, ih fun x hx => hsize x (List.mem_cons_of_mem text hx),
        Nat.mod_eq_of_lt hlt, List.map_cons]

theorem splitTexts_flatten (entries : Entries) :
    splitTexts (entries.map List.length) entries.flatten = entries := by
  induction entries with
  | nil => rfl
  | cons text entries ih =>
      rw [List.map_cons, List.flatten_cons, splitTexts, List.take_left, List.drop_left, ih]

/-- A list is read back from its bytes. -/
theorem ofBytes_bytes (hsize : byteSize entries < 2 ^ 16) :
    ofBytes (bytes entries) = some entries := by
  have htotal := byteSize_eq entries
  have htype : (integerBytes 2 typeTextList.toNat).length = 2 := length_integerBytes 2 _
  have hword : (integerBytes 2 entries.length).length = 2 := length_integerBytes 2 _
  have hblock : (bytes entries).drop 2 = integerBytes 2 entries.length ++
      (lengthBytes entries ++ entries.flatten) := List.drop_left' htype
  have hcount : littleEndian (((bytes entries).drop 2).take 2) = entries.length := by
    have hlt : entries.length < 256 ^ 2 := by omega
    rw [hblock, List.take_left' hword, littleEndian_integerBytes, Nat.mod_eq_of_lt hlt]
  have htable : (bytes entries).drop 4 = lengthBytes entries ++ entries.flatten := by
    rw [show 4 = 2 + 2 from rfl, ← List.drop_drop, hblock, List.drop_left' hword]
  have hlengths : readLengths entries.length ((bytes entries).drop 4) =
      entries.map List.length := by
    rw [htable]
    apply readLengths_lengthBytes
    intro text htext
    have hle := (List.sublist_flatten_of_mem htext).length_le
    omega
  have htexts : (bytes entries).drop (4 + 2 * entries.length) = entries.flatten := by
    rw [← List.drop_drop, htable, List.drop_left' (length_lengthBytes entries)]
  have hfits : ¬ (bytes entries).length <
      4 + 2 * entries.length + (entries.map List.length).sum := by
    rw [← List.length_flatten]
    exact Nat.not_lt_of_le (Nat.le_of_eq htotal.symm)
  simp only [ofBytes, hcount, hlengths, htexts, if_neg hfits, splitTexts_flatten]

/-! ## Contracts -/

def Throws (entries : Entries) (stop : Stop) (s : Called TextList) : Prop :=
  Holds entries s.value ∧ stop ≠ .undefined

theorem meets_lock : Meets (fun s => Holds entries s.value) (lock env)
    (fun result s => Holds entries s.value ∧ result = entries) (Throws entries) := by
  intro s h
  rw [exec_lock h]
  split
  · next heq =>
    split at heq
    · cases heq
    · cases heq
      exact ⟨h, rfl⟩
  · next heq =>
    split at heq
    · cases heq
      exact ⟨h, by simp⟩
    · cases heq

theorem meets_size : Meets (fun s => Holds entries s.value) (size env)
    (fun result s => Holds entries s.value ∧ result = entries.length) (Throws entries) :=
  Meets.bind_of_eq meets_lock (Meets.pure fun _ h => ⟨h, rfl⟩)

theorem meets_get (index : Nat) : Meets (fun s => Holds entries s.value) (get env index)
    (fun result s => Holds entries s.value ∧
      (entries.map (Lmbcs.toString env.codePage))[index]? = some result) (Throws entries) := by
  apply Meets.bind_of_eq meets_size
  split
  · exact Meets.throw fun _ h => ⟨h, by simp⟩
  · next hindex =>
    apply Meets.bind_of_eq meets_lock
    apply Meets.bind (meets_call fun _ h => h)
    intro result
    apply Meets.bind (meets_throwIfError fun _ h => ⟨h, by simp⟩)
    intro _ s h
    have hlt : index < entries.length := Nat.lt_of_not_le hindex
    have hmod : index % 2 ^ 16 = index := Nat.mod_eq_of_lt (hlt.trans h.length_lt)
    rw [hmod, List.getElem?_eq_getElem hlt]
    exact ⟨h, by simp [hlt]⟩

/-- A call that changes the memory changes `size_` with it, or nothing. -/
theorem meets_listChange (f : Entries → Entries) :
    Meets (fun s => Holds entries s.value) (listChange env f) (fun result s =>
      if result.isError then Holds entries s.value else Holds (f entries) s.value)
      (Throws entries) := by
  intro s h
  rw [exec_listChange h f]
  cases herror : (env.native.status s.calls).isError with
  | true => simpa [herror] using h
  | false =>
      by_cases hroom : byteSize (f entries) < 2 ^ 16
      · simp only [Bool.false_eq_true, if_false, hroom, if_true, herror]
        exact ⟨rfl, UInt16.toNat_ofNat_of_lt hroom⟩
      · simp only [Bool.false_eq_true, if_false, hroom, env.isError_listFull, if_true]
        exact h

theorem meets_changed (f : Entries → Entries) (message : String) :
    Meets (fun s => Holds entries s.value)
      (do let result ← listChange env f; result.throwIfError message)
      (fun _ s => Holds (f entries) s.value) (Throws entries) := by
  apply (meets_listChange f).bind
  intro result
  unfold Status.throwIfError
  cases result.isError with
  | true => exact Meets.throw fun _ h => ⟨h, by simp⟩
  | false => exact Meets.pure fun _ h => h

theorem meets_pushBack (value : List UInt8) : Meets (fun s => Holds entries s.value)
    (pushBack env value)
    (fun _ s => Holds (entries ++ [Lmbcs.fromString env.codePage value]) s.value)
    (Throws entries) := by
  unfold pushBack
  dsimp only
  split
  · exact Meets.throw fun _ h => ⟨h, by simp⟩
  · apply Meets.bind_of_eq meets_size
    split
    · exact Meets.throw fun _ h => ⟨h, by simp⟩
    · have hadded : entries ++ [Lmbcs.fromString env.codePage value] =
          entries.take entries.length ++
            Lmbcs.fromString env.codePage value :: entries.drop entries.length := by
        rw [List.take_length, List.drop_length]
      rw [hadded]
      exact meets_changed (fun entries' => entries'.take entries.length ++
        Lmbcs.fromString env.codePage value :: entries'.drop entries.length) _

/-- A list has fewer entries than a 16-bit word counts. -/
theorem meets_of_length_lt {α : Type} {x : M α} {Q : α → Called TextList → Prop}
    {E : Stop → Called TextList → Prop}
    (h : entries.length < 2 ^ 16 → Meets (fun s => Holds entries s.value) x Q E) :
    Meets (fun s => Holds entries s.value) x Q E := fun s hs => h hs.length_lt s hs

theorem meets_erase (index : Nat) : Meets (fun s => Holds entries s.value) (erase env index)
    (fun _ s => Holds (entries.eraseIdx index) s.value) (Throws entries) := by
  apply meets_of_length_lt
  intro hlength
  apply Meets.bind_of_eq meets_size
  split
  · exact Meets.throw fun _ h => ⟨h, by simp⟩
  · next hindex =>
    have hmod : index % 2 ^ 16 = index :=
      Nat.mod_eq_of_lt ((Nat.lt_of_not_le hindex).trans hlength)
    rw [hmod]
    exact meets_changed (fun entries => entries.eraseIdx index) _

theorem meets_popBack : Meets (fun s => Holds entries s.value) (popBack env)
    (fun _ s => Holds entries.dropLast s.value) (Throws entries) := by
  apply Meets.bind_of_eq meets_size
  split
  · exact Meets.throw fun _ h => ⟨h, by simp⟩
  · rw [← List.eraseIdx_length_sub_one]
    exact meets_erase (entries.length - 1)

theorem meets_clear : Meets (fun s => Holds entries s.value) (clear env)
    (fun _ s => Holds [] s.value) (Throws entries) := by
  intro s h
  rw [clear, exec_bind_of_ok (exec_getHandle h)]
  exact meets_changed (fun _ => []) _ s h

/-! ## What is read, unless a native call reports an error -/

theorem delivers_lock {list : TextList} (h : Holds entries list) :
    Delivers env.native (lock env) list entries list := by
  intro n
  have hlock : exec (lock env) ⟨n, list⟩ = _ := exec_lock h
  rw [hlock]
  cases herror : (env.native.status n).isError with
  | true =>
      refine .inr ⟨⟨_, rfl⟩, n, Nat.le_refl n, fun heq => ?_⟩
      rw [heq] at herror
      cases herror
  | false => exact .inl ⟨n + 1, Nat.le_succ n, rfl⟩

theorem delivers_size {list : TextList} (h : Holds entries list) :
    Delivers env.native (size env) list entries.length list := (delivers_lock h).bind (.pure _ _)

theorem delivers_get {list : TextList} (h : Holds entries list) {index : Nat} {text : List UInt8}
    (htext : (entries.map (Lmbcs.toString env.codePage))[index]? = some text) :
    Delivers env.native (get env index) list text list := by
  obtain ⟨hindex, hget⟩ := List.getElem?_eq_some_iff.mp htext
  have hlt : index < entries.length := by rwa [List.length_map] at hindex
  have hmod : index % 2 ^ 16 = index := Nat.mod_eq_of_lt (hlt.trans h.length_lt)
  refine (delivers_size h).bind ?_
  rw [if_neg (Nat.not_le_of_lt hlt)]
  refine (delivers_lock h).bind (.call_bind ?_)
  rw [hmod, List.getElem?_eq_getElem hlt]
  rw [List.getElem_map] at hget
  rw [← hget]
  exact .pure _ _

theorem delivers_iterateFrom {list : TextList} (h : Holds entries list) {index count : Nat}
    (hle : index + count ≤ entries.length) : Delivers env.native (iterateFrom env index count) list
      (((entries.map (Lmbcs.toString env.codePage)).drop index).take count) list := by
  induction count generalizing index with
  | zero => exact .pure _ _
  | succ count ih =>
      have hindex : index < (entries.map (Lmbcs.toString env.codePage)).length := by
        rw [List.length_map]
        omega
      rw [List.drop_eq_getElem_cons hindex, List.take_succ_cons]
      exact (delivers_get h (List.getElem?_eq_getElem hindex)).bind
        ((ih (by omega)).bind (.pure _ _))

theorem delivers_iterate {list : TextList} (h : Holds entries list) :
    Delivers env.native (iterate env) list (entries.map (Lmbcs.toString env.codePage)) list := by
  refine (delivers_size h).bind ?_
  have hall : Delivers env.native (iterateFrom env 0 entries.length) list _ list :=
    delivers_iterateFrom h (Nat.le_of_eq (Nat.zero_add entries.length))
  rwa [List.drop_zero, List.take_of_length_le (by rw [List.length_map])] at hall

/-! ## `push_back` -/

/-- No native call that `push_back` makes fails, and there is room for the entry. -/
def Accepts (env : Env) (calls : Nat) (list : TextList) (value : List UInt8) : Prop :=
  (env.native.status calls).isError = false ∧ (env.native.status (calls + 1)).isError = false ∧
    byteSize (list.memory.getD [] ++ [Lmbcs.fromString env.codePage value]) < 2 ^ 16

/-- `push_back` appends the entry if it can, and otherwise throws and leaves the list. -/
theorem exec_pushBack (env : Env) {s : Called TextList} (h : Holds entries s.value) (value : List UInt8) :
    (Accepts env s.calls s.value value → ∃ list, exec (pushBack env value) s =
        (.ok (), ⟨s.calls + 2, list⟩) ∧
          Holds (entries ++ [Lmbcs.fromString env.codePage value]) list) ∧
      (¬ Accepts env s.calls s.value value → ∃ stop calls,
        exec (pushBack env value) s = (.error stop, ⟨calls, s.value⟩)) := by
  have hlength := Lmbcs.length_fromString_lt env.codePage value
  have hcount := h.length_lt
  let next : Entries → Entries := fun entries' => entries'.take entries.length ++
    Lmbcs.fromString env.codePage value :: entries'.drop entries.length
  have hnext : next entries = entries ++ [Lmbcs.fromString env.codePage value] := by
    show entries.take entries.length ++ _ :: entries.drop entries.length = _
    rw [List.take_length, List.drop_length]
  unfold Accepts
  rw [h.memory, Option.getD_some, ← hnext]
  dsimp only [pushBack]
  rw [if_neg (by omega), size, bind_assoc, exec_bind, exec_lock h]
  cases hlock : (env.native.status s.calls).isError with
  | true => exact ⟨fun haccepts => absurd haccepts.1 (by simp), fun _ => ⟨_, _, rfl⟩⟩
  | false =>
      have hcalled : Holds entries ({ s with calls := s.calls + 1 } : Called TextList).value := h
      simp only [Bool.false_eq_true, if_false, pure_bind]
      rw [if_neg (by omega), exec_bind, listAddEntry, exec_listChange hcalled next]
      cases hadd : (env.native.status (s.calls + 1)).isError with
      | true =>
          simp only [if_true]
          rw [Status.exec_throwIfError, hadd, if_pos rfl]
          exact ⟨fun haccepts => absurd haccepts.2.1 (by simp), fun _ => ⟨_, _, rfl⟩⟩
      | false =>
          by_cases hroom : byteSize (next entries) < 2 ^ 16
          · simp only [Bool.false_eq_true, if_false, hroom, if_true]
            rw [Status.exec_throwIfError, hadd, if_neg Bool.false_ne_true]
            refine ⟨fun _ => ⟨_, rfl, rfl, UInt16.toNat_ofNat_of_lt hroom⟩, fun hnot => ?_⟩
            exact absurd ⟨trivial, trivial, trivial⟩ hnot
          · simp only [Bool.false_eq_true, if_false, hroom]
            rw [Status.exec_throwIfError, env.isError_listFull, if_pos rfl]
            exact ⟨fun haccepts => haccepts.2.2.elim, fun _ => ⟨_, _, rfl⟩⟩

/-! ## Operations -/

/-- What an operation does to the memory. -/
def Op.change (env : Env) : Op → Entries → Entries
  | pushBack value, entries => entries ++ [Lmbcs.fromString env.codePage value]
  | popBack, entries => entries.dropLast
  | erase index, entries => entries.eraseIdx index
  | clear, _ => []

theorem Op.meets_perform (op : Op) : Meets (fun s => Holds entries s.value) (op.perform env)
    (fun _ s => Holds (op.change env entries) s.value) (Throws entries) := by
  cases op with
  | pushBack value => exact meets_pushBack value
  | popBack => exact meets_popBack
  | erase index => exact meets_erase index
  | clear => exact meets_clear

theorem Op.map_change (op : Op) (entries : Entries) :
    (op.change env entries).map (Lmbcs.toString env.codePage) =
      op.apply env (entries.map (Lmbcs.toString env.codePage)) := by
  cases op with
  | pushBack value => simp [change, apply]
  | popBack => simp [change, apply, List.map_dropLast]
  | erase index => simp [change, apply, List.eraseIdx_map]
  | clear => rfl

/-! ## Runs -/

/-- The object, and the sequence that it stands for: an operation that throws leaves both. -/
def track (env : Env) (p : Called TextList × List (List UInt8)) (op : Op) :
    Called TextList × List (List UInt8) :=
  match exec (op.perform env) p.1 with
  | (.ok _, s) => (s, op.apply env p.2)
  | (.error _, s) => (s, p.2)

/-- The object is seen as the sequence, unless a native call reports an error, and `size_` is the size
of its memory. -/
structure Shows (env : Env) (s : Called TextList) (texts : List (List UInt8)) : Prop where
  size_ : ∃ entries, s.value.memory = some entries ∧ s.value.size_.toNat = byteSize entries
  size : Delivers env.native (size env) s.value texts.length s.value
  get : ∀ index text, texts[index]? = some text →
    Delivers env.native (get env index) s.value text s.value
  get_eq_ok : ∀ index text t, exec (TextList.get env index) s = (.ok text, t) →
    texts[index]? = some text
  iterate : Delivers env.native (iterate env) s.value texts s.value

theorem Holds.shows {s : Called TextList} (h : Holds entries s.value) :
    Shows env s (entries.map (Lmbcs.toString env.codePage)) where
  size_ := ⟨entries, h.memory, h.size⟩
  size := by
    rw [List.length_map]
    exact delivers_size h
  get index text htext := delivers_get h htext
  get_eq_ok index text t hexec := ((meets_get index).of_ok h hexec).2
  iterate := delivers_iterate h

theorem holds_track {p : Called TextList × List (List UInt8)} (op : Op)
    (h : ∃ entries, Holds entries p.1.value ∧ p.2 = entries.map (Lmbcs.toString env.codePage)) :
    ∃ entries, Holds entries (track env p op).1.value ∧
      (track env p op).2 = entries.map (Lmbcs.toString env.codePage) := by
  obtain ⟨entries, hholds, htexts⟩ := h
  unfold track
  rcases hexec : exec (op.perform env) p.1 with ⟨_ | _, t⟩
  · exact ⟨entries, ((op.meets_perform).of_error hholds hexec).1, htexts⟩
  · refine ⟨op.change env entries, (op.meets_perform).of_ok hholds hexec, ?_⟩
    rw [op.map_change, htexts]

/-! ## Where lists come from -/

variable {σ : Type} {s t : Called σ} {list : TextList}

theorem holds_of_construct (h : exec (construct env) s = (.ok list, t)) : Holds [] list := by
  obtain ⟨result, _, _, h⟩ := exec_bind_eq_ok h
  obtain ⟨_, _, _, h⟩ := exec_bind_eq_ok h
  cases h
  exact ⟨rfl, rfl⟩

/-- `size_` is not set by the constructor from a list in memory. -/
theorem size_of_ofBuffer {buffer : List UInt8} (h : exec (ofBuffer env buffer) s = (.ok list, t)) :
    list.size_ = 0 ∧ ∃ entries, list.memory = some entries := by
  unfold ofBuffer at h
  split at h
  · cases h
  · split at h
    · cases h
    · obtain ⟨result, _, _, h⟩ := exec_bind_eq_ok h
      obtain ⟨_, _, _, h⟩ := exec_bind_eq_ok h
      split at h
      · cases h
      · next entries _ =>
        cases h
        exact ⟨rfl, entries, rfl⟩

/-- A list is copied from its bytes. -/
theorem delivers_convert (hsize : byteSize entries < 2 ^ 16) (v : σ) :
    Delivers env.native (convert env (bytes entries)) v (some ⟨some entries, 0⟩) v := by
  have hlength : ¬ (bytes entries).length < 2 := by
    have htotal := byteSize_eq entries
    unfold byteSize at htotal
    omega
  have htype : littleEndian ((bytes entries).take 2) = typeTextList.toNat := by
    rw [bytes, List.take_left' (length_integerBytes 2 _), littleEndian_integerBytes]
    rfl
  have hbuffer : Delivers env.native (ofBuffer env (bytes entries)) v ⟨some entries, 0⟩ v := by
    rw [ofBuffer, if_neg hlength, if_neg (not_not_intro htype)]
    refine .call_bind ?_
    rw [ofBytes_bytes hsize]
    exact .pure v _
  dsimp only [convert]
  rw [if_neg hlength, htype, if_neg (by decide), if_pos rfl]
  exact hbuffer.bind (.pure v _)

/-- The value has the type of a text list. -/
def IsTextList (value : List UInt8) : Prop := littleEndian (value.take 2) = typeTextList.toNat

theorem size_of_convert {value : List UInt8} (hvalue : IsTextList value)
    (h : exec (convert env value) s = (.ok (some list), t)) :
    list.size_ = 0 ∧ ∃ entries, list.memory = some entries := by
  unfold convert at h
  split at h
  · cases h
  · dsimp only at h
    rw [hvalue, if_neg (by decide), if_pos rfl] at h
    obtain ⟨made, _, hmade, h⟩ := exec_bind_eq_ok h
    cases h
    exact size_of_ofBuffer hmade

theorem holds_of_convert {value : List UInt8} (hvalue : ¬ IsTextList value)
    (h : exec (convert env value) s = (.ok (some list), t)) : ∃ entries, Holds entries list := by
  unfold convert at h
  split at h
  · cases h
  · dsimp only at h
    split at h
    · obtain ⟨made, u, hmade, h⟩ := exec_bind_eq_ok h
      obtain ⟨⟨_, pushed⟩, u', hpushed, h⟩ := exec_bind_eq_ok h
      cases h
      rw [exec_withLocal_part] at hpushed
      split at hpushed
      · next hpush =>
        cases hpushed
        exact ⟨_, (meets_pushBack _).of_ok (holds_of_construct hmade) hpush⟩
      · cases hpushed
    · split at h
      · next htype => exact absurd htype hvalue
      · cases h

theorem holds_of_obtain {origin : Origin} (horigin : ∀ value, origin = .converted value →
    ¬ IsTextList value) (h : exec (origin.obtain env) s = (.ok (some list), t)) :
    ∃ entries, Holds entries list := by
  cases origin with
  | allocated =>
      obtain ⟨made, _, hmade, h⟩ := exec_bind_eq_ok h
      cases h
      exact ⟨[], holds_of_construct hmade⟩
  | converted value => exact holds_of_convert (horigin value rfl) h

/-- The entries of the object at the start. -/
def texts (env : Env) (list : TextList) : List (List UInt8) :=
  (list.memory.getD []).map (Lmbcs.toString env.codePage)

/-- A list that was obtained is seen as the sequence it stands for in every run, just if it was
not converted from a text list. -/
theorem shows_run_iff {origin : Origin} (h : exec (origin.obtain env) s = (.ok (some list), t)) :
    (∀ n ops, Shows env (Run.after (track env) (⟨n, list⟩, texts env list) ops).1
        (Run.after (track env) (⟨n, list⟩, texts env list) ops).2) ↔
      ∀ value, origin = .converted value → ¬ IsTextList value := by
  constructor
  · rintro hshows value rfl hvalue
    obtain ⟨hsize, _⟩ := size_of_convert hvalue h
    obtain ⟨entries, _, hbytes⟩ := (hshows 0 []).size_
    have hnull : list.size_.toNat = byteSize entries := hbytes
    rw [hsize, byteSize_eq, UInt16.toNat_zero] at hnull
    omega
  · intro horigin n ops
    obtain ⟨entries, hholds⟩ := holds_of_obtain horigin h
    obtain ⟨entries', hholds', htexts⟩ := Run.after_of_invariant
      (I := fun p : Called TextList × List (List UInt8) =>
        ∃ entries, Holds entries p.1.value ∧ p.2 = entries.map (Lmbcs.toString env.codePage))
      (fun _ op h => holds_track op h)
      (s := (⟨n, list⟩, texts env list))
      ⟨entries, hholds, by rw [texts, hholds.memory]; rfl⟩ ops
    rw [htexts]
    exact hholds'.shows

def sampleEnv : Env where
  native := ⟨fun _ => .noError, fun _ _ => 0⟩
  codePage := utf8
  listFull := .other 0
  isError_listFull := by decide

theorem shows_run_iff_allocated :
    (∀ n ops, Shows sampleEnv
        (Run.after (track sampleEnv) (⟨n, ⟨some [], 4⟩⟩, texts sampleEnv ⟨some [], 4⟩) ops).1
        (Run.after (track sampleEnv) (⟨n, ⟨some [], 4⟩⟩, texts sampleEnv ⟨some [], 4⟩) ops).2) ↔
      ∀ value, Origin.allocated = .converted value → ¬ IsTextList value :=
  have h : exec (Origin.allocated.obtain sampleEnv) (⟨0, ()⟩ : Called Unit) =
    (.ok (some ⟨some [], 4⟩), ⟨1, ()⟩) := rfl
  shows_run_iff h

/-- The size of an empty list that was read from an item is taken to be zero. -/
theorem not_shows_of_textList : ¬ ∀ (env : Env) (origin : Origin) (list : TextList)
    (s t : Called Unit), exec (origin.obtain env) s = (.ok (some list), t) → ∀ n ops,
      Shows env (Run.after (track env) (⟨n, list⟩, texts env list) ops).1
        (Run.after (track env) (⟨n, list⟩, texts env list) ops).2 := by
  intro h
  obtain ⟨entries, hmemory, hsize⟩ :=
    (h sampleEnv (.converted (bytes [])) ⟨some [], 0⟩ ⟨0, ()⟩ ⟨1, ()⟩ rfl 0 []).size_
  cases hmemory
  revert hsize
  decide

end Dmn.TextList
