import Dmn.Library.Occurrence
import Dmn.Model.ItemValue
import Dmn.Verification.Native

/-! # Item values on their note

An item value is on an item of its name, the one of some number. A move changes the number by one, or
changes nothing. -/

namespace Dmn.ItemValue

open Exec Native Occurrence

variable {native : Native} {s : Called World} {id : ObjectId} {items : Items} {v : ItemValue} {k : ℕ}

/-! ## Places -/

/-- The name under which the constructor looks for an item. -/
def key (v : ItemValue) : List UInt8 := v.item_.take (v.item_.length % 2 ^ 16)

def named (name : List UInt8) (row : ℕ × Item) : Bool := row.2.name = name

/-- The items of a name. -/
def occurrences (items : Items) (name : List UInt8) : List (ℕ × Item) :=
  items.rows.filter (named name)

def handles (v : ItemValue) : Handles := ⟨v.itemBid_, v.valueBid_, v.size_⟩

/-- The item value is on the item of number `k` of its name. -/
structure Stands (items : Items) (v : ItemValue) (k : ℕ) : Prop where
  note_ : v.note_ = true
  place : ∃ front row back, At (named (key v)) items.rows k front row back ∧
    handles v = Handles.of row

theorem Stands.handles (h : Stands items v k) :
    (occurrences items (key v))[k]?.map Handles.of = some (handles v) := by
  obtain ⟨front, row, back, hat, hhandles⟩ := h.place
  rw [occurrences, hat.getElem?, hhandles]
  rfl

theorem key_of_lt (h : v.item_.length < 2 ^ 16) : key v = v.item_ := by
  rw [key, Nat.mod_eq_of_lt h, List.take_length]

/-! ## Searching -/

/-- The number that a move goes to, if there is one. -/
def target (forward : Bool) (k : ℕ) : Option ℕ :=
  if forward then some (k + 1) else if k = 0 then none else some (k - 1)

/-- The item that a move goes to, if there is one. -/
def goal (items : Items) (name : List UInt8) (forward : Bool) (k : ℕ) : Option (ℕ × Item) :=
  (target forward k).bind fun k' => (occurrences items name)[k']?

/-- The search of a move. -/
def search (native : Native) (forward : Bool) (bid : ℕ) (name : List UInt8) :
    M (Status × Handles) :=
  if forward then nsfItemInfoNext native bid name else nsfItemInfoPrev native bid name

theorem exec_search {front back : List (ℕ × Item)} {row : ℕ × Item} {name : List UInt8}
    (h : At (named name) s.value.items.rows k front row back) (forward : Bool) :
    exec (search native forward row.1 name) s =
      exec (answer native (goal s.value.items name forward k)) s := by
  have hnodup := s.value.items.nodup
  rw [h.split] at hnodup
  have hdrop : (s.value.items.rows.dropWhile fun other => other.1 ≠ row.1) = row :: back := by
    rw [h.split]
    exact dropWhile_key Prod.fst hnodup
  cases forward with
  | true =>
      have hfind : back.find? (fun other => other.2.name = name) =
          goal s.value.items name true k := h.find?_back
      rw [search, if_pos rfl, nsfItemInfoNext, exec_bind_of_ok (exec_value s), hdrop]
      simp only [hfind]
  | false =>
      have htake : (s.value.items.rows.takeWhile fun other => other.1 ≠ row.1) = front := by
        rw [h.split]
        exact takeWhile_key Prod.fst hnodup
      have hfind : front.reverse.find? (fun other => other.2.name = name) =
          goal s.value.items name false k := by
        refine h.find?_front.trans ?_
        rw [goal, target, if_neg Bool.false_ne_true]
        split <;> rfl
      rw [search, if_neg Bool.false_ne_true, nsfItemInfoPrev, exec_bind_of_ok (exec_value s), hdrop]
      simp only [htake, hfind]

/-- The place that a move goes to. -/
theorem exists_at_of_goal {front back : List (ℕ × Item)} {row row' : ℕ × Item}
    {name : List UInt8} {forward : Bool} (h : At (named name) items.rows k front row back)
    (hgoal : goal items name forward k = some row') :
    ∃ k' front back, target forward k = some k' ∧ At (named name) items.rows k' front row' back := by
  cases forward with
  | true =>
      have hfind : back.find? (named name) = some row' := h.find?_back.trans hgoal
      obtain ⟨front', back', hat⟩ := h.ahead hfind
      exact ⟨k + 1, front', back', rfl, hat⟩
  | false =>
      have hfind : front.reverse.find? (named name) = some row' := by
        rw [h.find?_front, ← hgoal, goal, target, if_neg Bool.false_ne_true]
        split <;> rfl
      obtain ⟨j, front', back', rfl, hat⟩ := h.behind hfind
      exact ⟨j, front', back', rfl, hat⟩

/-! ## Moves -/

/-- The world with another item value of this number. -/
def World.place (w : World) (id : ObjectId) (v : Option ItemValue) : World :=
  { w with values := Function.update w.values id v }

theorem World.values_place (w : World) (id : ObjectId) (v : Option ItemValue) :
    (w.place id v).values id = v := by rw [World.place]; exact Function.update_self ..

/-- What a move of an item value does that is on the item of number `k`. -/
structure Moves (native : Native) (s : Called World) (id : ObjectId) (v : ItemValue) (k : ℕ)
    (forward : Bool) : Prop where
  moved : ∀ t, exec (moveImpl native id forward) s = (.ok true, t) →
    ∃ k' v', target forward k = some k' ∧ v'.item_ = v.item_ ∧ Stands s.value.items v' k' ∧
      t.value = s.value.place id (some v')
  stayed : ∀ t, exec (moveImpl native id forward) s = (.ok false, t) → t.value = s.value
  thrown : ∀ stop t, exec (moveImpl native id forward) s = (.error stop, t) →
    stop ≠ .undefined ∧ t.value = s.value
  found : v.item_.length < 2 ^ 16 → native.status s.calls = .noError →
    (exec (moveImpl native id forward) s).1 =
      .ok (goal s.value.items v.item_ forward k).isSome
  long : 2 ^ 16 ≤ v.item_.length → exec (moveImpl native id forward) s =
    (.error (.throws (.overflowError "Value is too large to fit inside the provided type")), s)

theorem exec_this (h : s.value.values id = some v) : exec (this id) s = (.ok v, s) := by
  rw [this, exec_bind_of_ok (exec_value s), h]
  rfl

theorem exec_moveImpl (native : Native) (hv : s.value.values id = some v)
    (hstands : Stands s.value.items v k) (forward : Bool) : exec (moveImpl native id forward) s =
      if v.item_.length < 2 ^ 16 then exec (do
        let (result, hdls) ← answer native (goal s.value.items v.item_ forward k)
        if result.isNotFound then pure false
        else do
          result.throwIfError "Failed to obtain next item information"
          write id (some (applyHandles v hdls))
          pure true) s
      else (.error (.throws
        (.overflowError "Value is too large to fit inside the provided type")), s) := by
  obtain ⟨front, row, back, hat, hhandles⟩ := hstands.place
  have hbid : v.itemBid_ = row.1 := congrArg Handles.item hhandles
  rw [moveImpl, exec_bind_of_ok (exec_this hv), hstands.note_]
  simp only [Bool.not_true, Bool.false_eq_true, ↓reduceIte]
  by_cases hshort : v.item_.length < 2 ^ 16
  · have hcast : exec (checkedCast v.item_.length : M UInt16) s =
        (.ok (UInt16.ofNat v.item_.length), s) := by
      rw [checkedCast, if_pos hshort]
      rfl
    rw [key_of_lt hshort] at hat
    rw [if_pos hshort, exec_bind_of_ok hcast, hbid]
    cases forward with
    | true =>
        have hsearch : exec (nsfItemInfoNext native row.1 v.item_) s = _ := exec_search hat true
        rw [if_pos rfl, exec_bind, hsearch, ← exec_bind]
    | false =>
        have hsearch : exec (nsfItemInfoPrev native row.1 v.item_) s = _ := exec_search hat false
        rw [if_neg Bool.false_ne_true, exec_bind, hsearch, ← exec_bind]
  · have hcast : exec (checkedCast v.item_.length : M UInt16) s = (.error (.throws
        (.overflowError "Value is too large to fit inside the provided type")), s) := by
      rw [checkedCast, if_neg hshort]
      rfl
    rw [if_neg hshort, exec_bind_of_error hcast]

/-- A move that finds an item and whose call reports no error. -/
theorem stands_applyHandles (hstands : Stands items v k) (hshort : v.item_.length < 2 ^ 16)
    {row : ℕ × Item} {forward : Bool} (hgoal : goal items v.item_ forward k = some row) :
    ∃ k', target forward k = some k' ∧ Stands items (applyHandles v (Handles.of row)) k' := by
  obtain ⟨front, current, back, hat, -⟩ := hstands.place
  have hkey := key_of_lt hshort
  rw [hkey] at hat
  obtain ⟨k', front', back', htarget, hat'⟩ := exists_at_of_goal hat hgoal
  refine ⟨k', htarget, hstands.note_, front', row, back', ?_, rfl⟩
  change At (named (key v)) items.rows k' front' row back'
  rwa [hkey]

theorem exec_answer (row : ℕ × Item) : exec (answer native (some row)) s =
    (.ok (native.status s.calls,
      if (native.status s.calls).isError then Handles.empty else Handles.of row),
      ⟨s.calls + 1, s.value⟩) := by
  rw [answer, exec_bind_of_ok (exec_call s)]
  rfl

/-- What a move does with an item that was found. -/
theorem exec_answer_some (row : ℕ × Item) : exec (do
      let (result, hdls) ← answer native (some row)
      if result.isNotFound then pure false
      else do
        result.throwIfError "Failed to obtain next item information"
        write id (some (applyHandles v hdls))
        pure true) s =
      if (native.status s.calls).isNotFound then (.ok false, ⟨s.calls + 1, s.value⟩)
      else if (native.status s.calls).isError then
        (.error (.throws (.nativeError "Failed to obtain next item information"
          (native.status s.calls))), ⟨s.calls + 1, s.value⟩)
      else (.ok true, ⟨s.calls + 1,
        s.value.place id (some (applyHandles v (Handles.of row)))⟩) := by
  rw [exec_bind_of_ok (exec_answer row)]
  simp only
  cases (native.status s.calls).isNotFound with
  | true => rfl
  | false =>
      simp only [Bool.false_eq_true, ↓reduceIte]
      rw [exec_bind, Status.exec_throwIfError]
      cases (native.status s.calls).isError <;> rfl

theorem Moves.of_stay {forward : Bool} {t : Called World}
    (hexec : exec (moveImpl native id forward) s = (.ok false, t)) (hvalue : t.value = s.value)
    (hshort : v.item_.length < 2 ^ 16)
    (hgoal : native.status s.calls = .noError → goal s.value.items v.item_ forward k = none) :
    Moves native s id v k forward := by
  refine ⟨?_, ?_, ?_, ?_, fun hlong => absurd hshort (Nat.not_lt.mpr hlong)⟩ <;> rw [hexec]
  · exact fun t h => by cases h
  · rintro t ⟨⟩
    exact hvalue
  · exact fun stop t h => by cases h
  · intro _ hstatus
    rw [hgoal hstatus]
    rfl

theorem Moves.of_throw {forward : Bool} {stop : Stop} {t : Called World}
    (hexec : exec (moveImpl native id forward) s = (.error stop, t)) (hstop : stop ≠ .undefined)
    (hvalue : t.value = s.value)
    (hfound : v.item_.length < 2 ^ 16 → native.status s.calls ≠ .noError)
    (hlong : 2 ^ 16 ≤ v.item_.length → exec (moveImpl native id forward) s = (.error (.throws
      (.overflowError "Value is too large to fit inside the provided type")), s)) :
    Moves native s id v k forward := by
  refine ⟨?_, ?_, ?_, fun hshort hstatus => absurd hstatus (hfound hshort), hlong⟩ <;> rw [hexec]
  · exact fun t h => by cases h
  · exact fun t h => by cases h
  · rintro stop t ⟨⟩
    exact ⟨hstop, hvalue⟩

theorem moves (hv : s.value.values id = some v) (hstands : Stands s.value.items v k)
    (forward : Bool) : Moves native s id v k forward := by
  have hexec := exec_moveImpl native hv hstands forward
  by_cases hshort : v.item_.length < 2 ^ 16
  · have hnotLong : ¬ 2 ^ 16 ≤ v.item_.length := Nat.not_le.mpr hshort
    rw [if_pos hshort] at hexec
    cases hgoal : goal s.value.items v.item_ forward k with
    | none =>
        rw [hgoal] at hexec
        exact .of_stay hexec rfl hshort fun _ => hgoal
    | some row =>
        obtain ⟨k', htarget, hthere⟩ := stands_applyHandles hstands hshort hgoal
        rw [hgoal, exec_answer_some] at hexec
        cases hnotFound : (native.status s.calls).isNotFound with
        | true =>
            rw [hnotFound, if_pos rfl] at hexec
            refine .of_stay hexec rfl hshort fun hstatus => ?_
            rw [hstatus] at hnotFound
            cases hnotFound
        | false =>
            rw [hnotFound, if_neg Bool.false_ne_true] at hexec
            cases herror : (native.status s.calls).isError with
            | true =>
                rw [herror, if_pos rfl] at hexec
                refine .of_throw hexec Stop.noConfusion rfl (fun _ hstatus => ?_)
                  fun h => (hnotLong h).elim
                rw [hstatus] at herror
                cases herror
            | false =>
                rw [herror, if_neg Bool.false_ne_true] at hexec
                refine ⟨?_, ?_, ?_, ?_, fun h => (hnotLong h).elim⟩ <;> rw [hexec]
                · rintro t ⟨⟩
                  exact ⟨k', applyHandles v (Handles.of row), htarget, rfl, hthere, rfl⟩
                · exact fun t h => by cases h
                · exact fun stop t h => by cases h
                · rw [hgoal]
                  exact fun _ _ => rfl
  · rw [if_neg hshort] at hexec
    exact .of_throw hexec Stop.noConfusion rfl (fun h => absurd h hshort) fun _ => hexec

theorem exec_moveImpl_byDefault (h : s.value.values id = some byDefault) (forward : Bool) :
    exec (moveImpl native id forward) s = (.ok false, s) := by
  rw [moveImpl, exec_bind_of_ok (exec_this h)]
  rfl

/-! ## Construction -/

/-- What the constructor does. -/
structure Constructs (native : Native) (s : Called World) (id : ObjectId) (item : List UInt8) :
    Prop where
  made : ∀ t, exec (construct native id item) s = (.ok (), t) → ∃ v, v.item_ = item ∧
    Stands s.value.items v 0 ∧ t.value = s.value.place id (some v)
  thrown : ∀ stop t, exec (construct native id item) s = (.error stop, t) →
    stop ≠ .undefined ∧ t.value = s.value
  found : native.status s.calls = .noError →
    ((exec (construct native id item) s).1 = .ok () ↔
      occurrences s.value.items (item.take (item.length % 2 ^ 16)) ≠ [])

/-- The first item of the name, as the constructor finds it. -/
def first (items : Items) (item : List UInt8) : Option (ℕ × Item) :=
  items.rows.find? (named (item.take (item.length % 2 ^ 16)))

theorem exec_construct_of_none {item : List UInt8} (h : first s.value.items item = none) :
    exec (construct native id item) s = (.error (.throws (.nativeError
      "Failed to obtain item information" .itemNotFound)), s) := by
  have hsearch : exec (nsfItemInfo native item) s = (.ok (.itemNotFound, Handles.empty), s) := by
    rw [nsfItemInfo, exec_bind_of_ok (exec_value s)]
    exact congrArg (fun row => exec (answer native row) s) h
  rw [construct, exec_bind_of_ok hsearch]
  rfl

theorem exec_construct_of_some {item : List UInt8} {row : ℕ × Item}
    (h : first s.value.items item = some row) : exec (construct native id item) s =
      if (native.status s.calls).isError then (.error (.throws (.nativeError
        "Failed to obtain item information" (native.status s.calls))), ⟨s.calls + 1, s.value⟩)
      else (.ok (), ⟨s.calls + 1, s.value.place id
        (some (applyHandles ⟨true, item, 0, 0, 0⟩ (Handles.of row)))⟩) := by
  have hsearch : exec (nsfItemInfo native item) s = exec (answer native (some row)) s := by
    rw [nsfItemInfo, exec_bind_of_ok (exec_value s)]
    exact congrArg (fun row => exec (answer native row) s) h
  rw [construct, exec_bind_of_ok (hsearch.trans (exec_answer row))]
  simp only
  rw [exec_bind, Status.exec_throwIfError]
  cases (native.status s.calls).isError <;> rfl

theorem Constructs.of_throw {item : List UInt8} {stop : Stop} {t : Called World}
    (hexec : exec (construct native id item) s = (.error stop, t)) (hstop : stop ≠ .undefined)
    (hvalue : t.value = s.value) (hfound : native.status s.calls = .noError →
      occurrences s.value.items (item.take (item.length % 2 ^ 16)) = []) :
    Constructs native s id item := by
  refine ⟨?_, ?_, ?_⟩ <;> rw [hexec]
  · exact fun t h => by cases h
  · rintro stop t ⟨⟩
    exact ⟨hstop, hvalue⟩
  · exact fun hstatus => ⟨fun h => (nomatch h), fun h => absurd (hfound hstatus) h⟩

theorem constructs (native : Native) (s : Called World) (id : ObjectId) (item : List UInt8) :
    Constructs native s id item := by
  cases hfirst : first s.value.items item with
  | none =>
      exact .of_throw (exec_construct_of_none hfirst) Stop.noConfusion rfl fun _ =>
        List.filter_eq_nil_iff.mpr (List.find?_eq_none.mp hfirst)
  | some row =>
      obtain ⟨front, back, hat⟩ := exists_at_zero hfirst
      have hsome : occurrences s.value.items (item.take (item.length % 2 ^ 16)) ≠ [] :=
        List.ne_nil_of_mem (List.mem_of_getElem? hat.getElem?)
      have hexec : exec (construct native id item) s = _ := exec_construct_of_some hfirst
      cases herror : (native.status s.calls).isError with
      | true =>
          rw [herror, if_pos rfl] at hexec
          refine .of_throw hexec Stop.noConfusion rfl fun hstatus => ?_
          rw [hstatus] at herror
          cases herror
      | false =>
          rw [herror, if_neg Bool.false_ne_true] at hexec
          refine ⟨?_, ?_, ?_⟩ <;> rw [hexec]
          · rintro t ⟨⟩
            exact ⟨applyHandles ⟨true, item, 0, 0, 0⟩ (Handles.of row), rfl,
              ⟨rfl, front, row, back, hat, rfl⟩, rfl⟩
          · exact fun stop t h => by cases h
          · exact fun _ => ⟨fun _ => hsome, fun _ => rfl⟩

/-- The constructor is on the item that `Note.itemInfo` returns. -/
theorem itemInfo_of_construct {item : List UInt8} {t : Called World}
    (h : exec (construct native id item) s = (.ok (), t)) :
    ∃ row, (t.value.values id).map handles = some (Handles.of row) ∧
      exec (Note.itemInfo native item) ⟨s.calls, s.value.items.rows.map Prod.snd⟩ =
        (.ok row.2, ⟨t.calls, s.value.items.rows.map Prod.snd⟩) := by
  cases hfirst : first s.value.items item with
  | none =>
      rw [exec_construct_of_none hfirst] at h
      cases h
  | some row =>
      rw [exec_construct_of_some hfirst] at h
      cases herror : (native.status s.calls).isError with
      | true =>
          rw [herror, if_pos rfl] at h
          cases h
      | false =>
          rw [herror, if_neg Bool.false_ne_true] at h
          cases h
          refine ⟨row, by rw [World.values_place]; rfl, ?_⟩
          have hfind : (s.value.items.rows.map Prod.snd).find? (fun other =>
              other.name = item.take (item.length % 2 ^ 16)) = some row.2 := by
            rw [List.find?_map]
            exact congrArg (Option.map Prod.snd) hfirst
          rw [Note.itemInfo, exec_bind_of_ok (exec_value _)]
          simp only [hfind]
          rw [exec_bind_of_ok (exec_call _), exec_bind, Status.exec_throwIfError, herror]
          rfl

/-! ## Runs -/

/-- Each item value is on an item of its name, unless it was made by default. -/
structure Sound (items : Items) (w : World) : Prop where
  same : w.items = items
  stands : ∀ id v, w.values id = some v → v = byDefault ∨ ∃ k, Stands items v k

theorem Sound.place {w : World} (h : Sound items w) {v : Option ItemValue}
    (hv : ∀ v', v = some v' → v' = byDefault ∨ ∃ k, Stands items v' k) :
    Sound items (w.place id v) := by
  refine ⟨h.same, fun other v' hv' => ?_⟩
  change Function.update w.values id v other = some v' at hv'
  by_cases hid : other = id
  · rw [hid, Function.update_self] at hv'
    exact hv v' hv'
  · rw [Function.update_of_ne hid] at hv'
    exact h.stands other v' hv'

/-- What a move of an item value does, whatever item it is on. -/
def MovesThere (native : Native) (s : Called World) (id : ObjectId) (forward : Bool) : Prop :=
  ∃ v, s.value.values id = some v ∧
    (v = byDefault ∧ exec (moveImpl native id forward) s = (.ok false, s) ∨
      ∃ k, Stands s.value.items v k ∧ Moves native s id v k forward)

/-- What an operation does on an object that is there. -/
def Meant (native : Native) (s : Called World) : Op → Prop
  | .byDefault id => (step native s (.byDefault id)).value = s.value.place id (some byDefault)
  | .construct id item => Constructs native s id item
  | .copy dst src => ∃ v, s.value.values src = some v ∧
      (step native s (.copy dst src)).value = s.value.place dst (some v)
  | .next id => MovesThere native s id true
  | .previous id => MovesThere native s id false
  | .destroy id => (step native s (.destroy id)).value = s.value.place id none

theorem movesThere (hs : Sound items s.value) (h : (s.value.values id).isSome = true)
    (forward : Bool) : MovesThere native s id forward := by
  obtain ⟨v, hv⟩ := Option.isSome_iff_exists.mp h
  obtain ⟨rfl, hstands⟩ := hs
  rcases hstands id v hv with rfl | ⟨k, hstands⟩
  · exact ⟨byDefault, hv, .inl ⟨rfl, exec_moveImpl_byDefault hv forward⟩⟩
  · exact ⟨v, hv, .inr ⟨k, hstands, moves hv hstands forward⟩⟩

theorem step_of_able {op : Op} (h : op.able s.value = true) :
    step native s op = (exec (op.perform native) s).2 := if_pos h

theorem meant (hs : Sound items s.value) {op : Op} (h : op.able s.value = true) :
    Meant native s op := by
  cases op with
  | byDefault id =>
      rw [Meant, step_of_able h]
      rfl
  | construct id item => exact constructs native s id item
  | copy dst src =>
      obtain ⟨v, hv⟩ := Option.isSome_iff_exists.mp h
      refine ⟨v, hv, ?_⟩
      have hcopy : exec (copy dst src) s =
          (.ok (), { s with value := s.value.place dst (some v) }) := by
        rw [copy, exec_bind_of_ok (exec_this hv)]
        rfl
      rw [step_of_able h, Op.perform, exec_bind_of_ok hcopy]
      rfl
  | next id => exact movesThere hs h true
  | previous id => exact movesThere hs h false
  | destroy id =>
      rw [Meant, step_of_able h]
      rfl

/-- A move keeps the world, or puts the item value on another item of its name. -/
theorem MovesThere.sound {forward : Bool} (h : MovesThere native s id forward)
    (hs : Sound items s.value) : Sound items (exec (moveImpl native id forward) s).2.value := by
  obtain ⟨v, hv, ⟨-, hstay⟩ | ⟨k, -, hmoves⟩⟩ := h
  · rwa [hstay]
  · rcases hexec : exec (moveImpl native id forward) s with ⟨stop | found, t⟩
    · rwa [(hmoves.thrown stop t hexec).2]
    · cases found with
      | false => rwa [hmoves.stayed t hexec]
      | true =>
          obtain ⟨k', v', -, -, hthere, hvalue⟩ := hmoves.moved t hexec
          rw [hs.same] at hthere
          rw [hvalue]
          exact hs.place fun _ h => .inr ⟨k', Option.some.inj h ▸ hthere⟩

theorem exec_perform_move (x : M Bool) (s : Called World) :
    (exec (do let found ← x; pure (some found) : M (Option Bool)) s).2 = (exec x s).2 := by
  rw [exec_bind]
  rcases exec x s with ⟨stop | found, t⟩ <;> rfl

theorem sound_step (hs : Sound items s.value) (op : Op) :
    Sound items (step native s op).value := by
  by_cases h : op.able s.value = true
  · have hmeant : Meant native s op := meant hs h
    cases op with
    | byDefault id =>
        rw [hmeant]
        exact hs.place fun _ h => .inl (Option.some.inj h).symm
    | construct id item =>
        rw [step_of_able h, Op.perform, exec_bind]
        rcases hexec : exec (construct native id item) s with ⟨stop | _, t⟩
        · rwa [(hmeant.thrown stop t hexec).2]
        · obtain ⟨v, -, hstands, hvalue⟩ := hmeant.made t hexec
          rw [hs.same] at hstands
          change Sound items t.value
          rw [hvalue]
          exact hs.place fun _ h => .inr ⟨0, Option.some.inj h ▸ hstands⟩
    | copy dst src =>
        obtain ⟨v, hv, hvalue⟩ := hmeant
        rw [hvalue]
        exact hs.place fun _ h => hs.stands src _ (h ▸ hv)
    | next id =>
        rw [step_of_able h, Op.perform, next, exec_perform_move]
        exact hmeant.sound hs
    | previous id =>
        rw [step_of_able h, Op.perform, previous, exec_perform_move]
        exact hmeant.sound hs
    | destroy id =>
        rw [hmeant]
        exact hs.place fun _ h => nomatch h
  · rwa [step, if_neg h]

theorem MovesThere.defined {forward : Bool} (h : MovesThere native s id forward) :
    (exec (moveImpl native id forward) s).1 ≠ .error .undefined := by
  obtain ⟨v, hv, ⟨-, hstay⟩ | ⟨k, -, hmoves⟩⟩ := h
  · rw [hstay]
    exact nofun
  · rcases hexec : exec (moveImpl native id forward) s with ⟨stop | found, t⟩
    · exact fun heq => (hmoves.thrown stop t hexec).1 (Except.error.inj heq)
    · exact nofun

theorem exec_map_ne_undefined {x : M Bool} (h : (exec x s).1 ≠ .error .undefined) :
    (exec (do let found ← x; pure (some found) : M (Option Bool)) s).1 ≠ .error .undefined := by
  rw [exec_bind]
  rcases hexec : exec x s with ⟨stop | found, t⟩ <;> rw [hexec] at h
  · exact fun heq => h (congrArg Except.error (Except.error.inj heq))
  · exact nofun

theorem defined_perform (hs : Sound items s.value) {op : Op} (h : op.able s.value = true) :
    (exec (op.perform native) s).1 ≠ .error .undefined := by
  have hmeant : Meant native s op := meant hs h
  cases op with
  | byDefault id => exact nofun
  | construct id item =>
      rw [Op.perform, exec_bind]
      rcases hexec : exec (construct native id item) s with ⟨stop | _, t⟩
      · exact fun heq => (hmeant.thrown stop t hexec).1 (Except.error.inj heq)
      · exact nofun
  | copy dst src =>
      obtain ⟨v, hv, -⟩ := hmeant
      rw [Op.perform, copy, bind_assoc, exec_bind_of_ok (exec_this hv)]
      exact nofun
  | next id => exact exec_map_ne_undefined hmeant.defined
  | previous id => exact exec_map_ne_undefined hmeant.defined
  | destroy id => exact nofun

/-- Two items of one name, and one of another between them. -/
def sampleRows : List (ℕ × Item) :=
  [(7, ⟨[0x41], 0, 0x0500, [0x61]⟩), (3, ⟨[0x42], 0, 0x0500, []⟩), (9, ⟨[0x41], 0, 0x0500, [0x62]⟩)]

theorem nodup_sampleRows : (sampleRows.map Prod.fst).Nodup := by decide

def sampleItems : Items := ⟨sampleRows, nodup_sampleRows⟩

/-- No item value is there yet. -/
def sampleStart : Called World := ⟨0, ⟨sampleItems, fun _ => none⟩⟩

def sampleNative : Native := ⟨fun _ => .noError, fun _ _ => 0⟩

theorem sound_sampleStart : Sound sampleItems sampleStart.value where
  same := rfl
  stands _ _ h := nomatch h

/-- All along a run the items stay as they are, and each item value is on an item of its name. The
constructor puts it on the first one. A move goes to the one behind or before it, or changes nothing. -/
theorem meant_along (hs : Sound items s.value) (ops : List Op) :
    Run.Along (step native) (fun s op => Sound items s.value ∧
      Sound items (step native s op).value ∧ (op.able s.value = true →
        Meant native s op ∧ (exec (op.perform native) s).1 ≠ .error .undefined)) s ops :=
  Run.along_of_invariant (I := fun s : Called World => Sound items s.value)
    (fun _ op h => sound_step h op)
    (fun _ op h => ⟨h, sound_step h op, fun hable => ⟨meant h hable, defined_perform h hable⟩⟩)
    hs ops

theorem meant_along_sample :
    let ops := [.construct 0 [0x41], .next 0, .copy 1 0, .next 0, .previous 1, .destroy 0]
    Run.Along (step sampleNative) (fun s op => Sound sampleItems s.value ∧
      Sound sampleItems (step sampleNative s op).value ∧
      (op.able s.value = true → Meant sampleNative s op ∧
        (exec (op.perform sampleNative) s).1 ≠ .error .undefined)) sampleStart ops :=
  meant_along sound_sampleStart _

/-! ## Going through the items of a name -/

theorem Stands.lt (h : Stands items v k) : k < (occurrences items (key v)).length := by
  obtain ⟨_, _, _, hat, -⟩ := h.place
  exact (List.getElem?_eq_some_iff.mp hat.getElem?).1

theorem isSome_goal_forward (items : Items) (name : List UInt8) (k : ℕ) :
    (goal items name true k).isSome = decide (k + 1 < (occurrences items name).length) := by
  rw [goal, target, if_pos rfl, Option.bind_some, Bool.eq_iff_iff, Option.isSome_iff_ne_none, ne_eq,
    List.getElem?_eq_none_iff, decide_eq_true_iff, Nat.not_le]

theorem isSome_goal_back {name : List UInt8} (h : k < (occurrences items name).length) :
    (goal items name false k).isSome = decide (0 < k) := by
  rw [goal, target, if_neg Bool.false_ne_true]
  split
  · rename_i hk
    rw [hk]
    rfl
  · rename_i hk
    rw [Option.bind_some, Bool.eq_iff_iff, Option.isSome_iff_ne_none, ne_eq,
      List.getElem?_eq_none_iff, decide_eq_true_iff]
    omega

/-- The operation of a move. -/
def move (id : ObjectId) (forward : Bool) : Op := if forward then .next id else .previous id

/-- The number after a move, of `count` items. -/
def shift (count k : ℕ) (forward : Bool) : ℕ := if forward then min (k + 1) (count - 1) else k - 1

/-- The object is an item value on the item of number `k` of its name. -/
structure On (items : Items) (item : List UInt8) (s : Called World) (id : ObjectId) (k : ℕ) :
    Prop where
  same : s.value.items = items
  stands : ∃ v, s.value.values id = some v ∧ v.item_ = item ∧ Stands items v k

variable {item : List UInt8}

theorem step_move (h : (s.value.values id).isSome = true) (forward : Bool) :
    step native s (move id forward) = (exec (moveImpl native id forward) s).2 := by
  cases forward with
  | true =>
      have hable : (Op.next id).able s.value = true := h
      exact (step_of_able hable).trans (exec_perform_move _ s)
  | false =>
      have hable : (Op.previous id).able s.value = true := h
      exact (step_of_able hable).trans (exec_perform_move _ s)

theorem isSome_goal {name : List UInt8} (h : k < (occurrences items name).length) (forward : Bool) :
    (goal items name forward k).isSome =
      decide (if forward then k + 1 < (occurrences items name).length else 0 < k) := by
  cases forward with
  | true => simpa using isSome_goal_forward items name k
  | false => simpa using isSome_goal_back h

/-- Where a move stays, the number is that of the end. -/
theorem shift_of_goal_eq_none {name : List UInt8} (h : k < (occurrences items name).length)
    {forward : Bool} (hgoal : (goal items name forward k).isSome = false) :
    shift (occurrences items name).length k forward = k := by
  rw [isSome_goal h, decide_eq_false_iff_not] at hgoal
  cases forward with
  | true =>
      rw [if_pos rfl] at hgoal
      rw [shift, if_pos rfl]
      omega
  | false =>
      rw [if_neg Bool.false_ne_true] at hgoal
      rw [shift, if_neg Bool.false_ne_true]
      omega

theorem shift_of_target {name : List UInt8} {k' : ℕ} (h : k' < (occurrences items name).length)
    {forward : Bool} (htarget : target forward k = some k') :
    shift (occurrences items name).length k forward = k' := by
  cases forward with
  | true =>
      cases htarget
      rw [shift, if_pos rfl]
      omega
  | false =>
      rw [target, if_neg Bool.false_ne_true] at htarget
      split at htarget
      · cases htarget
      · exact Option.some.inj htarget

/-- One move, when no call reports an error. -/
theorem On.step_move (hquiet : Quiet native 0) (hshort : item.length < 2 ^ 16)
    (h : On items item s id k) (forward : Bool) :
    On items item (step native s (move id forward)) id
      (shift (occurrences items item).length k forward) := by
  obtain ⟨rfl, v, hv, rfl, hstands⟩ := h
  have hlt := hstands.lt
  rw [key_of_lt hshort] at hlt
  have hmoves : Moves native s id v k forward := moves hv hstands forward
  have hfound := hmoves.found hshort (hquiet s.calls (Nat.zero_le _))
  rw [ItemValue.step_move (Option.isSome_iff_exists.mpr ⟨v, hv⟩)]
  rcases hexec : exec (moveImpl native id forward) s with ⟨result, t⟩
  rw [hexec] at hfound
  cases hgoal : (goal s.value.items v.item_ forward k).isSome with
  | false =>
      rw [hgoal] at hfound
      have hvalue := hmoves.stayed t (hexec.trans (congrArg (·, t) hfound))
      rw [shift_of_goal_eq_none hlt hgoal]
      exact ⟨congrArg World.items hvalue, v, by rw [hvalue, hv], rfl, hstands⟩
  | true =>
      rw [hgoal] at hfound
      obtain ⟨k', v', htarget, hitem, hthere, hvalue⟩ :=
        hmoves.moved t (hexec.trans (congrArg (·, t) hfound))
      have hlt' := hthere.lt
      rw [key, hitem, ← key, key_of_lt hshort] at hlt'
      rw [shift_of_target hlt' htarget]
      refine ⟨by rw [hvalue]; rfl, v', ?_, hitem, hthere⟩
      change t.value.values id = some v'
      rw [hvalue, World.values_place]

theorem On.after_moves (hquiet : Quiet native 0) (hshort : item.length < 2 ^ 16)
    (h : On items item s id k) (directions : List Bool) :
    On items item (Run.after (step native) s (directions.map (move id))) id
      (directions.foldl (shift (occurrences items item).length) k) := by
  induction directions generalizing s k with
  | nil => exact h
  | cons forward directions ih => exact ih (h.step_move hquiet hshort forward)

theorem On.construct (hquiet : Quiet native 0) (hshort : item.length < 2 ^ 16)
    (hid : s.value.values id = none) (hitem : occurrences s.value.items item ≠ []) :
    On s.value.items item (step native s (.construct id item)) id 0 := by
  have hable : (Op.construct id item).able s.value = true := by rw [Op.able, hid]; rfl
  have hconstructs := constructs native s id item
  have hfound := hconstructs.found (hquiet s.calls (Nat.zero_le _))
  rw [Nat.mod_eq_of_lt hshort, List.take_length] at hfound
  rw [step_of_able hable, Op.perform, exec_bind]
  rcases hexec : exec (ItemValue.construct native id item) s with ⟨result, t⟩
  rw [hexec] at hfound
  obtain rfl : result = .ok () := hfound.mpr hitem
  obtain ⟨v, hname, hstands, hvalue⟩ := hconstructs.made t hexec
  change On s.value.items item t id 0
  refine ⟨by rw [hvalue]; rfl, v, ?_, hname, hstands⟩
  rw [hvalue, World.values_place]

/-- The item value is on the item of number `k`, and the moves answer whether there is one behind it
and one before it. -/
structure Shows (native : Native) (items : Items) (item : List UInt8) (s : Called World)
    (id : ObjectId) (k : ℕ) : Prop where
  same : s.value.items = items
  lt : k < (occurrences items item).length
  handles : (s.value.values id).map handles = (occurrences items item)[k]?.map Handles.of
  next : (exec (next native id) s).1 = .ok (decide (k + 1 < (occurrences items item).length))
  previous : (exec (previous native id) s).1 = .ok (decide (0 < k))

theorem On.shows (hquiet : Quiet native 0) (hshort : item.length < 2 ^ 16)
    (h : On items item s id k) : Shows native items item s id k := by
  obtain ⟨rfl, v, hv, rfl, hstands⟩ := h
  have hkey := key_of_lt hshort
  have hlt := hstands.lt
  have hhandles := hstands.handles
  rw [hkey] at hlt hhandles
  have hanswer : ∀ forward, (exec (moveImpl native id forward) s).1 =
      .ok (goal s.value.items v.item_ forward k).isSome := fun forward =>
    (moves hv hstands forward).found hshort (hquiet s.calls (Nat.zero_le _))
  refine ⟨rfl, hlt, ?_, ?_, ?_⟩
  · rw [hv, hhandles]
    rfl
  · rw [← isSome_goal_forward]
    exact hanswer true
  · rw [← isSome_goal_back hlt]
    exact hanswer false

theorem foldl_shift_forward {count : ℕ} (h : k < count) (n : ℕ) :
    (List.replicate n true).foldl (shift count) k = min (k + n) (count - 1) := by
  induction n generalizing k with
  | zero =>
      rw [List.replicate_zero, List.foldl_nil]
      omega
  | succ n ih =>
      rw [List.replicate_succ, List.foldl_cons, shift, if_pos rfl, ih (by omega)]
      omega

/-- When no call reports an error, an item value goes through the items of its name as a number does
between the first and the last. Going forward, it is on each of them once, in their order. -/
theorem shows_after_moves (hquiet : Quiet native 0) (hshort : item.length < 2 ^ 16)
    (hid : s.value.values id = none) (hitem : occurrences s.value.items item ≠ []) :
    (∀ directions : List Bool, Shows native s.value.items item
      (Run.after (step native) s (.construct id item :: directions.map (move id))) id
      (directions.foldl (shift (occurrences s.value.items item).length) 0)) ∧
    ∀ n : ℕ, Shows native s.value.items item
      (Run.after (step native) s (.construct id item :: List.replicate n (.next id))) id
      (min n ((occurrences s.value.items item).length - 1)) := by
  have hon := On.construct hquiet hshort hid hitem
  refine ⟨fun directions => (hon.after_moves hquiet hshort directions).shows hquiet hshort,
    fun n => ?_⟩
  have hn := hon.after_moves hquiet hshort (List.replicate n true)
  rw [foldl_shift_forward (List.length_pos_iff.mpr hitem), Nat.zero_add, List.map_replicate] at hn
  exact hn.shows hquiet hshort

theorem shows_after_moves_sample :
    (∀ directions : List Bool, Shows sampleNative sampleItems [0x41]
      (Run.after (step sampleNative) sampleStart (.construct 0 [0x41] :: directions.map (move 0))) 0
      (directions.foldl (shift 2) 0)) ∧
    ∀ n : ℕ, Shows sampleNative sampleItems [0x41] (Run.after (step sampleNative) sampleStart
      (.construct 0 [0x41] :: List.replicate n (.next 0))) 0 (min n 1) := by
  have hquiet : Quiet sampleNative 0 := fun _ _ => rfl
  have hid : sampleStart.value.values 0 = none := rfl
  have hcount : (occurrences sampleStart.value.items [0x41]).length = 2 := by decide
  have hitem : occurrences sampleStart.value.items [0x41] ≠ [] := by decide
  have h := shows_after_moves hquiet (by decide) hid hitem
  rwa [hcount] at h

end Dmn.ItemValue
