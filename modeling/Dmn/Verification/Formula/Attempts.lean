import Dmn.Verification.Formula.Insertion

/-! # How adding an item name ends

Up to the last look at the size of the formula, nothing is lost when `add_item_name` stops. From
there on the formula has the flags of an item name, whether or not the name could be written. -/

namespace Dmn.Formula

open Exec Cursor

variable {native : Native} {engine : Engine}

/-- `NSFFormulaGetSize` returns the length word of the header. -/
def RecordsLength (engine : Engine) : Prop :=
  ∀ memory, headerSize ≤ memory.length → engine.getSize memory = (header memory).length

/-- The memory holds the same formula; bytes behind it may differ. -/
def SameFormula (memory memory' : List UInt8) : Prop :=
  memory' = memory ∨ Compiled memory ∧ Compiled memory' ∧ header memory' = header memory ∧
    body memory' = body memory

/-- The formula takes in the name, if the native calls succeed. -/
structure Takes (engine : Engine) (memory itemName : List UInt8) : Prop where
  headerSize_le : headerSize ≤ (engine.getSize memory).toNat
  flags_eq : (header memory).flags = 0
  not_tooLarge : ¬ TooLarge (header memory) itemName
  fits : headerSize + paddedSize itemName ≤ (header memory).length.toNat

/-- Something stops `add_item_name` before the formula is changed. -/
def Refused (native : Native) (engine : Engine) (itemName : List UInt8)
    (s : Called (List UInt8)) : Prop :=
  native.status s.calls ≠ .noError ∨ (engine.getSize s.value).toNat < headerSize ∨
    (header s.value).flags ≠ 0 ∨ TooLarge (header s.value) itemName ∨
    native.status (s.calls + 1) ≠ .noError ∨ native.status (s.calls + 2) ≠ .noError

/-! ## Looking at the size -/

theorem exec_size_of_ne {s : Called (List UInt8)} (h : native.status s.calls ≠ .noError) :
    exec (size native engine) s = (.error (.throws
      (.nativeError "Failed to get formula size" (native.status s.calls))),
        ⟨s.calls + 1, s.value⟩) := by
  rw [size, exec_bind_of_ok (Native.exec_call s)]
  exact exec_bind_of_error (Status.exec_throwIfError_of_ne h _ _)

theorem exec_getCursor_of_ne {s : Called (List UInt8)} (h : native.status s.calls ≠ .noError) :
    exec (getCursor native engine) s = (.error (.throws
      (.nativeError "Failed to get formula size" (native.status s.calls))),
        ⟨s.calls + 1, s.value⟩) := by
  rw [getCursor, exec_bind_of_error (exec_size_of_ne h)]

theorem keeps_buffer_read (buffer : List UInt8) (n : Nat) :
    Keeps (fun c : Cursor => c.buffer = buffer) (Cursor.read n) := by
  have hload : Keeps (fun c : Cursor => c.buffer = buffer) (load n) := by
    intro c hc
    rw [exec_load]
    split <;> exact hc
  refine .bind ?_ fun _ => hload.bind fun _ => .bind (fun _ hc => hc) fun _ => .pure _
  intro c hc
  rw [exec_ensureBounds]
  split <;> exact hc

theorem reads_readHeader : Native.Reads (readHeader native engine) := by
  refine .bind reads_getCursor fun cursor => .bind ?_ fun _ => .pure _
  intro s
  have hbuffer := keeps_buffer_read (s.value.take cursor.buffer.length) headerSize
    { cursor with buffer := s.value.take cursor.buffer.length } rfl
  rw [exec_through]
  simp only [hbuffer, List.take_append_drop]

/-- The header is only read from a formula of that size. -/
theorem compiled_of_readHeader (hrecords : RecordsLength engine) {s t : Called (List UInt8)}
    {hdr : Header} (h : exec (readHeader native engine) s = (.ok hdr, t)) :
    native.status s.calls = .noError ∧ headerSize ≤ (engine.getSize s.value).toNat ∧
      Compiled s.value ∧ engine.getSize s.value = (header s.value).length ∧
      hdr = header s.value ∧ t = ⟨s.calls + 1, s.value⟩ := by
  have hhdr := exec_readHeader_eq_ok h
  have hstatus : native.status s.calls = .noError := by
    by_contra hne
    rw [readHeader, exec_bind_of_error (exec_getCursor_of_ne hne)] at h
    cases h
  obtain ⟨cursor, s₁, hcursor, hrest⟩ := exec_bind_eq_ok h
  obtain ⟨bytes, s₂, hread, _⟩ := exec_bind_eq_ok hrest
  have hvalue : s₁.value = s.value := reads_getCursor.of_ok hcursor
  obtain ⟨hfit, rfl⟩ := exec_getCursor_eq_ok hcursor
  obtain ⟨c, hread, _⟩ := exec_through_eq_ok hread
  obtain ⟨_, _, hsize⟩ := exec_read_eq_ok hread
  simp only [Cursor.make, Option.getD_some, hvalue, List.length_take, Nat.min_eq_left hfit,
    UInt64.toNat_zero] at hsize
  have hheader : headerSize ≤ (engine.getSize s.value).toNat := by
    rcases hsize with hzero | hsize
    · cases hzero
    · omega
  have hget := hrecords s.value (Nat.le_trans hheader hfit)
  have hmemory : Compiled s.value := ⟨hget ▸ hheader, hget ▸ hfit⟩
  refine ⟨hstatus, hheader, hmemory, hget, hhdr, ?_⟩
  rw [exec_readHeader hmemory hstatus hget] at h
  exact (Prod.mk.inj h).2.symm

/-! ## Stops -/

/-- Memory that starts with the same bytes holds the same formula. -/
theorem sameFormula_of_take {memory memory' : List UInt8} (hmemory : Compiled memory)
    (hlength : (header memory).length.toNat ≤ memory'.length)
    (h : memory'.take (header memory).length.toNat = memory.take (header memory).length.toNat) :
    SameFormula memory memory' := by
  have hheader := hmemory.headerSize_le
  have hstart : header memory' = header memory := by
    have htake := congrArg (List.take headerSize) h
    rw [List.take_take, List.take_take, Nat.min_eq_left hheader] at htake
    rw [header, htake, header]
  refine .inr ⟨hmemory, ⟨?_, ?_⟩, hstart, ?_⟩
  · rw [hstart]
    exact hheader
  · rw [hstart]
    exact hlength
  · rw [body_eq, body_eq, hstart, h]

/-- A resized formula whose size cannot be looked up is still the same. -/
theorem exec_insertItemName_of_cursor {s : Called (List UInt8)} {itemName : List UInt8}
    (htooLarge : ¬ TooLarge (header s.value) itemName) (hmemory : Compiled s.value)
    (hresize : native.status s.calls = .noError) (hstatus : native.status (s.calls + 1) ≠ .noError) :
    ∃ stop t, exec (insertItemName native engine (header s.value) itemName) s = (.error stop, t) ∧
      SameFormula s.value t.value := by
  obtain ⟨memory, hrealloc, hlength, htake⟩ := exec_realloc hresize
    (Nat.le_add_right _ (paddedSize itemName)) hmemory.length_le
  have hcursor : exec (getCursor native engine) ⟨s.calls + 1, memory⟩ = _ :=
    exec_getCursor_of_ne hstatus
  have hroom : (header s.value).length.toNat ≤ memory.length := by omega
  have hinsert : exec (insertItemName native engine (header s.value) itemName) s =
      (.error (.throws (.nativeError "Failed to get formula size"
        (native.status (s.calls + 1)))), ⟨s.calls + 2, memory⟩) := by
    rw [exec_insertItemName htooLarge, exec_bind_of_ok hrealloc, exec_bind_of_error hcursor]
  exact ⟨_, _, hinsert, sameFormula_of_take hmemory hroom htake⟩

/-- What stops early leaves the formula. -/
theorem exists_stop_of_refused (hrecords : RecordsLength engine) {s : Called (List UInt8)}
    {itemName : List UInt8} (h : Refused native engine itemName s) :
    ∃ stop t, exec (addItemName native engine itemName) s = (.error stop, t) ∧
      SameFormula s.value t.value := by
  rcases hread : exec (readHeader native engine) s with ⟨stop | hdr, s₁⟩
  · have hvalue : (exec (readHeader native engine) s).2.value = s.value := reads_readHeader s
    rw [hread] at hvalue
    exact ⟨stop, s₁, by rw [addItemName, exec_bind_of_error hread], .inl hvalue⟩
  · obtain ⟨hstatus, hheader, hmemory, hget, rfl, rfl⟩ := compiled_of_readHeader hrecords hread
    rw [addItemName, exec_bind_of_ok hread]
    by_cases hflags : (header s.value).flags = 0
    · rw [if_neg (not_not_intro hflags)]
      by_cases htooLarge : TooLarge (header s.value) itemName
      · have hoverflow : exec (insertItemName native engine (header s.value) itemName)
            ⟨s.calls + 1, s.value⟩ = _ := exec_insertItemName_of_tooLarge htooLarge
        exact ⟨_, _, hoverflow, .inl rfl⟩
      by_cases hresize : native.status (s.calls + 1) = .noError
      · have hsecond : native.status (s.calls + 2) ≠ .noError := by
          rcases h with h | h | h | h | h | h
          · exact absurd hstatus h
          · omega
          · exact absurd hflags h
          · exact absurd h htooLarge
          · exact absurd hresize h
          · exact h
        exact exec_insertItemName_of_cursor (s := ⟨s.calls + 1, s.value⟩) htooLarge hmemory hresize
          hsecond
      · have hfail : exec (insertItemName native engine (header s.value) itemName)
            ⟨s.calls + 1, s.value⟩ = _ := exec_insertItemName_of_resize htooLarge hresize
        exact ⟨_, _, hfail, .inl rfl⟩
    · rw [if_pos hflags]
      exact ⟨_, _, rfl, .inl rfl⟩

/-- What stops later, or does not stop, leaves the flags of an item name. -/
theorem flagged_of_not_refused (hrecords : RecordsLength engine) {s t : Called (List UInt8)}
    {itemName : List UInt8} {result : Except Stop Unit} (h : ¬ Refused native engine itemName s)
    (hexec : exec (addItemName native engine itemName) s = (result, t)) :
    result = .error .undefined ∨ Flagged t.value := by
  simp only [Refused, not_or, not_not, Nat.not_lt] at h
  obtain ⟨hstatus, hheader, hflags, htooLarge, hresize, hsecond⟩ := h
  by_cases hlength : (engine.getSize s.value).toNat ≤ s.value.length
  · right
    have hget := hrecords s.value (Nat.le_trans hheader hlength)
    rw [hget] at hheader hlength
    have hmemory : Compiled s.value := ⟨hheader, hlength⟩
    have hsize : ReturnsLength native engine s.calls := ⟨hstatus, hsecond, hrecords⟩
    have hgrown : header t.value = grownHeader (header s.value) itemName := by
      by_cases hfit : headerSize + paddedSize itemName ≤ (header s.value).length.toNat
      · rw [exec_addItemName_of_fits hmemory hflags hsize htooLarge hresize hfit] at hexec
        cases hexec
        exact header_append _ _
      · obtain ⟨stop, memory, hlt, hgrown⟩ := exec_addItemName_of_lt hmemory hflags hsize htooLarge
          hresize (Nat.lt_of_not_le hfit)
        rw [hlt] at hexec
        cases hexec
        exact hgrown
    show (header t.value).flags ≠ 0
    rw [hgrown]
    exact (by decide : (2 : UInt16) ≠ 0)
  · left
    have hcursor : exec (getCursor native engine) s = (.error .undefined, ⟨s.calls + 1, s.value⟩) := by
      rw [getCursor, exec_bind_of_ok (exec_size hstatus), exec_bind_of_ok (Native.exec_value _),
        if_pos (Nat.lt_of_not_le hlength)]
      rfl
    rw [addItemName, readHeader, exec_bind_of_error (exec_bind_of_error hcursor)] at hexec
    cases hexec
    rfl

/-! ## Returns -/

/-- A formula that has taken in a name was one that takes it. -/
theorem takes_of_ok (hrecords : RecordsLength engine) {s t : Called (List UInt8)}
    {itemName : List UInt8} (h : exec (addItemName native engine itemName) s = (.ok (), t)) :
    ¬ Refused native engine itemName s ∧ Compiled s.value ∧ Takes engine s.value itemName ∧
      t = ⟨s.calls + 3, inserted s.value itemName⟩ := by
  have hrefused : ¬ Refused native engine itemName s := by
    intro hrefused
    obtain ⟨stop, u, hstop, _⟩ := exists_stop_of_refused hrecords hrefused
    rw [hstop] at h
    cases h
  obtain ⟨hdr, s₁, hread, _⟩ := exec_bind_eq_ok h
  obtain ⟨_, _, hmemory, _, _, _⟩ := compiled_of_readHeader hrecords hread
  have hnot := hrefused
  simp only [Refused, not_or, not_not, Nat.not_lt] at hnot
  obtain ⟨hstatus, hheader, hflags, htooLarge, hresize, hsecond⟩ := hnot
  have hsize : ReturnsLength native engine s.calls := ⟨hstatus, hsecond, hrecords⟩
  by_cases hfit : headerSize + paddedSize itemName ≤ (header s.value).length.toNat
  · rw [exec_addItemName_of_fits hmemory hflags hsize htooLarge hresize hfit] at h
    cases h
    exact ⟨hrefused, hmemory, ⟨hheader, hflags, htooLarge, hfit⟩, rfl⟩
  · obtain ⟨stop, memory, hlt, _⟩ := exec_addItemName_of_lt hmemory hflags hsize htooLarge
      hresize (Nat.lt_of_not_le hfit)
    rw [hlt] at h
    cases h

/-- The same formula takes in the name to the same result. -/
theorem exec_addItemName_of_sameFormula (hrecords : RecordsLength engine) {n : Nat}
    {t : Called (List UInt8)} {itemName memory memory' : List UInt8}
    (hsame : SameFormula memory memory')
    (h : exec (addItemName native engine itemName) ⟨n, memory⟩ = (.ok (), t)) :
    exec (addItemName native engine itemName) ⟨n, memory'⟩ = (.ok (), t) := by
  rcases hsame with rfl | ⟨hmemory, hmemory', hheader, hbody⟩
  · exact h
  · obtain ⟨hrefused, _, htakes, rfl⟩ := takes_of_ok hrecords h
    simp only [Refused, not_or, not_not] at hrefused
    obtain ⟨hstatus, _, _, _, hresize, hsecond⟩ := hrefused
    have hfits : exec (addItemName native engine itemName) ⟨n, memory'⟩ = _ :=
      exec_addItemName_of_fits hmemory' (by rw [hheader]; exact htakes.flags_eq)
        ⟨hstatus, hsecond, hrecords⟩ (by rw [hheader]; exact htakes.not_tooLarge) hresize
        (by rw [hheader]; exact htakes.fits)
    rw [hfits]
    simp only [inserted, hheader, hbody]

end Dmn.Formula
