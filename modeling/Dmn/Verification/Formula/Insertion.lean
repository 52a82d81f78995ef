import Dmn.Verification.Cursor.Reading
import Dmn.Verification.Formula.ItemName

/-! # Formulas with an inserted item name

The section with the item name comes between the header and the body. The cursor that writes it
ends where the old formula ended, so that the section has to fit into the old formula. -/

namespace Dmn.Formula

open Exec Cursor

variable {native : Native} {engine : Engine}

/-! ## The formula to come -/

/-- The size of the section: the length word, the name, and padding to an even size. -/
def paddedSize (itemName : List UInt8) : Nat :=
  2 + itemName.length + (2 + itemName.length) % 2

def sectionBytes (itemName : List UInt8) : List UInt8 :=
  integerBytes 2 itemName.length ++ (itemName ++ List.replicate ((2 + itemName.length) % 2) 0)

def header (memory : List UInt8) : Header := Header.ofBytes (memory.take headerSize)

/-- What is behind the header, up to the recorded length. -/
def body (memory : List UInt8) : List UInt8 :=
  (memory.drop headerSize).take ((header memory).length.toNat - headerSize)

/-- The header with both words grown by the section, and with the flag of an item name. -/
def grownHeader (hdr : Header) (itemName : List UInt8) : Header :=
  ⟨UInt16.ofNat (hdr.length.toNat + paddedSize itemName), 2,
    UInt16.ofNat (hdr.offset.toNat + paddedSize itemName)⟩

def inserted (memory itemName : List UInt8) : List UInt8 :=
  (grownHeader (header memory) itemName).bytes ++ (sectionBytes itemName ++ body memory)

/-- One of the two words of the header would not fit 16 bits; the other sizes are smaller. -/
def TooLarge (hdr : Header) (itemName : List UInt8) : Prop :=
  2 ^ 16 ≤ hdr.length.toNat + paddedSize itemName ∨
    2 ^ 16 ≤ hdr.offset.toNat + paddedSize itemName

theorem length_lt_of_not_tooLarge {hdr : Header} {itemName : List UInt8}
    (h : ¬ TooLarge hdr itemName) : itemName.length < 2 ^ 16 := by
  unfold TooLarge paddedSize at h
  omega

@[simp] theorem length_sectionBytes (itemName : List UInt8) :
    (sectionBytes itemName).length = paddedSize itemName := by
  simp only [sectionBytes, paddedSize, List.length_append, length_integerBytes,
    List.length_replicate]
  omega

/-! ## Assumptions -/

/-- The memory holds a formula of its recorded length. -/
structure Compiled (memory : List UInt8) : Prop where
  headerSize_le : headerSize ≤ (header memory).length.toNat
  length_le : (header memory).length.toNat ≤ memory.length

/-- `NSFFormulaGetSize`, called before and after the resizing, returns the length word. -/
structure ReturnsLength (native : Native) (engine : Engine) (n : Nat) : Prop where
  status_first : native.status n = .noError
  status_second : native.status (n + 2) = .noError
  getSize_eq : ∀ memory, headerSize ≤ memory.length → engine.getSize memory = (header memory).length

/-! ## Writing the section -/

theorem exec_writePadding {written rest : List UInt8} {padding : Nat} (hpadding : padding < 2)
    (hfit : padding ≤ rest.length) (hsize : written.length + rest.length < 2 ^ 32) :
    exec (if padding ≠ 0 then Cursor.write [0] else pure ()) (filled written rest) =
      (.ok (), filled (written ++ List.replicate padding 0) (rest.drop padding)) := by
  rcases Nat.eq_zero_or_pos padding with rfl | hpos
  · simp
  · obtain rfl : padding = 1 := by omega
    exact exec_write_filled hfit hsize

theorem length_le_of_writePadding {written rest : List UInt8} {padding : Nat} {c : Cursor}
    (hpadding : padding < 2) (hsize : written.length + rest.length < 2 ^ 32)
    (h : exec (if padding ≠ 0 then Cursor.write [0] else pure ()) (filled written rest) = (.ok (), c)) :
    padding ≤ rest.length := by
  rcases Nat.eq_zero_or_pos padding with rfl | hpos
  · exact Nat.zero_le _
  · obtain rfl : padding = 1 := by omega
    exact (exec_write_filled_eq_ok hsize h).1

section Writing

variable (hdr : Header) {nameSize : UInt16} {itemName : List UInt8}
  (hname : nameSize.toNat = itemName.length) {c : Cursor} (hlimit : c.buffer.length < 2 ^ 16)
include hname hlimit

theorem exec_writeItemName (hfit : headerSize + paddedSize itemName ≤ c.buffer.length) :
    exec (writeItemName hdr nameSize itemName ((2 + itemName.length) % 2)) c =
      (.ok (), filled (hdr.bytes ++ sectionBytes itemName)
        (c.buffer.drop (headerSize + paddedSize itemName))) := by
  have hheader := hdr.length_bytes
  have hpadding : (2 + itemName.length) % 2 < 2 := Nat.mod_lt _ (by decide)
  have htake : itemName.take nameSize.toNat = itemName := List.take_of_length_le (by omega)
  have hstart : exec (setOffset 0) c = (.ok (), filled [] c.buffer) := rfl
  unfold paddedSize at hfit
  rw [writeItemName, exec_bind_of_ok hstart, htake, hname,
    exec_bind_of_ok (exec_write_filled (by omega) (by simp; omega)), writeInteger,
    exec_bind_of_ok (exec_write_filled (by simp; omega) (by simp; omega)),
    exec_bind_of_ok (exec_write_filled (by simp; omega) (by simp; omega)),
    exec_writePadding hpadding (by simp; omega) (by simp; omega)]
  simp only [sectionBytes, List.nil_append, List.append_assoc, List.drop_drop, hheader,
    length_integerBytes, paddedSize, Nat.add_assoc]

/-- Only a section that fits is written to its end. -/
theorem fits_of_writeItemName {c' : Cursor}
    (h : exec (writeItemName hdr nameSize itemName ((2 + itemName.length) % 2)) c = (.ok (), c')) :
    headerSize + paddedSize itemName ≤ c.buffer.length := by
  have hheader := hdr.length_bytes
  have hpadding : (2 + itemName.length) % 2 < 2 := Nat.mod_lt _ (by decide)
  have htake : itemName.take nameSize.toNat = itemName := List.take_of_length_le (by omega)
  have hstart : exec (setOffset 0) c = (.ok (), filled [] c.buffer) := rfl
  rw [writeItemName, exec_bind_of_ok hstart, htake, hname] at h
  obtain ⟨_, c₁, hwrite, h⟩ := exec_bind_eq_ok h
  obtain ⟨hfit₁, rfl⟩ := exec_write_filled_eq_ok (by simp; omega) hwrite
  obtain ⟨_, c₂, hwrite, h⟩ := exec_bind_eq_ok h
  obtain ⟨hfit₂, rfl⟩ := exec_write_filled_eq_ok (by simp; omega) hwrite
  obtain ⟨_, c₃, hwrite, h⟩ := exec_bind_eq_ok h
  obtain ⟨hfit₃, rfl⟩ := exec_write_filled_eq_ok (by simp; omega) hwrite
  simp only [List.length_drop, length_integerBytes] at hfit₂ hfit₃
  have hfit₄ := length_le_of_writePadding hpadding (by simp; omega) h
  simp only [List.length_drop, length_integerBytes] at hfit₄
  unfold paddedSize
  omega

end Writing

/-! ## Resizing and moving -/

theorem exec_checkedCast {σ : Type} {n : Nat} (h : n < 2 ^ 16) (s : Called σ) :
    exec (checkedCast n : Native.M σ UInt16) s = (.ok (UInt16.ofNat n), s) := by
  rw [checkedCast, if_pos h]
  rfl

theorem exec_checkedCast_of_le {σ : Type} {n : Nat} (h : 2 ^ 16 ≤ n) (s : Called σ) :
    exec (checkedCast n : Native.M σ UInt16) s = (.error (.throws
      (.overflowError "Value is too large to fit inside the provided type")), s) := by
  rw [checkedCast, if_neg (Nat.not_lt_of_le h)]
  rfl

theorem exec_size {s : Called (List UInt8)} (hstatus : native.status s.calls = .noError) :
    exec (size native engine) s =
      (.ok (engine.getSize s.value).toNat, ⟨s.calls + 1, s.value⟩) := by
  rw [size, exec_bind_of_ok (Native.exec_call s), hstatus,
    exec_bind_of_ok (Status.exec_throwIfError_noError _ _)]
  rfl

variable (engine) in
theorem exec_getCursor {s : Called (List UInt8)} (hstatus : native.status s.calls = .noError)
    (hfit : (engine.getSize s.value).toNat ≤ s.value.length) :
    exec (getCursor native engine) s =
      (.ok (Cursor.make (some (s.value.take (engine.getSize s.value).toNat))),
        ⟨s.calls + 1, s.value⟩) := by
  rw [getCursor, exec_bind_of_ok (exec_size hstatus), exec_bind_of_ok (Native.exec_value _),
    if_neg (Nat.not_lt_of_le hfit)]
  rfl

theorem exec_readHeader {s : Called (List UInt8)} (hmemory : Compiled s.value)
    (hstatus : native.status s.calls = .noError)
    (hget : engine.getSize s.value = (header s.value).length) :
    exec (readHeader native engine) s = (.ok (header s.value), ⟨s.calls + 1, s.value⟩) := by
  have hheader := hmemory.headerSize_le
  have hlength := hmemory.length_le
  have hlimit := (header s.value).length.toNat_lt
  have hcursor := exec_getCursor engine hstatus (by rw [hget]; exact hlength)
  rw [hget] at hcursor
  generalize hviewed : s.value.take (header s.value).length.toNat = viewed at hcursor
  have hviewedLength : viewed.length = (header s.value).length.toNat := by
    rw [← hviewed]
    exact List.length_take_of_le hlength
  have htake : viewed.take headerSize = s.value.take headerSize := by
    rw [← hviewed, List.take_take, Nat.min_eq_left hheader]
  have hbefore : (Cursor.make (some viewed)).Before
      (viewed.take headerSize ++ viewed.drop headerSize) := by
    rw [List.take_append_drop]
    exact before_make (by omega)
  have hread := exec_read_of_before hbefore
  rw [List.length_take_of_le (by omega)] at hread
  have hthrough : exec (through (Cursor.make (some viewed)) (Cursor.read headerSize))
      ⟨s.calls + 1, s.value⟩ = (.ok (s.value.take headerSize), ⟨s.calls + 1, s.value⟩) := by
    rw [exec_through]
    simp only [Cursor.make, Option.getD_some, hviewedLength, hviewed] at hread ⊢
    rw [hread, htake, ← hviewed]
    simp [advanced]
  rw [readHeader, exec_bind_of_ok hcursor, exec_bind_of_ok hthrough]
  rfl

/-- The resized memory keeps the formula. -/
theorem exec_realloc {s : Called (List UInt8)} (hstatus : native.status s.calls = .noError)
    {newSize n : Nat} (hn : n ≤ newSize) (hlength : n ≤ s.value.length) :
    ∃ memory, exec (realloc native newSize) s = (.ok (), ⟨s.calls + 1, memory⟩) ∧
      memory.length = newSize ∧ memory.take n = s.value.take n := by
  refine ⟨s.value.take newSize ++
    (List.range (newSize - s.value.length)).map (native.garbage s.calls), ?_, ?_, ?_⟩
  · rw [realloc, exec_bind_of_ok (exec_get s), exec_bind_of_ok (Native.exec_call s), hstatus,
      exec_bind_of_ok (Status.exec_throwIfError_noError _ _)]
    rfl
  · simp only [List.length_append, List.length_take, List.length_map, List.length_range]
    omega
  · rw [List.take_append_of_le_length (by rw [List.length_take]; omega), List.take_take,
      Nat.min_eq_left hn]

theorem exec_memmove {s : Called (List UInt8)} (target source count : Nat)
    (hsource : source + count ≤ s.value.length) (htarget : target + count ≤ s.value.length) :
    exec (memmove target source count) s = (.ok (), ⟨s.calls, s.value.take target ++
      (s.value.drop source).take count ++ s.value.drop (target + count)⟩) := by
  rw [memmove, exec_bind_of_ok (Native.exec_value _), if_neg (by omega)]
  rfl

/-! ## The steps of the insertion -/

section Steps

variable {s : Called (List UInt8)} {itemName : List UInt8}

theorem exec_insertItemName_of_tooLarge (h : TooLarge (header s.value) itemName) :
    exec (insertItemName native engine (header s.value) itemName) s = (.error (.throws
      (.overflowError "Value is too large to fit inside the provided type")), s) := by
  have hoffset := (header s.value).offset.toNat_lt
  unfold TooLarge paddedSize at h
  by_cases hname : itemName.length < 2 ^ 16
  · rw [insertItemName, exec_bind_of_ok (exec_checkedCast hname s), UInt16.toNat_ofNat',
      Nat.mod_eq_of_lt hname]
    simp only
    by_cases hsection : 2 + itemName.length + (2 + itemName.length) % 2 < 2 ^ 16
    · rw [exec_bind_of_ok (exec_checkedCast hsection s), UInt16.toNat_ofNat',
        Nat.mod_eq_of_lt hsection]
      by_cases hlength : (header s.value).length.toNat +
          (2 + itemName.length + (2 + itemName.length) % 2) < 2 ^ 16
      · rw [exec_bind_of_ok (exec_checkedCast hlength s)]
        exact exec_bind_of_error (exec_checkedCast_of_le (by omega) s)
      · exact exec_bind_of_error (exec_checkedCast_of_le (Nat.le_of_not_lt hlength) s)
    · exact exec_bind_of_error (exec_checkedCast_of_le (Nat.le_of_not_lt hsection) s)
  · exact exec_bind_of_error (exec_checkedCast_of_le (Nat.le_of_not_lt hname) s)

/-- Without an overflow, the resizing comes next. -/
theorem exec_insertItemName (h : ¬ TooLarge (header s.value) itemName) :
    exec (insertItemName native engine (header s.value) itemName) s = exec (do
      realloc native ((header s.value).length.toNat + paddedSize itemName)
      let cursor ← getCursor native engine
      if (header s.value).length.toNat < headerSize then throw .undefined
      else do
        memmove (headerSize + paddedSize itemName) headerSize
          ((header s.value).length.toNat - headerSize)
        through cursor (writeItemName (grownHeader (header s.value) itemName)
          (UInt16.ofNat itemName.length) itemName ((2 + itemName.length) % 2))) s := by
  have hname := length_lt_of_not_tooLarge h
  have hpadded : 2 + itemName.length + (2 + itemName.length) % 2 = paddedSize itemName := rfl
  unfold TooLarge at h
  rw [insertItemName, exec_bind_of_ok (exec_checkedCast hname s), UInt16.toNat_ofNat',
    Nat.mod_eq_of_lt hname]
  simp only
  rw [hpadded, exec_bind_of_ok (exec_checkedCast (by omega) s), UInt16.toNat_ofNat',
    Nat.mod_eq_of_lt (by omega), exec_bind_of_ok (exec_checkedCast (by omega) s),
    exec_bind_of_ok (exec_checkedCast (by omega) s), UInt16.toNat_ofNat',
    Nat.mod_eq_of_lt (by omega)]
  rfl

theorem exec_insertItemName_of_resize (h : ¬ TooLarge (header s.value) itemName)
    (hresize : native.status s.calls ≠ .noError) :
    exec (insertItemName native engine (header s.value) itemName) s = (.error (.throws
      (.nativeError "Failed to resize formula memory" (native.status s.calls))),
        ⟨s.calls + 1, s.value⟩) := by
  have hrealloc : exec (realloc native ((header s.value).length.toNat + paddedSize itemName)) s =
      (.error (.throws (.nativeError "Failed to resize formula memory" (native.status s.calls))),
        ⟨s.calls + 1, s.value⟩) := by
    rw [realloc, exec_bind_of_ok (exec_get s), exec_bind_of_ok (Native.exec_call s)]
    exact exec_bind_of_error (Status.exec_throwIfError_of_ne hresize _ _)
  rw [exec_insertItemName h, exec_bind_of_error hrealloc]

theorem body_eq (memory : List UInt8) :
    body memory = (memory.take (header memory).length.toNat).drop headerSize := by
  rw [body, List.drop_take]

/-- Behind the resizing, the body has moved, and the cursor ends where the old formula ended. -/
theorem exists_exec_insertItemName (h : ¬ TooLarge (header s.value) itemName)
    (hmemory : Compiled s.value) (hresize : native.status s.calls = .noError)
    (hstatus : native.status (s.calls + 1) = .noError)
    (hget : ∀ memory, headerSize ≤ memory.length →
      engine.getSize memory = (header memory).length) :
    ∃ gap viewed : List UInt8, gap.length = paddedSize itemName ∧
      viewed.length = (header s.value).length.toNat ∧
      exec (insertItemName native engine (header s.value) itemName) s =
        exec (through (Cursor.make (some viewed)) (writeItemName
          (grownHeader (header s.value) itemName) (UInt16.ofNat itemName.length) itemName
            ((2 + itemName.length) % 2)))
          ⟨s.calls + 2, s.value.take headerSize ++ (gap ++ body s.value)⟩ := by
  have hheader := hmemory.headerSize_le
  generalize hlength : (header s.value).length.toNat = length at hheader
  have hroom : length ≤ s.value.length := hlength ▸ hmemory.length_le
  obtain ⟨memory, hrealloc, hmemoryLength, hkept⟩ :=
    exec_realloc hresize (Nat.le_add_right length (paddedSize itemName)) hroom
  have hstart : memory.take headerSize = s.value.take headerSize := by
    have htake := congrArg (List.take headerSize) hkept
    rwa [List.take_take, List.take_take, Nat.min_eq_left hheader] at htake
  have hsize : engine.getSize memory = (header s.value).length := by
    rw [hget memory (by omega), header, hstart]
    rfl
  have hcursor := exec_getCursor engine (s := ⟨s.calls + 1, memory⟩) hstatus (by simp only [hsize]; omega)
  simp only [hsize, hlength] at hcursor
  have hbody : (memory.drop headerSize).take (length - headerSize) = body s.value := by
    rw [body_eq, hlength, ← hkept, List.drop_take]
  have hmove := exec_memmove (s := ⟨s.calls + 2, memory⟩) (headerSize + paddedSize itemName)
    headerSize (length - headerSize) (by simp only; omega) (by simp only; omega)
  have hend : memory.drop (headerSize + paddedSize itemName + (length - headerSize)) = [] :=
    List.drop_eq_nil_of_le (by omega)
  refine ⟨(memory.drop headerSize).take (paddedSize itemName), memory.take length,
    List.length_take_of_le (by rw [List.length_drop]; omega),
    List.length_take_of_le (by omega), ?_⟩
  rw [exec_insertItemName h, hlength, exec_bind_of_ok hrealloc, exec_bind_of_ok hcursor,
    if_neg (Nat.not_lt_of_le hheader), exec_bind_of_ok hmove]
  simp only [hbody, hend, List.append_nil, List.take_add, hstart, List.append_assoc]

end Steps

/-! ## The result -/

/-- The formula has taken in the item name, or an exception has left it as it was, for one of the
reasons that there are. -/
def Inserts (native : Native) (itemName : List UInt8) (s : Called (List UInt8)) :
    Except Stop Unit × Called (List UInt8) → Prop
  | (.ok _, t) => t.value = inserted s.value itemName ∧
      (header t.value).length.toNat = (header s.value).length.toNat + paddedSize itemName ∧
      (header t.value).offset.toNat = (header s.value).offset.toNat + paddedSize itemName
  | (.error stop, t) => (∃ error, stop = .throws error) ∧ t.value = s.value ∧
      (TooLarge (header s.value) itemName ∨ (header s.value).flags ≠ 0 ∨
        native.status (s.calls + 1) ≠ .noError)

theorem header_append (hdr : Header) (rest : List UInt8) : header (hdr.bytes ++ rest) = hdr := by
  rw [header, List.take_left' hdr.length_bytes, Header.ofBytes_bytes]

/-- The memory once the section is written. -/
theorem exec_through_writeItemName {itemName gap viewed start body : List UInt8} {hdr : Header}
    (hname : itemName.length < 2 ^ 16) (hstart : start.length = headerSize)
    (hgap : gap.length = paddedSize itemName) (hlimit : viewed.length < 2 ^ 16)
    (hviewed : viewed.length ≤ (start ++ (gap ++ body)).length)
    (hfit : headerSize + paddedSize itemName ≤ viewed.length) (n : Nat) :
    exec (through (Cursor.make (some viewed)) (writeItemName hdr (UInt16.ofNat itemName.length)
        itemName ((2 + itemName.length) % 2))) ⟨n, start ++ (gap ++ body)⟩ =
      (.ok (), ⟨n, hdr.bytes ++ (sectionBytes itemName ++ body)⟩) := by
  generalize hmemory : start ++ (gap ++ body) = memory at hviewed
  have hbehind : memory.drop (headerSize + paddedSize itemName) = body := by
    rw [← hmemory, ← List.append_assoc, List.drop_left']
    rw [List.length_append, hstart, hgap]
  have hlength : (memory.take viewed.length).length = viewed.length :=
    List.length_take_of_le hviewed
  have hwrite := exec_writeItemName hdr (UInt16.toNat_ofNat_of_lt' hname)
    (c := ⟨memory.take viewed.length, 0⟩) (by simp only [hlength]; exact hlimit)
    (by simp only [hlength]; exact hfit)
  rw [exec_through]
  simp only [Cursor.make, Option.getD_some, hwrite, filled, List.append_assoc]
  rw [← List.drop_append_of_le_length, List.take_append_drop, hbehind]
  rw [hlength]
  exact hfit

/-- A section that does not fit is refused, but not before the header is overwritten. -/
theorem exec_through_of_lt {itemName viewed memory : List UInt8} (hdr : Header)
    (hname : itemName.length < 2 ^ 16) (hlimit : viewed.length < 2 ^ 16)
    (hheader : headerSize ≤ viewed.length) (hviewed : viewed.length ≤ memory.length)
    (hfit : viewed.length < headerSize + paddedSize itemName) (n : Nat) :
    ∃ stop memory', exec (through (Cursor.make (some viewed)) (writeItemName hdr
        (UInt16.ofNat itemName.length) itemName ((2 + itemName.length) % 2))) ⟨n, memory⟩ =
      (.error stop, ⟨n, memory'⟩) ∧ header memory' = hdr := by
  have hlength : (memory.take viewed.length).length = viewed.length :=
    List.length_take_of_le hviewed
  have hkept : HeaderKept hdr (exec (writeItemName hdr (UInt16.ofNat itemName.length) itemName
      ((2 + itemName.length) % 2)) ⟨memory.take viewed.length, 0⟩).2 :=
    headerKept_of_headerSize_le (by simp only [hlength]; exact hheader)
      (by simp only [hlength]; exact hlimit)
  rcases hwrite : exec (writeItemName hdr (UInt16.ofNat itemName.length) itemName
      ((2 + itemName.length) % 2)) ⟨memory.take viewed.length, 0⟩ with ⟨stop | _, c⟩
  · rw [hwrite] at hkept
    refine ⟨stop, c.buffer ++ memory.drop viewed.length, ?_, ?_⟩
    · rw [exec_through]
      simp only [Cursor.make, Option.getD_some, hwrite]
    · have hinside : headerSize ≤ c.buffer.length := Nat.le_trans hkept.2.1 hkept.2.2.1
      rw [header, List.take_append_of_le_length hinside, hkept.1, Header.ofBytes_bytes]
  · have hfits := fits_of_writeItemName hdr (UInt16.toNat_ofNat_of_lt' hname)
      (by simp only [hlength]; exact hlimit) hwrite
    simp only [hlength] at hfits
    omega

section Outcomes

variable {s : Called (List UInt8)} {itemName : List UInt8} (hmemory : Compiled s.value)
  (hflags : (header s.value).flags = 0) (hsize : ReturnsLength native engine s.calls)
  (htooLarge : ¬ TooLarge (header s.value) itemName)
  (hresize : native.status (s.calls + 1) = .noError)
include hmemory hsize hflags

/-- Behind the header, the section is inserted. -/
theorem exec_addItemName : exec (addItemName native engine itemName) s =
    exec (insertItemName native engine (header s.value) itemName) ⟨s.calls + 1, s.value⟩ := by
  have hget := hsize.getSize_eq s.value (Nat.le_trans hmemory.headerSize_le hmemory.length_le)
  rw [addItemName, exec_bind_of_ok (exec_readHeader hmemory hsize.status_first hget),
    if_neg (not_not_intro hflags)]

include htooLarge hresize

/-- What is left to do once the memory is resized and the body has moved. -/
theorem exists_exec_addItemName : ∃ viewed gap : List UInt8, gap.length = paddedSize itemName ∧
    viewed.length = (header s.value).length.toNat ∧
    viewed.length ≤ (s.value.take headerSize ++ (gap ++ body s.value)).length ∧
    exec (addItemName native engine itemName) s =
      exec (through (Cursor.make (some viewed)) (writeItemName
        (grownHeader (header s.value) itemName) (UInt16.ofNat itemName.length) itemName
          ((2 + itemName.length) % 2)))
        ⟨s.calls + 3, s.value.take headerSize ++ (gap ++ body s.value)⟩ := by
  have hheader := hmemory.headerSize_le
  have hroom := hmemory.length_le
  obtain ⟨gap, viewed, hgap, hviewed, hinsert⟩ := exists_exec_insertItemName
    (s := ⟨s.calls + 1, s.value⟩) htooLarge hmemory hresize hsize.status_second hsize.getSize_eq
  simp only at hviewed hinsert
  refine ⟨viewed, gap, hgap, hviewed, ?_, ?_⟩
  · simp only [body, List.length_append, List.length_take, List.length_drop, hgap]
    omega
  · rw [exec_addItemName hmemory hflags hsize]
    exact hinsert

/-- A section that fits into the old formula is inserted. -/
theorem exec_addItemName_of_fits
    (hfit : headerSize + paddedSize itemName ≤ (header s.value).length.toNat) :
    exec (addItemName native engine itemName) s =
      (.ok (), ⟨s.calls + 3, inserted s.value itemName⟩) := by
  have hlimit := (header s.value).length.toNat_lt
  have hstart : (s.value.take headerSize).length = headerSize :=
    List.length_take_of_le (Nat.le_trans hmemory.headerSize_le hmemory.length_le)
  obtain ⟨viewed, gap, hgap, hviewed, hroom, hexec⟩ :=
    exists_exec_addItemName hmemory hflags hsize htooLarge hresize
  rw [hexec, exec_through_writeItemName (length_lt_of_not_tooLarge htooLarge) hstart hgap
    (by omega) hroom (by omega)]
  rfl

/-- A section that does not fit leaves a formula with the new header. -/
theorem exec_addItemName_of_lt
    (hfit : (header s.value).length.toNat < headerSize + paddedSize itemName) :
    ∃ stop memory, exec (addItemName native engine itemName) s =
      (.error stop, ⟨s.calls + 3, memory⟩) ∧
        header memory = grownHeader (header s.value) itemName := by
  have hlimit := (header s.value).length.toNat_lt
  have hheader := hmemory.headerSize_le
  obtain ⟨viewed, gap, _, hviewed, hroom, hexec⟩ :=
    exists_exec_addItemName hmemory hflags hsize htooLarge hresize
  rw [hexec]
  exact exec_through_of_lt _ (length_lt_of_not_tooLarge htooLarge) (by omega) (by omega) hroom
    (by omega) _

end Outcomes

def sampleNative : Native := ⟨fun _ => .noError, fun _ _ => 0⟩

def sampleEngine : Engine := ⟨fun memory => (header memory).length, fun _ memory => memory,
  fun memory _ => memory⟩

def sampleName : List UInt8 := [0x24, 0x31]

theorem returnsLength_sampleEngine (n : Nat) : ReturnsLength sampleNative sampleEngine n :=
  ⟨rfl, rfl, fun _ _ => rfl⟩

end Dmn.Formula
