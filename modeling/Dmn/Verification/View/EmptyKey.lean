import Dmn.Verification.View.Iteration

/-! # The empty key

`iterate` takes an empty key for no key, and `iterateEntries` for a key. With an empty key the
start position is therefore not skipped, and the first read is another one. -/

namespace Dmn.View

open Exec

variable {Pos Note : Type} (nif : Nif Pos) (visitor : Visitor Note)

/-! ## Requests -/

/-- These requests were made first. -/
def Asked (first : List (Request Pos)) (s : State Pos Note) : Prop := first <+: s.requests

variable {visitor} in
theorem keeps_visit (first : List (Request Pos)) (entry : Entry) :
    Keeps (Asked first) (visit visitor entry : M Pos Note Unit) := by
  intro s hs
  unfold visit
  rcases visitor.getNote entry.noteid with error | _ | note
  · exact hs
  · exact hs
  · simp only [exec_bind, exec_modify, exec_get]
    split <;> exact hs

variable {visitor} in
theorem keeps_readEntries (first : List (Request Pos)) (n : ℕ) (obj : Cursor) :
    Keeps (Asked first) (readEntries visitor n obj : M Pos Note Unit) := by
  induction n generalizing obj with
  | zero => exact .pure ()
  | succ n ih =>
      rw [readEntries]
      split
      · exact .throw _
      · exact .bind (keeps_visit first _) fun _ => ih _

theorem keeps_lock (first : List (Request Pos)) (buffer : Option (List UInt8)) :
    Keeps (Asked first) (lock buffer : M Pos Note Cursor) := by
  cases buffer with
  | none => exact .throw _
  | some bytes => exact .pure _

theorem keeps_throwIfError (first : List (Request Pos)) (status : Status) (message : String) :
    Keeps (Asked first) (status.throwIfError message : M Pos Note Unit) := by
  intro s hs
  rw [Status.exec_throwIfError]
  split <;> exact hs

theorem keeps_nifReadEntries (first : List (Request Pos)) (skip count : UInt32) :
    Keeps (Asked first) (nifReadEntries nif skip count : M Pos Note (Answer Pos)) :=
  fun _ hs => hs.trans (List.prefix_append _ _)

/-- Whatever the answer is, the requests made so far stay the first ones. -/
theorem keeps_readLoop (first : List (Request Pos)) (remaining skip : UInt32) :
    Keeps (Asked first) (readLoop nif visitor remaining skip) := by
  fun_induction readLoop nif visitor remaining skip with
  | case1 => exact .pure ()
  | case2 remaining skip hzero ih =>
      refine .bind (keeps_nifReadEntries nif first skip remaining) fun answer => ?_
      refine .bind (keeps_throwIfError first _ _) fun _ => ?_
      refine .bind (keeps_lock first _) fun obj => ?_
      split
      · exact .pure ()
      refine .bind (keeps_readEntries first _ obj) fun _ => ?_
      split
      · exact .pure ()
      split
      · exact ih answer ‹_› ‹_›
      · exact .pure ()

/-- The loop starts with a read of what remains. -/
theorem asked_readLoop {remaining : UInt32} (h : remaining ≠ 0) (skip : UInt32)
    (s : State Pos Note) : Asked (s.requests ++ [⟨s.position, skip, remaining⟩])
      (exec (readLoop nif visitor remaining skip) s).2 := by
  unfold readLoop
  rw [if_neg h, exec_bind_of_ok (exec_nifReadEntries_eq nif skip remaining s)]
  have hstart : Asked (s.requests ++ [⟨s.position, skip, remaining⟩])
      (s.read ⟨s.position, skip, remaining⟩
        (nif.readEntries s.requests ⟨s.position, skip, remaining⟩).position) :=
    List.prefix_rfl
  refine keeps_behind (keeps_throwIfError _ _ _ _ hstart) fun _ => ?_
  refine .bind (keeps_lock _ _) fun obj => ?_
  split
  · exact .pure ()
  refine .bind (keeps_readEntries _ _ obj) fun _ => ?_
  split
  · exact .pure ()
  split
  · exact keeps_readLoop nif visitor _ _ _
  · exact .pure ()

/-! ## With and without the empty key -/

variable (codePage : CharCode Char UInt8) (count offset : UInt32)

/-- The iteration without a key. -/
def unkeyed : Except Stop Unit × State Pos Note :=
  exec (iterate nif visitor codePage { count := count, offset := offset }) (initial nif)

/-- The same with an empty key. -/
def emptyKeyed : Except Stop Unit × State Pos Note :=
  exec (iterate nif visitor codePage { key := some [], count := count, offset := offset })
    (initial nif)

variable {count offset}

theorem unkeyed_eq_of_le (h : count ≤ offset) :
    unkeyed nif visitor codePage count offset = (.ok (), initial nif) := by
  simp [unkeyed, iterate, iterateEntries, h]

theorem emptyKeyed_eq_of_le (h : count ≤ offset) :
    emptyKeyed nif visitor codePage count offset = (.ok (), initial nif) := by
  simp [emptyKeyed, iterate, iterateEntries, h]

theorem remaining_ne_zero (h : ¬ count ≤ offset) : min count (count - offset) ≠ 0 := by
  have hlt : offset.toNat < count.toNat := UInt32.not_le.mp h
  intro hzero
  have hmin := congrArg UInt32.toNat hzero
  rw [toNat_min, toNat_sub_of_not_le h] at hmin
  simp at hmin
  omega

theorem asked_unkeyed (h : ¬ count ≤ offset) :
    Asked [⟨nif.start, offset + 1, min count (count - offset)⟩]
      (unkeyed nif visitor codePage count offset).2 := by
  have hlt : offset.toNat < count.toNat := UInt32.not_le.mp h
  have hcount := count.toNat_lt
  have hmax : offset ≠ 0xFFFFFFFF := by
    rintro rfl
    simp at hlt
    omega
  have hloop : unkeyed nif visitor codePage count offset =
      exec (readLoop nif visitor (min count (count - offset)) (offset + 1)) (initial nif) := by
    simp [unkeyed, iterate, iterateEntries, h, hmax]
  rw [hloop]
  exact asked_readLoop nif visitor (remaining_ne_zero h) (offset + 1) (initial nif)

theorem asked_emptyKeyed (h : ¬ count ≤ offset) :
    Asked [⟨nif.start, offset, min count (count - offset)⟩]
      (emptyKeyed nif visitor codePage count offset).2 := by
  have hloop : emptyKeyed nif visitor codePage count offset =
      exec (readLoop nif visitor (min count (count - offset)) offset) (initial nif) := by
    simp [emptyKeyed, iterate, iterateEntries, h]
  rw [hloop]
  exact asked_readLoop nif visitor (remaining_ne_zero h) offset (initial nif)

/-- Two records that begin with reads of different skips are different. -/
theorem requests_ne_of_skip_ne {first second : Request Pos} {s t : State Pos Note}
    (hs : Asked [first] s) (ht : Asked [second] t) (hskip : first.skip ≠ second.skip) :
    s.requests ≠ t.requests := by
  intro heq
  obtain ⟨rest, hrest⟩ := hs
  obtain ⟨rest', hrest'⟩ := ht
  rw [heq, ← hrest'] at hrest
  exact hskip (congrArg Request.skip (List.cons.inj hrest).1)

theorem requests_ne (h : ¬ count ≤ offset) :
    (emptyKeyed nif visitor codePage count offset).2.requests ≠
      (unkeyed nif visitor codePage count offset).2.requests := by
  apply requests_ne_of_skip_ne (asked_emptyKeyed nif visitor codePage h)
    (asked_unkeyed nif visitor codePage h)
  intro hskip
  have hnat := congrArg UInt32.toNat hskip
  simp only [UInt32.toNat_add] at hnat
  have hone : (1 : UInt32).toNat = 1 := rfl
  have hlt := offset.toNat_lt
  omega

/-- An empty key makes the same requests as no key, and delivers the same entries, exactly where
no request is made at all. -/
theorem emptyKeyed_requests_iff :
    (emptyKeyed nif visitor codePage count offset).2.requests =
          (unkeyed nif visitor codePage count offset).2.requests ∧
        (emptyKeyed nif visitor codePage count offset).2.calls =
          (unkeyed nif visitor codePage count offset).2.calls ↔
      count ≤ offset := by
  constructor
  · rintro ⟨hrequests, -⟩
    by_contra hle
    exact requests_ne nif visitor codePage hle hrequests
  · intro hle
    rw [emptyKeyed_eq_of_le nif visitor codePage hle, unkeyed_eq_of_le nif visitor codePage hle]
    exact ⟨rfl, rfl⟩

/-- Without options, the first read skips the start position, and with an empty key it does
not. -/
theorem emptyKeyed_requests_ne :
    (emptyKeyed (oneByOne threeEntries) idVisitor utf8 0xFFFFFFFF 0).2.requests ≠
      (unkeyed (oneByOne threeEntries) idVisitor utf8 0xFFFFFFFF 0).2.requests :=
  requests_ne (oneByOne threeEntries) idVisitor utf8 (by decide)

end Dmn.View
