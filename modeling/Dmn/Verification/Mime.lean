import Dmn.Model.Mime
import Dmn.Verification.Native

/-! # What a stream makes of a note

A stream is itemized when all lines have been put into it, and is closed in any case. -/

namespace Dmn

namespace Mime

open Exec

variable {env : Env} {w : World} {n note target hdl : ℕ} {self : Mime} {field : List UInt8}
  {put : List (List UInt8)}

/-! ## Settings -/

def Setting.content : Setting → Option (List UInt8)
  | setContentType _ | setCharset _ => none
  | appendContent content => some content

theorem hdl_foldl_apply (settings : List Setting) (self : Mime) :
    (settings.foldl apply self).hdl_ = self.hdl_ := by
  induction settings generalizing self with
  | nil => rfl
  | cons setting settings ih => cases setting <;> exact ih _

/-! ## Lines -/

/-- The lines of the item. -/
def lines (self : Mime) : List (List UInt8) :=
  self.contentTypeLine :: encodingLine :: [] :: self.content_

/-- A line as a C string. -/
def cut (line : List UInt8) : List UInt8 := line.takeWhile (· ≠ 0)

/-- With one more open stream. -/
def World.withStream (hdl note : ℕ) (put : List (List UInt8)) (w : World) : World :=
  { w with streams := ⟨hdl, note, put⟩ :: w.streams }

theorem stream_withStream (hdl note : ℕ) (put : List (List UInt8)) (w : World) :
    (w.withStream hdl note put).stream hdl = some ⟨hdl, note, put⟩ :=
  Table.lookup_cons_of_eq Stream.handle _ rfl

theorem append_withStream (line : List UInt8) :
    (w.withStream hdl note put).append line hdl = w.withStream hdl note (put ++ [line]) := by
  simp [World.append, World.withStream, Table.modify]

theorem exec_writeLine (env : Env) (w : World) (n note : ℕ) (put : List (List UInt8))
    (line : List UInt8) (hself : self.hdl_ = hdl) :
    exec (writeLine env line self) ⟨n, w.withStream hdl note put⟩ =
      if env.putLine n = .success then
        (.ok (), ⟨n + 1, w.withStream hdl note (put ++ [cut line])⟩)
      else
        (.error (.mime (MimeError.make "Failed to append line to mime stream" (env.putLine n))),
          ⟨n + 1, w.withStream hdl note put⟩) := by
  have hput : exec (mimeStreamPutLine env line hdl) ⟨n, w.withStream hdl note put⟩ =
      (.ok (env.putLine n), if env.putLine n = .success then
        ⟨n + 1, w.withStream hdl note (put ++ [cut line])⟩
        else ⟨n + 1, w.withStream hdl note put⟩) := by
    rw [mimeStreamPutLine, exec_bind_of_ok (exec_get _)]
    dsimp only
    rw [stream_withStream]
    by_cases hsuccess : env.putLine n = .success
    · simp only [if_pos hsuccess, ← append_withStream]
      rfl
    · simp only [if_neg hsuccess]
      rfl
  rw [writeLine, hself, exec_bind_of_ok hput]
  by_cases hsuccess : env.putLine n = .success
  · simp [hsuccess]
  · simp [hsuccess]

/-- The lines are put one after the other, up to the first one that is refused. -/
theorem exec_writeLines (w : World) (hself : self.hdl_ = hdl) (lines put : List (List UInt8))
    (n : ℕ) :
    ((∀ i < lines.length, env.putLine (n + i) = .success) ∧
      exec (writeLines env lines self) ⟨n, w.withStream hdl note put⟩ =
        (.ok (), ⟨n + lines.length, w.withStream hdl note (put ++ lines.map cut)⟩)) ∨
    ∃ k < lines.length, (∀ i < k, env.putLine (n + i) = .success) ∧
      env.putLine (n + k) ≠ .success ∧
      exec (writeLines env lines self) ⟨n, w.withStream hdl note put⟩ =
        (.error (.mime (MimeError.make "Failed to append line to mime stream"
            (env.putLine (n + k)))),
          ⟨n + k + 1, w.withStream hdl note (put ++ (lines.take k).map cut)⟩) := by
  induction lines generalizing put n with
  | nil => exact .inl ⟨nofun, by simp [writeLines]⟩
  | cons line lines ih =>
      have hline := exec_writeLine env w n note put line hself
      by_cases hsuccess : env.putLine n = .success
      · rw [if_pos hsuccess] at hline
        rw [writeLines, exec_bind_of_ok hline]
        have hfirst : ∀ {k : ℕ}, (∀ i < k, env.putLine (n + 1 + i) = .success) →
            ∀ i < k + 1, env.putLine (n + i) = .success := by
          intro k hrest i hi
          cases i with
          | zero => exact hsuccess
          | succ i =>
              rw [← Nat.add_assoc, Nat.add_right_comm]
              exact hrest i (by omega)
        rcases ih (put ++ [cut line]) (n + 1) with ⟨hall, hexec⟩ | ⟨k, hk, hbefore, hfailed, hexec⟩
        · refine .inl ⟨hfirst hall, ?_⟩
          rw [hexec]
          simp [Nat.add_comm, Nat.add_left_comm]
        · refine .inr ⟨k + 1, Nat.succ_lt_succ hk, hfirst hbefore, ?_, ?_⟩
          · rwa [← Nat.add_assoc, Nat.add_right_comm]
          · rw [hexec]
            simp [Nat.add_comm, Nat.add_left_comm]
      · rw [if_neg hsuccess] at hline
        refine .inr ⟨0, Nat.succ_pos _, nofun, hsuccess, ?_⟩
        rw [writeLines, exec_bind_of_error hline]
        simp

/-! ## Streams -/

theorem writeToImpl_eq (handle : ℕ) (field : List UInt8) (self : Mime) :
    writeToImpl env handle field self =
      (do
        writeLines env self.lines self
        let result ← mimeStreamItemize env handle field self.hdl_
        lift (result.throwIfError "Failed to append mime item to note")) := by
  simp [writeToImpl, lines, writeLines]

/-- The lines are put and the stream is itemized without an error, from the call `n` on. -/
def Accepted (env : Env) (n : ℕ) (lines : List (List UInt8)) : Prop :=
  (∀ i < lines.length, env.putLine (n + i) = .success) ∧
    (env.native.status (n + lines.length)).isError = false

/-- The item that the note gets. -/
def part (target : ℕ) (field : List UInt8) (self : Mime) : Part :=
  ⟨target, field.take (field.length % 2 ^ 16), self.lines.map cut⟩

def World.withItem (item : Part) (w : World) : World := { w with items := w.items ++ [item] }

theorem exec_mimeStreamItemize (target : ℕ) (field : List UInt8) (n : ℕ) :
    exec (mimeStreamItemize env target field hdl) ⟨n, w.withStream hdl note put⟩ =
      (.ok (env.native.status n), ⟨n + 1, (if (env.native.status n).isError then w
        else w.withItem ⟨target, field.take (field.length % 2 ^ 16), put⟩).withStream
          hdl note put⟩) := by
  rw [mimeStreamItemize, exec_bind_of_ok (exec_get _)]
  dsimp only
  rw [stream_withStream]
  cases hresult : (env.native.status n).isError with
  | true =>
      have hcall : exec (lift (Native.call env.native)) ⟨n, w.withStream hdl note put⟩ =
          (.ok (env.native.status n), ⟨n + 1, w.withStream hdl note put⟩) := rfl
      rw [exec_bind_of_ok hcall, hresult]
      rfl
  | false =>
      have hcall : exec (lift (Native.call env.native)) ⟨n, w.withStream hdl note put⟩ =
          (.ok (env.native.status n), ⟨n + 1, w.withStream hdl note put⟩) := rfl
      rw [exec_bind_of_ok hcall, hresult]
      rfl

theorem exec_lift_throwIfError {σ : Type} (result : Status) (message : String) (s : Called σ) :
    exec (lift (result.throwIfError message)) s =
      if result.isError then (.error (.stop (.throws (.nativeError message result))), s)
      else (.ok (), s) := by
  rw [lift, exec_adapt, Status.exec_throwIfError]
  split <;> rfl

/-- The note gets an item with all lines, or nothing. -/
theorem exec_writeToImpl (w : World) (note : ℕ) (hself : self.hdl_ = hdl) (target : ℕ)
    (field : List UInt8) (n : ℕ) :
    (Accepted env n self.lines ∧ ∃ calls,
      exec (writeToImpl env target field self) ⟨n, w.withStream hdl note []⟩ =
        (.ok (), ⟨calls, (w.withItem (self.part target field)).withStream hdl note
          (self.lines.map cut)⟩)) ∨
    ¬ Accepted env n self.lines ∧ ∃ throw calls put, throw ≠ .stop .undefined ∧
      exec (writeToImpl env target field self) ⟨n, w.withStream hdl note []⟩ =
        (.error throw, ⟨calls, w.withStream hdl note put⟩) := by
  rw [writeToImpl_eq, hself]
  rcases exec_writeLines w hself self.lines [] n with
    ⟨hall, hexec⟩ | ⟨k, hk, -, hfailed, hexec⟩
  · rw [exec_bind_of_ok hexec, List.nil_append,
      exec_bind_of_ok (exec_mimeStreamItemize target field _), exec_lift_throwIfError]
    cases hresult : (env.native.status (n + self.lines.length)).isError with
    | true =>
        refine .inr ⟨fun h => ?_, .stop (.throws _), _, _, nofun, rfl⟩
        rw [h.2] at hresult
        cases hresult
    | false => exact .inl ⟨⟨hall, hresult⟩, _, rfl⟩
  · exact .inr ⟨fun h => hfailed (h.1 k hk), .mime _, _, _, nofun, exec_bind_of_error hexec⟩

theorem closeStream_withStream (hfresh : ∀ stream ∈ w.streams, stream.handle ≠ hdl) :
    ((w.withStream hdl note put).closeStream hdl).streams = w.streams := by
  have hrest : Table.erase Stream.handle hdl w.streams = w.streams :=
    Table.erase_of_lookup_none _ ((Table.lookup_eq_none_iff _).mpr hfresh)
  rw [World.closeStream, World.withStream, Table.erase_cons, if_pos rfl, hrest]

/-- The object that the settings make. -/
def made (hdl : ℕ) (settings : List Setting) : Mime := settings.foldl apply { hdl_ := hdl }

/-- The stream is not opened, or it is closed again, with or without an item of the note. -/
theorem exec_openAndWrite (w : World) (env : Env) (note target : ℕ) (field : List UInt8)
    (settings : List Setting) (n : ℕ) :
    (∃ error, (env.native.status n).isError = true ∧
      exec (openAndWrite env note target field settings) ⟨n, w⟩ =
        (.error (.stop (.throws error)), ⟨n + 1, w⟩)) ∨
    (env.native.status n).isError = false ∧ ∃ calls put,
      Accepted env (n + 1) (made w.handles.next settings).lines ∧
        exec (openAndWrite env note target field settings) ⟨n, w⟩ = (.ok (), ⟨calls,
          (({ w with handles := w.handles.opens }.withItem
            ((made w.handles.next settings).part target field)).withStream w.handles.next note
              put).closeStream w.handles.next⟩) ∨
      ¬ Accepted env (n + 1) (made w.handles.next settings).lines ∧
        ∃ throw, throw ≠ .stop .undefined ∧
          exec (openAndWrite env note target field settings) ⟨n, w⟩ = (.error throw, ⟨calls,
          ({ w with handles := w.handles.opens }.withStream w.handles.next note
            put).closeStream w.handles.next⟩) := by
  have hself := hdl_foldl_apply settings { hdl_ := w.handles.next }
  have hcall : exec (lift (Native.call env.native)) ⟨n, w⟩ =
      (.ok (env.native.status n), (⟨n + 1, w⟩ : Called World)) := rfl
  cases hopened : (env.native.status n).isError with
  | true =>
      have hopen : exec (openImpl env note) ⟨n, w⟩ = (.error (.stop (.throws (.nativeError
          "Failed to open MIME stream" (env.native.status n)))), ⟨n + 1, w⟩) := by
        rw [openImpl, exec_bind_of_ok hcall]
        refine exec_bind_of_error ?_
        rw [exec_lift_throwIfError, if_pos hopened]
      exact .inl ⟨_, rfl, exec_bind_of_error hopen⟩
  | false =>
      have hopen : exec (openImpl env note) ⟨n, w⟩ = (.ok w.handles.next,
          ⟨n + 1, { w with handles := w.handles.opens }.withStream w.handles.next note []⟩) := by
        have hchecked : exec (lift ((env.native.status n).throwIfError
            "Failed to open MIME stream")) (⟨n + 1, w⟩ : Called World) = (.ok (), ⟨n + 1, w⟩) := by
          rw [exec_lift_throwIfError, hopened]
          rfl
        rw [openImpl, exec_bind_of_ok hcall, exec_bind_of_ok hchecked]
        rfl
      refine .inr ⟨rfl, ?_⟩
      rw [openAndWrite, exec_bind_of_ok hopen, scope, exec_leaving]
      rcases exec_writeToImpl { w with handles := w.handles.opens } note hself target field (n + 1)
        with ⟨hok, calls, hexec⟩ | ⟨hnot, throw, calls, put, hdefined, hexec⟩
      · rw [hexec]
        exact ⟨calls, _, .inl ⟨hok, rfl⟩⟩
      · rw [hexec]
        exact ⟨calls, put, .inr ⟨hnot, throw, hdefined, rfl⟩⟩

/-- A note gets one item, with all lines up to their first null byte, when all calls succeed, and
none otherwise. The stream is closed in both cases. -/
theorem openAndWrite_result (env : Env) (w : World) (n note target : ℕ) (field : List UInt8)
    (hfresh : ∀ stream ∈ w.streams, stream.handle ≠ w.handles.next)
    (settings : List Setting) :
    ∃ result t, exec (openAndWrite env note target field settings) ⟨n, w⟩ = (result, t) ∧
      (result = .ok () ↔ (env.native.status n).isError = false ∧
        Accepted env (n + 1) (made w.handles.next settings).lines) ∧
      t.value.items = w.items ++ (if result.isOk then
        [(made w.handles.next settings).part target field] else []) ∧
      t.value.streams = w.streams ∧
      t.value.handles = (if (env.native.status n).isError then w.handles
        else w.handles.opens.closes w.handles.next) := by
  rcases exec_openAndWrite w env note target field settings n with
    ⟨error, hopened, hexec⟩ | ⟨hopened, calls, put, ⟨hok, hexec⟩ | ⟨hnot, throw, -, hexec⟩⟩
  · refine ⟨_, _, hexec, ⟨nofun, fun h => ?_⟩, ?_, rfl, ?_⟩
    · rw [hopened] at h
      cases h.1
    · simp [Except.isOk, Except.toBool]
    · rw [if_pos hopened]
  · refine ⟨_, _, hexec, ⟨fun _ => ⟨hopened, hok⟩, fun _ => rfl⟩, rfl,
      closeStream_withStream hfresh, ?_⟩
    rw [hopened]
    rfl
  · refine ⟨_, _, hexec, ⟨nofun, fun h => absurd h.2 hnot⟩, ?_, closeStream_withStream hfresh, ?_⟩
    · simp [Except.isOk, Except.toBool, World.closeStream, World.withStream]
    · rw [hopened]
      rfl

def quietEnv : Env := ⟨⟨fun _ => .noError, fun _ _ => 0⟩, fun _ => .success⟩

def noStreams : World := ⟨[], [], .start⟩

/-- The content has a null byte. -/
def sampleSettings : List Setting := [.setCharset [0x61], .appendContent [0x62, 0, 0x63]]

theorem openAndWrite_result_sample : ∃ t,
    exec (openAndWrite quietEnv 7 7 [0x42] sampleSettings) ⟨0, noStreams⟩ = (.ok (), t) ∧
      t.value.items = [⟨7, [0x42], [contentTypeLine ⟨1, [], [0x61], Lmbcs.asciiBytes
        "text/html; charset=UTF-8".toList⟩, encodingLine, [], [0x62]]⟩] := by
  obtain ⟨result, t, hexec, hok, hitems, -, -⟩ :=
    openAndWrite_result quietEnv noStreams 0 7 7 [0x42] nofun sampleSettings
  have hresult : result = .ok () := hok.mpr ⟨rfl, fun _ _ => rfl, rfl⟩
  refine ⟨t, by rw [hexec, hresult], ?_⟩
  rw [hitems, hresult]
  decide +kernel

end Mime

end Dmn
