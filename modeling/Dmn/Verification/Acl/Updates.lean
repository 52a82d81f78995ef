import Dmn.Model.Acl
import Dmn.Verification.Native

/-! # Storing entries

Both ways to store an entry look up its roles first. What happens to the list of entries
then is decided by the status of one native call. -/

namespace Dmn.Acl

open Exec Native

variable (env : Env)

/-! ## The native calls -/

/-- What `ACLAddEntry` reports. -/
def addStatus (s : Called NativeAcl) (name : List UInt8) : Status :=
  if (env.native.status s.calls).isError then env.native.status s.calls
  else if (Table.lookup NativeEntry.name name s.value.entries).isSome then .other env.duplicate
  else .noError

/-- What `ACLUpdateEntry` reports. -/
def updateStatus (s : Called NativeAcl) (name : List UInt8) (selected : UInt16)
    (newName : List UInt8) : Status :=
  if (env.native.status s.calls).isError then env.native.status s.calls
  else if (Table.lookup NativeEntry.name name s.value.entries).isNone then .aclNoEntry
  else if selected &&& updateName ≠ 0 ∧ newName ≠ name ∧
      (Table.lookup NativeEntry.name newName s.value.entries).isSome then
    .other env.duplicate
  else .noError

theorem ne_noError_of_isError {status : Status} (h : status.isError = true) :
    status ≠ .noError := by
  simpa [Status.isError] using h

theorem exec_aclAddEntry (entry : NativeEntry) (s : Called NativeAcl) :
    exec (aclAddEntry env entry) s = (.ok (addStatus env s entry.name), ⟨s.calls + 1,
      if addStatus env s entry.name = .noError then
        { s.value with entries := s.value.entries ++ [entry] }
      else s.value⟩) := by
  rw [aclAddEntry, exec_bind_of_ok (exec_call s), exec_bind_of_ok (Native.exec_value _)]
  unfold addStatus
  by_cases herror : (env.native.status s.calls).isError
  · rw [if_pos herror, if_pos herror, if_neg (ne_noError_of_isError herror)]
    rfl
  · rw [if_neg herror, if_neg herror]
    by_cases hpresent : (Table.lookup NativeEntry.name entry.name s.value.entries).isSome
    · rw [if_pos hpresent, if_pos hpresent]
      rfl
    · rw [if_neg hpresent, if_neg hpresent]
      rfl

theorem exec_aclUpdateEntry (name : List UInt8) (selected : UInt16) (new : NativeEntry)
    (s : Called NativeAcl) :
    exec (aclUpdateEntry env name selected new) s =
      (.ok (updateStatus env s name selected new.name), ⟨s.calls + 1,
        if updateStatus env s name selected new.name = .noError then
          { s.value with entries :=
              Table.modify NativeEntry.name name (overwrite selected new) s.value.entries }
        else s.value⟩) := by
  rw [aclUpdateEntry, exec_bind_of_ok (exec_call s), exec_bind_of_ok (Native.exec_value _)]
  unfold updateStatus
  by_cases herror : (env.native.status s.calls).isError
  · rw [if_pos herror, if_pos herror, if_neg (ne_noError_of_isError herror)]
    rfl
  · rw [if_neg herror, if_neg herror]
    by_cases hmissing : (Table.lookup NativeEntry.name name s.value.entries).isNone
    · rw [if_pos hmissing, if_pos hmissing]
      rfl
    · rw [if_neg hmissing, if_neg hmissing]
      split
      · rfl
      · rfl

/-! ## Adding and updating -/

/-- The parts that `update_entry` selects. -/
def selectedParts (name : List UInt8) (value : Entry) : UInt16 :=
  updateLevel ||| updatePrivileges ||| updateFlags |||
    (if value.name = name then 0 else updateName)

/-- The name of the entry after the update. -/
def newName (name : List UInt8) (value : Entry) : List UInt8 :=
  if value.name = name then oldName env name
  else cString (Lmbcs.fromString env.codePage value.name)

/-- All parts but the name are overwritten; the name is if it differs. -/
theorem overwrite_selectedParts (name : List UInt8) (value : Entry) (new entry : NativeEntry) :
    overwrite (selectedParts name value) new entry =
      { new with name := if value.name = name then entry.name else new.name } := by
  unfold overwrite selectedParts
  by_cases hname : value.name = name
  · simp only [if_pos hname]
    rfl
  · simp only [if_neg hname]
    rfl

/-- An overwritten entry has its new name. -/
theorem name_overwrite {name : List UInt8} {value : Entry} {privileges : Privileges}
    {entry : NativeEntry} (hname : entry.name = oldName env name) :
    (overwrite (selectedParts name value) (toNative env value privileges) entry).name =
      newName env name value := by
  rw [overwrite_selectedParts, newName]
  split
  · exact hname
  · rfl

theorem addStatus_eq_noError {s : Called NativeAcl} {name : List UInt8}
    (h : addStatus env s name = .noError) :
    Table.lookup NativeEntry.name name s.value.entries = none := by
  unfold addStatus at h
  by_cases herror : (env.native.status s.calls).isError
  · rw [if_pos herror] at h
    exact absurd h (ne_noError_of_isError herror)
  · rw [if_neg herror] at h
    cases hlookup : Table.lookup NativeEntry.name name s.value.entries with
    | none => rfl
    | some entry => simp [hlookup] at h

theorem selectedParts_updateName {name : List UInt8} {value : Entry} :
    selectedParts name value &&& updateName ≠ 0 ↔ value.name ≠ name := by
  unfold selectedParts
  by_cases hname : value.name = name
  · rw [if_pos hname]
    exact iff_of_false (by decide) (not_not_intro hname)
  · rw [if_neg hname]
    exact iff_of_true (by decide) hname

/-- A status without an error: the entry exists, and its new name is free. -/
theorem updateStatus_eq_noError_iff {s : Called NativeAcl} {name : List UInt8} {value : Entry} :
    updateStatus env s (oldName env name) (selectedParts name value)
        (cString (Lmbcs.fromString env.codePage value.name)) = .noError ↔
      env.native.status s.calls = .noError ∧
        (∃ entry, Table.lookup NativeEntry.name (oldName env name) s.value.entries = some entry) ∧
        (newName env name value = oldName env name ∨
          Table.lookup NativeEntry.name (newName env name value) s.value.entries = none) := by
  unfold updateStatus
  by_cases herror : (env.native.status s.calls).isError
  · have hne := ne_noError_of_isError herror
    simp [herror, hne]
  · have hno : env.native.status s.calls = .noError := by
      simpa [Status.isError] using herror
    rw [if_neg herror]
    cases hlookup : Table.lookup NativeEntry.name (oldName env name) s.value.entries with
    | none => simp
    | some entry =>
        by_cases hname : value.name = name
        · have hselected : ¬ selectedParts name value &&& updateName ≠ 0 := by
            rw [selectedParts_updateName]
            exact not_not_intro hname
          simp [hno, hselected, newName, hname]
        · have hselected := selectedParts_updateName.mpr hname
          simp [hno, hselected, newName, hname, Decidable.or_iff_not_imp_left]

/-- `add_entry` stops at the roles, or makes the native call. -/
theorem exec_addEntry (name : List UInt8) (value : Access) (type : PrincipalType)
    (s : Called NativeAcl) :
    exec (addEntry env name value type) s =
      match rolesToNative env s.value value.roles with
      | .error stop => (.error stop, s)
      | .ok privileges =>
          let entry : Entry := ⟨name, value, type, false⟩
          let new := toNative env entry privileges
          let status := addStatus env s new.name
          if status = .noError then
            (.ok entry,
              ⟨s.calls + 1, { s.value with entries := s.value.entries ++ [new] }⟩)
          else
            (.error (.throws (.nativeError "Failed to add ACL entry" status)),
              ⟨s.calls + 1, s.value⟩) := by
  rw [addEntry, exec_bind_of_ok (Native.exec_value _)]
  simp only
  cases hroles : rolesToNative env s.value value.roles with
  | error stop => rw [exec_bind_of_error (exec_ofExcept _ s)]
  | ok privileges =>
      rw [exec_bind_of_ok (exec_ofExcept _ s), exec_bind_of_ok (exec_aclAddEntry env _ s)]
      simp only
      by_cases hstatus : addStatus env s
          (toNative env ⟨name, value, type, false⟩ privileges).name = .noError
      · rw [hstatus, if_pos rfl, if_pos rfl]
        rfl
      · rw [if_neg hstatus, if_neg hstatus,
          exec_bind_of_error (Status.exec_throwIfError_of_ne hstatus _ _)]

/-- `update_entry` stops at the roles, or makes the native call. -/
theorem exec_updateEntry (name : List UInt8) (value : Entry) (s : Called NativeAcl) :
    exec (updateEntry env name value) s =
      match rolesToNative env s.value value.access.roles with
      | .error stop => (.error stop, s)
      | .ok privileges =>
          let new := toNative env value privileges
          let selected := selectedParts name value
          let status := updateStatus env s (oldName env name) selected new.name
          if status = .noError then
            let changed := Table.modify NativeEntry.name (oldName env name)
              (overwrite selected new) s.value.entries
            (.ok (), ⟨s.calls + 1, { s.value with entries := changed }⟩)
          else
            (.error (.throws (.nativeError "Failed to update ACL entry" status)),
              ⟨s.calls + 1, s.value⟩) := by
  rw [updateEntry, exec_bind_of_ok (Native.exec_value _)]
  simp only
  cases hroles : rolesToNative env s.value value.access.roles with
  | error stop => rw [exec_bind_of_error (exec_ofExcept _ s)]
  | ok privileges =>
      rw [exec_bind_of_ok (exec_ofExcept _ s), exec_bind_of_ok (exec_aclUpdateEntry env _ _ _ s)]
      rw [← selectedParts]
      simp only
      by_cases hstatus : updateStatus env s (oldName env name) (selectedParts name value)
          (toNative env value privileges).name = .noError
      · rw [hstatus, if_pos rfl, if_pos rfl]
        rfl
      · rw [if_neg hstatus, if_neg hstatus, Status.exec_throwIfError_of_ne hstatus]

/-- A setter changes the object only if the entry is updated. -/
theorem exec_setWith (change : Entry → Entry) (entry : Entry) (s : Called NativeAcl) :
    exec (Entry.setWith env change entry) s =
      match exec (updateEntry env entry.name (change entry)) s with
      | (.ok _, t) => (.ok (change entry), t)
      | (.error stop, t) => (.error stop, t) := by
  rw [Entry.setWith, exec_bind]
  rcases exec (updateEntry env entry.name (change entry)) s with ⟨_ | _, t⟩ <;> rfl

/-- A setter overwrites the addressed entry, or throws and changes nothing. -/
theorem exec_setWith_cases (change : Entry → Entry) (entry : Entry) (s : Called NativeAcl) :
    (∃ privileges, rolesToNative env s.value (change entry).access.roles = .ok privileges ∧
      updateStatus env s (oldName env entry.name) (selectedParts entry.name (change entry))
        (cString (Lmbcs.fromString env.codePage (change entry).name)) = .noError ∧
      exec (Entry.setWith env change entry) s =
        (.ok (change entry), ⟨s.calls + 1, { s.value with
          entries := Table.modify NativeEntry.name (oldName env entry.name)
            (overwrite (selectedParts entry.name (change entry))
              (toNative env (change entry) privileges)) s.value.entries }⟩)) ∨
    ∃ stop n, exec (Entry.setWith env change entry) s = (.error stop, ⟨n, s.value⟩) := by
  rw [exec_setWith, exec_updateEntry]
  cases hroles : rolesToNative env s.value (change entry).access.roles with
  | error stop => exact .inr ⟨stop, s.calls, rfl⟩
  | ok privileges =>
      simp only
      by_cases hstatus : updateStatus env s (oldName env entry.name)
          (selectedParts entry.name (change entry))
          (toNative env (change entry) privileges).name = .noError
      · rw [if_pos hstatus]
        exact .inl ⟨privileges, rfl, hstatus, rfl⟩
      · rw [if_neg hstatus]
        exact .inr ⟨_, s.calls + 1, rfl⟩

/-- A setter that returns has overwritten the addressed entry. -/
theorem exec_setWith_eq_ok {change : Entry → Entry} {entry entry' : Entry}
    {s t : Called NativeAcl} (h : exec (Entry.setWith env change entry) s = (.ok entry', t)) :
    entry' = change entry ∧ ∃ privileges,
      rolesToNative env s.value entry'.access.roles = .ok privileges ∧
      updateStatus env s (oldName env entry.name) (selectedParts entry.name entry')
        (cString (Lmbcs.fromString env.codePage entry'.name)) = .noError ∧
      t.value.privNames = s.value.privNames ∧
      t.value.entries = Table.modify NativeEntry.name (oldName env entry.name)
        (overwrite (selectedParts entry.name entry') (toNative env entry' privileges))
        s.value.entries := by
  rcases exec_setWith_cases env change entry s with
    ⟨privileges, hroles, hstatus, hexec⟩ | ⟨stop, n, hexec⟩ <;> rw [hexec] at h
  · cases h
    exact ⟨rfl, privileges, hroles, hstatus, rfl, rfl⟩
  · cases h

/-- A setter that throws has changed nothing. -/
theorem exec_setWith_eq_error {change : Entry → Entry} {entry : Entry} {s t : Called NativeAcl}
    {stop : Stop} (h : exec (Entry.setWith env change entry) s = (.error stop, t)) :
    t.value = s.value := by
  rcases exec_setWith_cases env change entry s with ⟨_, _, _, hexec⟩ | ⟨stop, n, hexec⟩ <;>
    rw [hexec] at h
  · cases h
  · cases h
    rfl

/-! ## A runtime -/

/-- A runtime in which no call fails and names are stored as they are. -/
def sampleEnv : Env where
  native := ⟨fun _ => .noError, fun _ _ => 0⟩
  codePage := utf8
  setPrivName := .ok
  duplicate := 0

end Dmn.Acl
