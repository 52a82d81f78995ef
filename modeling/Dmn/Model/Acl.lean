import Dmn.Library.Table
import Dmn.Model.Lmbcs
import Dmn.Model.Native

/-! # `acl`

The native access control list is the state: the names of its privileges and its entries.
Reading the name of a privilege fails only where none is set. -/

namespace Dmn

namespace Acl

/-- `ACL_BITPRIVCOUNT`. -/
def bitPrivCount : Nat := 5

/-- `ACL_PRIVCOUNT`. -/
def privCount : Nat := 80

/-- `ACL_PRIVILEGES`. -/
abbrev Privileges := BitVec privCount

/-- `ACLIsPrivSet`. -/
def isPrivSet (privileges : Privileges) (num : Nat) : Bool := privileges.getLsbD num

/-- `ACLSetPriv`. -/
def setPriv (privileges : Privileges) (num : Nat) : Privileges :=
  privileges ||| BitVec.twoPow privCount num

/-- A native entry; its name is in LMBCS. -/
structure NativeEntry where
  name : List UInt8
  level : UInt16
  privileges : Privileges
  flags : UInt16
  deriving DecidableEq

structure NativeAcl where
  privNames : Nat → Option (List UInt8)
  entries : List NativeEntry

/-- What the code works on. `setPrivName` is what `ACLSetPrivName` stores for a name, and
`duplicate` is the code it reports for an entry that exists. -/
structure Env where
  native : Native
  codePage : CharCode Char UInt8
  setPrivName : List UInt8 → Except Status (List UInt8)
  duplicate : UInt16

abbrev M (α : Type) := Native.M NativeAcl α

/-- The bytes that a C string holds. -/
def cString (bytes : List UInt8) : List UInt8 := bytes.takeWhile (· ≠ 0)

/-! ## Roles -/

def openBracket : UInt8 := UInt8.ofNat '['.toNat

def closeBracket : UInt8 := UInt8.ofNat ']'.toNat

/-- `role`; a role has a name. -/
structure Role where
  name : List UInt8
  name_ne_nil : name ≠ []
  deriving DecidableEq

namespace Role

def normalize (name : List UInt8) : List UInt8 :=
  if 2 ≤ name.length ∧ name.head? = some openBracket ∧ name.getLast? = some closeBracket then
    (name.drop 1).take (name.length - 2)
  else name

/-- The constructor. -/
def make (name : List UInt8) : Except Stop Role :=
  if h : normalize name = [] then
    .error (.throws (.invalidArgument "ACL role name cannot be empty"))
  else .ok ⟨normalize name, h⟩

end Role

namespace RoleMap

def capacity : Nat := privCount - bitPrivCount

variable (env : Env) (acl : NativeAcl)

/-- `at`. -/
def get (key : Nat) : Except Stop Role :=
  if capacity ≤ key then .error (.throws (.outOfRange "Index is outside the role list"))
  else
    match acl.privNames (key + bitPrivCount) with
    | none => .error (.throws (.outOfRange "Index is not found in the role list"))
    | some value => Role.make (Lmbcs.toString env.codePage (cString value))

/-- `try_at`; only `out_of_range` is caught. -/
def tryAt (key : Nat) : Except Stop (Option Role) :=
  match get env acl key with
  | .ok role => .ok (some role)
  | .error (.throws (.outOfRange _)) => .ok none
  | .error stop => .error stop

/-- What an iterator yields from the slot `index` on, with `count` slots to go. -/
def iterate : Nat → Nat → Except Stop (List (Nat × Role))
  | _, 0 => .ok []
  | index, count + 1 => do
      let role ← tryAt env acl index
      let rest ← iterate (index + 1) count
      pure (match role with
        | some role => (index, role) :: rest
        | none => rest)

/-- The pairs of a range `for` over the map. -/
def pairs : Except Stop (List (Nat × Role)) := iterate env acl 0 capacity

/-- The loop of `size` from the slot `index` on, with `count` slots to go. -/
def sizeFrom : Nat → Nat → Nat → Except Stop Nat
  | _, 0, result => .ok result
  | index, count + 1, result => do
      let role ← tryAt env acl index
      sizeFrom (index + 1) count (if role.isSome then result + 1 else result)

def size : Except Stop Nat := sizeFrom env acl 0 capacity 0

def set (key : Nat) (value : Role) : M Unit :=
  if capacity ≤ key then throw (.throws (.outOfRange "Index is outside the role list"))
  else do
    let status ← Native.call env.native
    status.throwIfError "Failed to set role in ACL"
    match env.setPrivName (cString (Lmbcs.fromString env.codePage value.name)) with
    | .error status => throw (.throws (.nativeError "Failed to set role in ACL" status))
    | .ok stored =>
        Native.update fun acl => { acl with privNames := fun num =>
          if num = key + bitPrivCount then some stored else acl.privNames num }

/-- The loop of `insert` from the slot `key` on, with `count` slots to go. -/
def insertFrom (value : Role) : Nat → Nat → M Unit
  | _, 0 => throw (.throws (.outOfRange "Role list has reached its maximum capacity"))
  | key, count + 1 => do
      let acl ← Native.value
      let role ← Exec.ofExcept (tryAt env acl key)
      match role with
      | none => set env key value
      | some _ => insertFrom value (key + 1) count

def insert (value : Role) : M Unit := insertFrom env value 0 capacity

end RoleMap

/-! ## Access -/

def flagAuthorNoCreate : UInt16 := 0x0001
def flagNoDelete : UInt16 := 0x0004
def flagCreatePersonalAgent : UInt16 := 0x0008
def flagCreatePersonalFolder : UInt16 := 0x0010
def flagCreateFolder : UInt16 := 0x0080
def flagCreateLotusscript : UInt16 := 0x0100
def flagPublicReader : UInt16 := 0x0200
def flagPublicWriter : UInt16 := 0x0400
def flagMonitorsDisallowed : UInt16 := 0x0800
def flagNoReplicate : UInt16 := 0x1000

def entryFlagMask : UInt16 :=
  flagAuthorNoCreate ||| flagNoDelete ||| flagCreatePersonalAgent ||| flagCreatePersonalFolder |||
    flagCreateFolder ||| flagCreateLotusscript ||| flagPublicReader ||| flagPublicWriter |||
    flagMonitorsDisallowed ||| flagNoReplicate

def principalTypeServer : UInt16 := 0x0002
def principalTypePerson : UInt16 := 0x0020
def principalTypeGroup : UInt16 := 0x0040

def principalTypeMask : UInt16 :=
  principalTypeServer ||| principalTypePerson ||| principalTypeGroup

/-- `ACL_FLAG_ADMIN_SERVER`. -/
def aclFlagAdminServer : UInt16 := 0x8000

/-- `principal_type`; an enumerator, or a word read from an entry. -/
structure PrincipalType where
  bits : UInt16
  masked : bits &&& principalTypeMask = bits
  deriving DecidableEq

namespace PrincipalType

def unspecified : PrincipalType := ⟨0, by decide⟩

def server : PrincipalType := ⟨principalTypeServer, by decide⟩

def person : PrincipalType := ⟨principalTypePerson, by decide⟩

def group : PrincipalType := ⟨principalTypeGroup, by decide⟩

/-- `static_cast<principal_type>(flags & principal_type_mask)`. -/
def ofFlags (flags : UInt16) : PrincipalType :=
  ⟨flags &&& principalTypeMask, by rw [UInt16.and_assoc, UInt16.and_self]⟩

end PrincipalType

/-- `access`; a level is a byte. -/
structure Access where
  level : UInt8
  roles : List Role
  flags : UInt16
  deriving DecidableEq

/-- `flag`. -/
inductive Flag where
  | authorNoCreate
  | noDelete
  | createPersonalAgent
  | createPersonalFolder
  | createFolder
  | createLotusscript
  | publicReader
  | publicWriter
  | monitorsDisallowed
  | noReplicate
  deriving DecidableEq, Repr

/-- `std::to_underlying`. -/
def Flag.bits : Flag → UInt16
  | authorNoCreate => flagAuthorNoCreate
  | noDelete => flagNoDelete
  | createPersonalAgent => flagCreatePersonalAgent
  | createPersonalFolder => flagCreatePersonalFolder
  | createFolder => flagCreateFolder
  | createLotusscript => flagCreateLotusscript
  | publicReader => flagPublicReader
  | publicWriter => flagPublicWriter
  | monitorsDisallowed => flagMonitorsDisallowed
  | noReplicate => flagNoReplicate

namespace Access

/-- What the constructor adds to a level. -/
inductive Arg where
  | flag (value : Flag)
  | role (value : Role)

def addFlag (value : Flag) (access : Access) : Access :=
  { access with flags := access.flags ||| value.bits }

def hasRole (wanted : Role) (access : Access) : Bool := wanted ∈ access.roles

def addRole (value : Role) (access : Access) : Access :=
  if access.hasRole value then access else { access with roles := access.roles ++ [value] }

def add (access : Access) : Arg → Access
  | .flag value => access.addFlag value
  | .role value => access.addRole value

/-- The constructor. -/
def make (value : UInt8) (args : List Arg) : Access := args.foldl add ⟨value, [], 0⟩

end Access

structure Entry where
  name : List UInt8
  access : Access
  type : PrincipalType
  administrationServer : Bool
  deriving DecidableEq

/-! ## `manager` -/

variable (env : Env)

def nativeFlags (value : Entry) : UInt16 :=
  let result := value.access.flags ||| value.type.bits
  if value.administrationServer then result ||| aclFlagAdminServer else result

def rolesFromNative (acl : NativeAcl) (privileges : Privileges) : Except Stop (List Role) := do
  let roles ← RoleMap.pairs env acl
  pure ((roles.filter fun (i, role) =>
    isPrivSet privileges (i + bitPrivCount) && role.name ≠ []).map Prod.snd)

/-- The loop body of `roles_to_native`: the privileges and the number of matching slots. -/
def passRole (roles : List Role) (state : Privileges × Nat) (slot : Nat × Role) :
    Privileges × Nat :=
  if slot.2 ∈ roles then (setPriv state.1 (slot.1 + bitPrivCount), state.2 + 1) else state

def rolesToNative (acl : NativeAcl) (roles : List Role) : Except Stop Privileges := do
  let defined ← RoleMap.pairs env acl
  let (result, passed) := defined.foldl (passRole roles) (0, 0)
  if passed ≠ roles.length then
    throw (.throws (.invalidArgument "One or more ACL roles don't exist"))
  else pure result

/-- `read_entry`. -/
def readEntry (acl : NativeAcl) (stored : NativeEntry) : Except Stop Entry := do
  let roles ← rolesFromNative env acl stored.privileges
  pure {
    name := Lmbcs.toString env.codePage (cString stored.name)
    access := ⟨stored.level.toUInt8, roles, stored.flags &&& entryFlagMask⟩
    type := PrincipalType.ofFlags stored.flags
    administrationServer := stored.flags &&& aclFlagAdminServer ≠ 0 }

def entries : M (List Entry) := do
  let status ← Native.call env.native
  status.throwIfError "Failed to read ACL entries"
  let acl ← Native.value
  Exec.ofExcept (acl.entries.mapM (readEntry env acl))

def getEntry (name : List UInt8) : M (Option Entry) := do
  let all ← entries env
  pure (all.find? fun entry => entry.name = name)

/-- `ACLAddEntry`. -/
def aclAddEntry (entry : NativeEntry) : M Status := do
  let status ← Native.call env.native
  let acl ← Native.value
  if status.isError then pure status
  else if (Table.lookup NativeEntry.name entry.name acl.entries).isSome then
    pure (.other env.duplicate)
  else do
    Native.update fun acl => { acl with entries := acl.entries ++ [entry] }
    pure .noError

/-- What stands for an entry in the calls that store it. -/
def toNative (value : Entry) (privileges : Privileges) : NativeEntry where
  name := cString (Lmbcs.fromString env.codePage value.name)
  level := value.access.level.toUInt16
  privileges := privileges
  flags := nativeFlags value

/-- `add_entry`. -/
def addEntry (name : List UInt8) (value : Access) (type : PrincipalType) : M Entry := do
  let acl ← Native.value
  let entry : Entry := ⟨name, value, type, false⟩
  let privileges ← Exec.ofExcept (rolesToNative env acl entry.access.roles)
  let result ← aclAddEntry env (toNative env entry privileges)
  result.throwIfError "Failed to add ACL entry"
  pure entry

/-- The name that `ACLUpdateEntry` takes a null pointer for. -/
def defaultEntryName : List UInt8 := Lmbcs.asciiBytes "-Default-".toList

/-- `ACL_UPDATE_NAME`. -/
def updateName : UInt16 := 0x01

/-- `ACL_UPDATE_LEVEL`. -/
def updateLevel : UInt16 := 0x02

/-- `ACL_UPDATE_PRIVILEGES`. -/
def updatePrivileges : UInt16 := 0x04

/-- `ACL_UPDATE_FLAGS`. -/
def updateFlags : UInt16 := 0x08

/-- An entry after the parts that the flags select are overwritten with those of `new`. -/
def overwrite (selected : UInt16) (new entry : NativeEntry) : NativeEntry where
  name := if selected &&& updateName ≠ 0 then new.name else entry.name
  level := if selected &&& updateLevel ≠ 0 then new.level else entry.level
  privileges := if selected &&& updatePrivileges ≠ 0 then new.privileges else entry.privileges
  flags := if selected &&& updateFlags ≠ 0 then new.flags else entry.flags

/-- `ACLUpdateEntry`; a name cannot be changed to that of another entry. -/
def aclUpdateEntry (name : List UInt8) (selected : UInt16) (new : NativeEntry) : M Status := do
  let status ← Native.call env.native
  let acl ← Native.value
  if status.isError then pure status
  else if (Table.lookup NativeEntry.name name acl.entries).isNone then pure .aclNoEntry
  else if selected &&& updateName ≠ 0 ∧ new.name ≠ name ∧
      (Table.lookup NativeEntry.name new.name acl.entries).isSome then
    pure (.other env.duplicate)
  else do
    let changed := Table.modify NativeEntry.name name (overwrite selected new) acl.entries
    Native.update fun acl => { acl with entries := changed }
    pure .noError

/-- The native name of the entry that is updated. -/
def oldName (name : List UInt8) : List UInt8 :=
  if name = [] then defaultEntryName else cString (Lmbcs.fromString env.codePage name)

/-- `update_entry`. -/
def updateEntry (name : List UInt8) (value : Entry) : M Unit := do
  let acl ← Native.value
  let privileges ← Exec.ofExcept (rolesToNative env acl value.access.roles)
  let selected := updateLevel ||| updatePrivileges ||| updateFlags |||
    (if value.name = name then 0 else updateName)
  let result ← aclUpdateEntry env (oldName env name) selected (toNative env value privileges)
  result.throwIfError "Failed to update ACL entry"

/-! ## Setters of an `entry` -/

namespace Entry

/-- All setters: the changed copy is sent first, and kept if that succeeds. -/
def setWith (change : Entry → Entry) (entry : Entry) : M Entry := do
  let updated := change entry
  updateEntry env entry.name updated
  pure updated

def setName (name : List UInt8) : Entry → M Entry :=
  setWith env fun entry => { entry with name := name }

def setAccess (value : Access) : Entry → M Entry :=
  setWith env fun entry => { entry with access := value }

def setLevel (value : UInt8) (entry : Entry) : M Entry :=
  setAccess env { entry.access with level := value } entry

def setType (value : PrincipalType) : Entry → M Entry :=
  setWith env fun entry => { entry with type := value }

def setAdministrationServer (value : Bool) : Entry → M Entry :=
  setWith env fun entry => { entry with administrationServer := value }

end Entry

end Acl

end Dmn
