import Dmn.Model.Acl
import Dmn.Model.LotusScript

/-! # Names that native calls write into a buffer

The buffer is filled with zeros before the call, which writes a name in LMBCS and a terminator. -/

namespace Dmn

namespace NameBuffer

/-- `MAXUSERNAME`. -/
def maxUserName : ℕ := 256

/-- `MAXPATH`. -/
def maxPath : ℕ := 256

/-- `ACL_PRIVSTRINGMAX`. -/
def privStringMax : ℕ := 16

/-- The C strings of the native side: the name of the user, the path of the database, the names of
the roles by their slots, and the administration server of the access control list. -/
structure Names where
  userName : List UInt8
  path : List UInt8
  roleName : ℕ → List UInt8
  adminServer : List UInt8

/-- `canonicalize` is the text that `DNCanonicalize` writes for a name. -/
structure Env where
  native : Native
  codePage : CharCode Char UInt8
  canonicalize : List UInt8 → List UInt8

abbrev M (α : Type) := Native.M Names α

/-- A buffer of `size` zero bytes with the C string that a native call has written there. -/
def written (size : ℕ) (name : List UInt8) : M (List UInt8) :=
  let name := Acl.cString name
  if size ≤ name.length then throw .undefined
  else pure (name ++ List.replicate (size - name.length) 0)

/-- `buffer.resize(strlen(buffer.c_str()))`. -/
def resized (buffer : List UInt8) : List UInt8 := buffer.take (strlen buffer)

variable (env : Env)

/-- `runtime::get_username`. -/
def getUsername : M (List UInt8) := do
  let result ← Native.call env.native
  result.throwIfError "Failed to determine username"
  let names ← Native.value
  let name ← written (maxUserName + 1) names.userName
  pure (Lmbcs.toString env.codePage (resized name))

/-- `database::get_path` up to the path in LMBCS. -/
def rawPath : M (List UInt8) := do
  let result ← Native.call env.native
  result.throwIfError "Failed to get database path"
  let names ← Native.value
  let rawPath ← written maxPath names.path
  pure (resized rawPath)

def backslash : UInt8 := UInt8.ofNat '\\'.toNat

def slash : UInt8 := UInt8.ofNat '/'.toNat

/-- `database::get_path`. The transformation goes over the bytes of the LMBCS string. -/
def getPath : M (List UInt8) := do
  let rawPath ← rawPath env
  pure (Lmbcs.toString env.codePage (rawPath.map fun c => if c = backslash then slash else c))

/-- `role_map::at` up to the text that the role is made of. -/
def roleText (key : ℕ) : M (List UInt8) := do
  if Acl.RoleMap.capacity ≤ key then
    throw (.throws (.outOfRange "Index is outside the role list"))
  else do
    let result ← Native.call env.native
    if result.isNotFound then
      throw (.throws (.outOfRange "Index is not found in the role list"))
    else do
      result.throwIfError "Failed to read role from ACL"
      let names ← Native.value
      let value ← written privStringMax (names.roleName key)
      -- the constructor from a C string
      pure (Lmbcs.toString env.codePage (Acl.cString value))

/-- `manager::admin_server`. -/
def adminServer : M (List UInt8) := do
  let result ← Native.call env.native
  result.throwIfError "Failed to read ACL administration server"
  let names ← Native.value
  let adminServer ← written maxUserName names.adminServer
  pure (Lmbcs.toString env.codePage adminServer)

/-- `ACLSetAdminServer`. -/
def aclSetAdminServer (server : List UInt8) : M Status := do
  let result ← Native.call env.native
  if result.isError then pure result
  else do
    Native.update fun names => { names with adminServer := Acl.cString server }
    pure result

/-- `manager::set_admin_server`. -/
def setAdminServer (server : List UInt8) : M Unit := do
  let converted := Lmbcs.fromString env.codePage server
  if server = [] then do
    let result ← aclSetAdminServer env converted
    result.throwIfError "Failed to clear ACL administration server"
  else do
    let result ← Native.call env.native
    result.throwIfError "Failed to canonicalize ACL administration server"
    let canonical ← written maxUserName (env.canonicalize (Acl.cString converted))
    let result ← aclSetAdminServer env canonical
    result.throwIfError "Failed to set ACL administration server"

end NameBuffer

end Dmn
