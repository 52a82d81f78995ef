import Dmn.Model.NameBuffer

/-! # Managers of access control lists

A `manager` shares its native list with its copies, of which each `entry` and each `role_map`
has one. The list is memory of its own: databases get it when it is saved. Every operation
comes with the status words of the native calls that it makes, and all objects are on one
thread. A database has its handle, or gets it by a call that can fail. -/

namespace Dmn.AclSession

abbrev DatabaseId := Nat

abbrev Handle := Nat

abbrev ObjectId := Nat

/-- A native list: its entries and the names of its privileges, with the administration
server. -/
structure Image where
  acl : Acl.NativeAcl
  adminServer : List UInt8

/-- What the code works on. `created` is what `ACLCreate` makes, `lookup` is what
`ACLLookupAccess` finds for a names list, and `canonicalize` is the text that `DNCanonicalize`
writes for a name. -/
structure Env extends Acl.Env where
  created : Image
  lookup : Image → List UInt8 → UInt16 × Acl.Privileges × UInt16
  canonicalize : List UInt8 → List UInt8

namespace Env

def withNative (env : Env) (native : Native) : Env := { env with native := native }

def names (env : Env) : NameBuffer.Env := ⟨env.native, env.codePage, env.canonicalize⟩

end Env

/-- The classes that have a manager. -/
inductive Kind where
  | manager
  | roles
  | entry
  deriving DecidableEq

/-- What an object has besides its manager. -/
inductive Content where
  | manager
  | roles
  | entry (value : Acl.Entry)

def Content.kind : Content → Kind
  | manager => .manager
  | roles => .roles
  | entry _ => .entry

/-- `list` is the shared pointer, which is null in an object that was moved from. -/
structure Object where
  id : ObjectId
  db : DatabaseId
  list : Option Handle
  newlyCreated : Bool
  content : Content

structure Block where
  handle : Handle
  image : Image

inductive Event where
  | allocated (handle : Handle)
  | stored (handle : Handle) (db : DatabaseId) (newlyCreated : Bool)
  | freed (handle : Handle)
  deriving DecidableEq

/-- `databases` is what is stored, and `memory` the lists that were not freed. -/
structure World where
  databases : DatabaseId → Image
  memory : List Block
  objects : List Object
  nextHandle : Handle
  nextObject : ObjectId
  trace : List Event

abbrev M (α : Type) := Native.M World α

namespace World

def start (databases : DatabaseId → Image) : World := ⟨databases, [], [], 0, 0, []⟩

def log (event : Event) (w : World) : World := { w with trace := event :: w.trace }

def object (id : ObjectId) (w : World) : Option Object := Table.lookup Object.id id w.objects

/-- The list behind a pointer. -/
def image (list : Option Handle) (w : World) : Option Image :=
  (list.bind fun handle => Table.lookup Block.handle handle w.memory).map Block.image

def write (handle : Handle) (image : Image) (w : World) : World :=
  { w with memory := Table.modify Block.handle handle (fun block => { block with image }) w.memory }

/-- A native call has allocated the next list. -/
def allocate (image : Image) (w : World) : World :=
  { w.log (.allocated w.nextHandle) with
    memory := ⟨w.nextHandle, image⟩ :: w.memory
    nextHandle := w.nextHandle + 1 }

def free (handle : Handle) (w : World) : World :=
  { w.log (.freed handle) with memory := Table.erase Block.handle handle w.memory }

def born (object : Object) (w : World) : World :=
  { w with
    objects := { object with id := w.nextObject } :: w.objects
    nextObject := w.nextObject + 1 }

def modify (id : ObjectId) (f : Object → Object) (w : World) : World :=
  { w with objects := Table.modify Object.id id f w.objects }

def erase (id : ObjectId) (w : World) : World :=
  { w with objects := Table.erase Object.id id w.objects }

def held (handle : Handle) (w : World) : Bool :=
  w.objects.any fun object => object.list = some handle

/-- A pointer is gone, and the list with the last one. -/
def release (list : Option Handle) (w : World) : World :=
  match list with
  | none => w
  | some handle => if w.held handle then w else w.free handle

end World

/-! ## Calls on a list -/

/-- A program on the entries and the names of privileges. -/
def onAcl {α : Type} (x : Acl.M α) : Native.M Image α :=
  Native.part Image.acl (fun acl image => { image with acl }) x

/-- A program on the name of the administration server. -/
def onServer {α : Type} (x : NameBuffer.M α) : Native.M Image α :=
  Native.part (fun image => ⟨[], [], fun _ => [], image.adminServer⟩)
    (fun names image => { image with adminServer := names.adminServer }) x

section Calls

variable (env : Env)

/-- `lookup_access`. -/
def lookupAccess (names : List UInt8) : Native.M Image Acl.Access := do
  let result ← Native.call env.native
  result.throwIfError "Failed to look up access"
  let image ← Native.value
  let (level, privileges, flags) := env.lookup image names
  let roles ← Exec.ofExcept (Acl.rolesFromNative env.toEnv image.acl privileges)
  pure ⟨level.toUInt8, roles, flags &&& Acl.entryFlagMask⟩

/-- `entry::remove`. -/
def removeEntry (entry : Acl.Entry) : Native.M Image Unit := do
  let converted := Acl.cString (Lmbcs.fromString env.codePage entry.name)
  let status ← Native.call env.native
  status.throwIfError "Failed to remove ACL entry"
  let image ← Native.value
  if (Table.lookup Acl.NativeEntry.name converted image.acl.entries).isNone then
    Status.aclNoEntry.throwIfError "Failed to remove ACL entry"
  else
    Native.update fun image => { image with
      acl := { image.acl with
        entries := Table.erase Acl.NativeEntry.name converted image.acl.entries } }

/-- What is called on an object. -/
inductive Method where
  | lookupAccess (names : List UInt8)
  | entries
  | getEntry (name : List UInt8)
  | addEntry (name : List UInt8) (value : Acl.Access) (type : Acl.PrincipalType)
  | updateEntry (name : List UInt8) (value : Acl.Entry)
  | roles
  | adminServer
  | setAdminServer (server : List UInt8)
  | get (key : Nat)
  | size
  | set (key : Nat) (value : Acl.Role)
  | insert (value : Acl.Role)
  | setName (name : List UInt8)
  | setAccess (value : Acl.Access)
  | setLevel (value : UInt8)
  | setType (value : Acl.PrincipalType)
  | setAdministrationServer (value : Bool)
  | remove

/-- The class of a method. -/
def Method.kind : Method → Kind
  | lookupAccess _ | entries | getEntry _ | addEntry _ _ _ | updateEntry _ _ | roles
  | adminServer | setAdminServer _ => .manager
  | get _ | size | set _ _ | insert _ => .roles
  | setName _ | setAccess _ | setLevel _ | setType _ | setAdministrationServer _ | remove => .entry

/-- What the object has afterwards, and what the objects have that the method returns. -/
def Method.run : Content → Method → Native.M Image (Content × List Content)
  | .manager, lookupAccess names => do
      let _ ← AclSession.lookupAccess env names
      pure (.manager, [])
  | .manager, entries => do
      let all ← onAcl (Acl.entries env.toEnv)
      pure (.manager, all.map .entry)
  | .manager, getEntry name => do
      let found ← onAcl (Acl.getEntry env.toEnv name)
      pure (.manager, found.toList.map .entry)
  | .manager, addEntry name value type => do
      let entry ← onAcl (Acl.addEntry env.toEnv name value type)
      pure (.manager, [.entry entry])
  | .manager, updateEntry name value => do
      onAcl (Acl.updateEntry env.toEnv name value)
      pure (.manager, [])
  | .manager, roles => pure (.manager, [.roles])
  | .manager, adminServer => do
      let _ ← onServer (NameBuffer.adminServer env.names)
      pure (.manager, [])
  | .manager, setAdminServer server => do
      onServer (NameBuffer.setAdminServer env.names server)
      pure (.manager, [])
  | .roles, get key => do
      let image ← Native.value
      let _ ← Exec.ofExcept (Acl.RoleMap.get env.toEnv image.acl key)
      pure (.roles, [])
  | .roles, size => do
      let image ← Native.value
      let _ ← Exec.ofExcept (Acl.RoleMap.size env.toEnv image.acl)
      pure (.roles, [])
  | .roles, set key value => do
      onAcl (Acl.RoleMap.set env.toEnv key value)
      pure (.roles, [])
  | .roles, insert value => do
      onAcl (Acl.RoleMap.insert env.toEnv value)
      pure (.roles, [])
  | .entry entry, setName name => do
      let entry ← onAcl (Acl.Entry.setName env.toEnv name entry)
      pure (.entry entry, [])
  | .entry entry, setAccess value => do
      let entry ← onAcl (Acl.Entry.setAccess env.toEnv value entry)
      pure (.entry entry, [])
  | .entry entry, setLevel value => do
      let entry ← onAcl (Acl.Entry.setLevel env.toEnv value entry)
      pure (.entry entry, [])
  | .entry entry, setType value => do
      let entry ← onAcl (Acl.Entry.setType env.toEnv value entry)
      pure (.entry entry, [])
  | .entry entry, setAdministrationServer value => do
      let entry ← onAcl (Acl.Entry.setAdministrationServer env.toEnv value entry)
      pure (.entry entry, [])
  | .entry entry, remove => do
      removeEntry env entry
      pure (.entry entry, [])
  | _, _ => throw .undefined

end Calls

/-! ## Objects -/

/-- `*this`. -/
def this (id : ObjectId) : M Object := do
  let w ← Native.value
  match w.object id with
  | none => throw .undefined
  | some self => pure self

/-- A program on the list of an object; a null handle and a freed one are not lists. -/
def onList {α : Type} (self : Object) (x : Native.M Image α) : M α := do
  let w ← Native.value
  match self.list, w.image self.list with
  | some handle, some image => Native.part (fun _ => image) (World.write handle) x
  | _, _ => throw .undefined

section Operations

variable (env : Env)

/-- `database::get_handle`. -/
def databaseHandle : M Unit := do
  let result ← Native.call env.native
  if result.isNotFound then throw (.throws (.invalidHandle "The database has disappeared"))
  else result.throwIfError "Failed to open database"

/-- `read`, up to the object. -/
def readList (db : DatabaseId) : M Handle := do
  databaseHandle env
  let result ← Native.call env.native
  result.throwIfError "Failed to read ACL"
  let w ← Native.value
  Native.update (World.allocate (w.databases db))
  pure w.nextHandle

def read (db : DatabaseId) : M Unit := do
  let handle ← readList env db
  Native.update (World.born ⟨0, db, some handle, false, .manager⟩)

def create (db : DatabaseId) : M Unit := do
  let result ← Native.call env.native
  result.throwIfError "Failed to create ACL"
  let w ← Native.value
  Native.update (World.allocate env.created)
  Native.update (World.born ⟨0, db, some w.nextHandle, true, .manager⟩)

/-- `database::get_access`: the manager lives as long as the look-up. -/
def getAccess (db : DatabaseId) (names : List UInt8) (size : Nat) : M Acl.Access :=
  if size = 0 then throw (.throws (.invalidArgument "Names list is empty"))
  else do
    let handle ← readList env db
    let access ← tryCatch
      (onList ⟨0, db, some handle, false, .manager⟩ (lookupAccess env names)) fun stop => do
        Native.update (World.free handle)
        throw stop
    Native.update (World.free handle)
    pure access

/-- A method; what it returns shares the list of the object. -/
def invoke (id : ObjectId) (method : Method) : M Unit := do
  let self ← this id
  let (content, made) ← onList self (method.run env self.content)
  Native.update (World.modify id fun self => { self with content })
  Native.update fun w => made.foldl (fun w content => w.born { self with content }) w

def save (id : ObjectId) : M Unit := do
  let self ← this id
  databaseHandle env
  let image ← onList self Native.value
  let result ← Native.call env.native
  result.throwIfError "Failed to store ACL"
  Native.update fun w => { w with databases := Function.update w.databases self.db image }
  Native.update (World.log (.stored (self.list.getD 0) self.db self.newlyCreated))
  Native.update (World.modify id fun self => { self with newlyCreated := false })

def copy (id : ObjectId) : M Unit := do
  let self ← this id
  Native.update (World.born self)

def move (id : ObjectId) : M Unit := do
  let self ← this id
  Native.update (World.modify id fun self => { self with list := none })
  Native.update (World.born self)

/-- Assignment of a copy. -/
def assign (id other : ObjectId) : M Unit := do
  let self ← this id
  let value ← this other
  Native.update (World.modify id fun self => { value with id := self.id })
  Native.update (World.release self.list)

def drop (id : ObjectId) : M Unit := do
  let self ← this id
  Native.update (World.erase id)
  Native.update (World.release self.list)

end Operations

/-! ## Runs -/

inductive Op where
  | read (db : DatabaseId)
  | create (db : DatabaseId)
  | getAccess (db : DatabaseId) (names : List UInt8) (size : Nat)
  | invoke (id : ObjectId) (method : Method)
  | save (id : ObjectId)
  | copy (id : ObjectId)
  | move (id : ObjectId)
  | assign (id other : ObjectId)
  | drop (id : ObjectId)

/-- An operation with the status words of its native calls. -/
structure Call where
  native : Native
  op : Op

namespace Op

/-- There is an object to call the operation on, which was not moved from. -/
def able (w : World) : Op → Bool
  | read _ | create _ | getAccess _ _ _ => true
  | invoke id method =>
      (w.object id).any fun self => self.list.isSome && self.content.kind = method.kind
  | save id => (w.object id).any fun self => self.list.isSome && self.content.kind = .manager
  | copy id | move id => (w.object id).any fun self => self.list.isSome
  | assign id other => (w.object id).any fun self =>
      (w.object other).any fun value => value.list.isSome && value.content.kind = self.content.kind
  | drop id => (w.object id).isSome

def perform (env : Env) : Op → M Unit
  | read db => AclSession.read env db
  | create db => AclSession.create env db
  | getAccess db names size => discard (AclSession.getAccess env db names size)
  | invoke id method => AclSession.invoke env id method
  | save id => AclSession.save env id
  | copy id => AclSession.copy id
  | move id => AclSession.move id
  | assign id other => AclSession.assign id other
  | drop id => AclSession.drop id

end Op

/-- Exceptions are caught, and the program goes on. -/
def step (env : Env) (w : World) (call : Call) : World :=
  if call.op.able w then
    (Exec.exec (call.op.perform (env.withNative call.native)) ⟨0, w⟩).2.value
  else w

end Dmn.AclSession
