import Dmn.Model.Names

/-! # Runs on objects that own memory

An object is constructed, and then methods of it are called, while the program holds cursors that it
got. -/

namespace Dmn

namespace MemoryOwner

open Heap Locker

variable (env : Env) {α : Type}

/-! ## Construction -/

/-- Where a locker comes from. -/
inductive LockerOrigin where
  | allocated (size : Nat) (own : Ownership) (x : Cursor.M Unit)
  | copied (buffer : List UInt8) (own : Ownership)
  | ofHandle (hdl : Nat) (own : Ownership)
  | ofSize (hdl size : Nat) (own : Ownership)
  | cloned (source : LockerOrigin)

def LockerOrigin.acquire : LockerOrigin → Heap.M Locker
  | allocated size own x => do
      let locker ← allocateImpl env.native size own
      locker.guarded do
        locker.through x
        pure locker
  | copied buffer own => allocate env.native buffer own
  | ofHandle hdl own => Locker.ofHandle env.native hdl own
  | ofSize hdl size own => make env.native hdl size own
  | cloned source => within source.acquire (Locker.clone env.native)

inductive Class where
  | value
  | formula
  | names
  | list
  | lotusscript
  deriving DecidableEq, Repr

inductive Origin : Class → Type where
  | value (locker : LockerOrigin) : Origin .value
  | formulaOfCode (code : List UInt8) : Origin .formula
  | formulaOfSpan (buffer : List UInt8) : Origin .formula
  | fromUsername (name : List UInt8) : Origin .names
  | cloned (source : MemoryOwner) : Origin .names
  | list : Origin .list
  | listOfSpan (buffer : List UInt8) : Origin .list
  | lotusscript (code : List UInt8) : Origin .lotusscript

def Origin.construct {c : Class} : Origin c → Heap.M MemoryOwner
  | value locker => do
      let locker ← locker.acquire env
      MemoryOwner.value locker
  | formulaOfCode code => MemoryOwner.formulaOfCode env code
  | formulaOfSpan buffer => MemoryOwner.formulaOfSpan env buffer
  | fromUsername name => MemoryOwner.fromUsername env name
  | cloned source => namesClone env source
  | list => MemoryOwner.list env
  | listOfSpan buffer => MemoryOwner.listOfSpan env buffer
  | lotusscript code => MemoryOwner.lotusscript env code

/-! ## Runs -/

/-- The methods. Those of a value that only read are any program on a cursor. -/
inductive Method : Class → Type where
  | read (x : Cursor.M Unit) : Method .value
  | tryAs (x : Cursor.M (Option Unit)) : Method .value
  | tryAsList : Method .value
  | tryAsFormula : Method .value
  | formulaSize : Method .formula
  | decompile (isSelectionFormula : Bool) : Method .formula
  | merge (other : MemoryOwner) : Method .formula
  | addSummary (itemName : List UInt8) : Method .formula
  | addItemName (itemName : List UInt8) : Method .formula
  | setAuthentication (state : AuthenticationState) : Method .names
  | namesSize : Method .names
  | namesAt (index : Nat) : Method .names
  | namesTryAt (index : Nat) : Method .names
  | clone : Method .names
  | listSize : Method .list
  | bufferSize : Method .list
  | listAt (index : Nat) : Method .list
  | pushBack (value : List UInt8) : Method .list
  | popBack : Method .list
  | erase (index : Nat) : Method .list
  | clear : Method .list

/-- Call a method that leaves `size_` as it is. -/
def calling (self : MemoryOwner) (x : Heap.M α) : Heap.M Nat := do
  let _ ← x
  pure self.size_

/-- A method gives what `size_` is afterwards. -/
def Method.perform {c : Class} (self : MemoryOwner) : Method c → Heap.M Nat
  | read x => self.calling (valueRead env self x)
  | tryAs x => self.calling (valueTryAs env self fun cursor => cursor.through x)
  | tryAsList => self.calling (valueTryAs env self (convertList env))
  | tryAsFormula => self.calling (valueTryAs env self (convertFormula env))
  | formulaSize => self.calling (MemoryOwner.formulaSize env self)
  | decompile isSelectionFormula =>
      self.calling (MemoryOwner.decompile env self isSelectionFormula)
  | merge other => self.calling (MemoryOwner.merge env self other)
  | addSummary itemName => self.calling (MemoryOwner.addSummary env self itemName)
  | addItemName itemName => self.calling (MemoryOwner.addItemName env self itemName)
  | setAuthentication state => self.calling (MemoryOwner.setAuthentication env self state)
  | namesSize => self.calling (Names.size env self)
  | namesAt index => self.calling (Names.get env self index)
  | namesTryAt index => self.calling (Names.tryGet env self index)
  | clone => self.calling (namesClone env self)
  | listSize => self.calling (MemoryOwner.listSize env self)
  | bufferSize => self.calling (MemoryOwner.bufferSize env self)
  | listAt index => self.calling (MemoryOwner.listAt env self index)
  | pushBack value => listPushBack env self value
  | popBack => listPopBack env self
  | erase index => listErase env self index
  | clear => listClear env self

def getCursor (c : Class) (self : MemoryOwner) : Heap.M Locker :=
  match c with
  | .value => valueGetCursor env self
  | .formula => formulaGetCursor env self
  | .names => namesGetCursor env self
  | .list => listGetCursor env self
  | .lotusscript => lotusscriptGetCursor env self

/-- What the owner of an object does. A cursor that it got lives until it is dropped. -/
inductive Op (c : Class) where
  | call (method : Method c)
  | getCursor
  | drop (index : Nat)
  | release (h : c = .names ∨ c = .list)

structure State where
  memory : Called Heap
  object : MemoryOwner
  cursors : List Locker

def step {c : Class} (s : State) : Op c → State
  | .call method =>
      match Exec.exec (method.perform env s.object) s.memory with
      | (.ok size, memory) => { s with memory := memory, object := { s.object with size_ := size } }
      | (.error _, memory) => { s with memory := memory }
  | .getCursor =>
      match Exec.exec (MemoryOwner.getCursor env c s.object) s.memory with
      | (.ok cursor, memory) => { s with memory := memory, cursors := cursor :: s.cursors }
      | (.error _, memory) => { s with memory := memory }
  | .drop index =>
      match s.cursors[index]? with
      | none => s
      | some cursor => { s with
          memory := (Exec.exec cursor.destroy s.memory).2
          cursors := s.cursors.eraseIdx index }
  | .release _ => { s with object := { s.object with hdl_ := 0 } }

end MemoryOwner

end Dmn
