import ClosureConversion.Closure.Error
import ClosureConversion.Hierarchy.Declaration
import ClosureConversion.Method.Assembly

/-!
Contract: bridges, which let closures use the private members of the class around them.

Owns:
- which instructions of a closure need a bridge, and which cannot have one;
- the names of bridges, no two of which are equal, and their bodies;
- adding the bridges to the class.

Does not own: the closures that call them.
-/

namespace ClosureConversion

/-- A use of a member of a class. -/
inductive MemberUse where
  | field (access : FieldAccess) (member : FieldRef)
  | method (kind : CallKind) (member : MethodRef)
deriving DecidableEq, Repr

namespace MemberUse

/-- The instruction that makes the use. -/
def instruction {Label : Type} : MemberUse → Instruction Label
  | .field access member => .field access member
  | .method kind member => .invoke kind member

/-- What has to be on the operand stack, and what is left there, for a member of the
class of a name. -/
def type (owner : BinaryName) : MemberUse → MethodType
  | .field .getStatic member => ⟨[], some member.type⟩
  | .field .putStatic member => ⟨[member.type], none⟩
  | .field .getField member => ⟨[.object owner], some member.type⟩
  | .field .putField member => ⟨[.object owner, member.type], none⟩
  | .method .static member => member.type
  | .method _ member => ⟨.object owner :: member.type.parameters, member.type.result⟩

end MemberUse

/-- A method that does nothing but use a member. -/
structure Bridge where
  use : MemberUse
  name : UnqualifiedName
deriving DecidableEq, Repr

/-- Loads parameters from the slots that begin with the given one. -/
def loadParameters {Label : Type} (slot : UInt16) : List FieldType → List (Instruction Label)
  | [] => []
  | type :: types =>
      .load (.ofType type) slot :: loadParameters (slot + (width type).toUInt16) types

/-- The body of a bridge in the class of a name. -/
def Bridge.body (owner : BinaryName) (bridge : Bridge) : CodeBody Nat :=
  let type := bridge.use.type owner
  { instructions := (loadParameters 0 type.parameters ++
      [bridge.use.instruction, .op (.leave (type.result.map LocalKind.ofType))]).toArray }

/-- The bridges of a class, with the names that no further bridge may have. -/
structure BridgeTable where
  owner : BinaryName
  privateFields : List UnqualifiedName
  privateMethods : List (UnqualifiedName × MethodType)
  taken : List UnqualifiedName
  next : Nat
  bridges : List Bridge
deriving Repr

/-- The name that belongs to a number. -/
def bridgeName (number : Nat) : UnqualifiedName :=
  UnqualifiedName.append ⟨"access$", by decide⟩ (.ofNat number)

namespace BridgeTable

/-- The table of a class that has no bridges yet. -/
def ofClass (owner : ClassDeclaration) : BridgeTable where
  owner := owner.name
  privateFields :=
    (owner.fields.filter fun field => field.flags.contains FieldFlags.accPrivate).map
      FieldDeclaration.name
  privateMethods :=
    (owner.methods.filter fun method => method.flags.contains MethodFlags.accPrivate).map
      fun method => (method.name, method.type)
  taken := owner.methods.map MethodDeclaration.name
  next := 0
  bridges := []

/-- Whether a field is private to the class. -/
def isPrivateField (table : BridgeTable) (field : FieldRef) : Bool :=
  field.owner = table.owner && table.privateFields.contains field.name

/-- Whether a method is private to the class. -/
def isPrivateMethod (table : BridgeTable) (method : MethodRef) : Bool :=
  method.owner = .object table.owner &&
    table.privateMethods.contains (method.name, method.type)

/-- The use of a private member that an instruction makes, if any. Code outside the class
can neither call a private constructor nor call the methods of a superclass on an object
of the class. -/
def privateUse (table : BridgeTable) : Instruction Nat → Except SiteFault (Option MemberUse)
  | .field access member =>
      .ok (if table.isPrivateField member then some (.field access member) else none)
  | .invoke .special method =>
      if method.isInit then
        if table.isPrivateMethod method then .error (.privateConstructor table.owner)
        else .ok none
      else if table.isPrivateMethod method then .ok (some (.method .special method))
      else .error (.superCall method)
  | .invoke kind method =>
      .ok (if table.isPrivateMethod method then some (.method kind method) else none)
  | _ => .ok none

/-- The first number from the next one on whose name is free. As many names can be taken
as there are names that are taken. -/
def freeNumber (table : BridgeTable) : Nat :=
  let numbers := List.range' table.next (table.taken.length + 1)
  (numbers.find? fun number => !table.taken.contains (bridgeName number)).getD
    (table.next + table.taken.length + 1)

/-- Adds a bridge for a use of a member. -/
def add (table : BridgeTable) (use : MemberUse) : Bridge × BridgeTable :=
  let number := table.freeNumber
  let bridge := ⟨use, bridgeName number⟩
  (bridge, { table with
    taken := bridge.name :: table.taken
    next := number + 1
    bridges := table.bridges ++ [bridge] })

/-- The bridge for a use of a member, which is added if there is none. -/
def bridgeFor (table : BridgeTable) (use : MemberUse) : Bridge × BridgeTable :=
  match table.bridges.find? fun bridge => bridge.use = use with
  | some bridge => (bridge, table)
  | none => table.add use

/-- The call of a bridge. -/
def reference (table : BridgeTable) (bridge : Bridge) : MethodRef where
  owner := .object table.owner
  name := bridge.name
  type := bridge.use.type table.owner
  ofInterface := false

/-- The bridge that a closure has to call in place of an instruction, if any. -/
def redirect (table : BridgeTable) (instruction : Instruction Nat) :
    Except SiteFault (Option MethodRef × BridgeTable) := do
  match ← table.privateUse instruction with
  | none => return (none, table)
  | some use =>
      let (bridge, table) := table.bridgeFor use
      return (some (table.reference bridge), table)

/-- The flags of bridges. -/
def flags : MethodFlags :=
  MethodFlags.accStatic.union MethodFlags.accSynthetic

/-- A bridge as a method of a class file. -/
def member (table : BridgeTable) (hierarchy : Hierarchy) (version : Version) (bridge : Bridge) :
    PoolM (Member .method) := do
  let type := bridge.use.type table.owner
  let whole := Method.ofBody table.owner flags bridge.name type (bridge.body table.owner)
  let code ← whole.assemble hierarchy version
  let code ← Attribute.ofContents code
  let name ← ConstantPool.internText bridge.name.text
  let descriptor ← ConstantPool.internText type.descriptor
  return { flags, name, descriptor, attributes := [code] }

/-- Adds the bridges to a class file. -/
def install (table : BridgeTable) (hierarchy : Hierarchy) (file : ClassFile) :
    Except BytecodeError ClassFile :=
  match table.bridges.mapM (table.member hierarchy file.version) file.pool with
  | .ok members pool => .ok { file with pool, methods := file.methods ++ members }
  | .error error _ => .error error

end BridgeTable

end ClosureConversion
