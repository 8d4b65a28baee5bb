import ClosureConversion.AccessFlags
import ClosureConversion.ClassFile.Version
import ClosureConversion.ClassFile.CodeAttribute

/-!
Contract: class files.

Owns:
- a class file with its fields and methods, and its binary form;
- keeping the bootstrap methods of the pool and those of the class file together;
- the names and signatures that a class file spells by positions in its pool.

Does not own: what the attributes of a class file mean, bootstrap methods apart.
-/

namespace ClosureConversion

instance (declaration : Declaration) : Binary (AccessFlags declaration) where
  write flags := write flags.bits
  read := AccessFlags.ofBits <$> read

/-- A field or a method of a class file. -/
structure Member (declaration : Declaration) where
  flags : AccessFlags declaration
  name : PoolIndex
  descriptor : PoolIndex
  attributes : List Attribute
deriving DecidableEq, Repr

instance (declaration : Declaration) : Binary (Member declaration) where
  write member :=
    write member.flags ++ write member.name ++ write member.descriptor ++ write member.attributes
  read := do
    let flags ← read
    let name ← read
    let descriptor ← read
    let attributes ← read
    return ⟨flags, name, descriptor, attributes⟩

/-- The bootstrap methods of a class file. -/
structure BootstrapTable where
  bootstraps : List BootstrapMethod
deriving DecidableEq, Repr

instance : AttributeContents BootstrapTable where
  attributeName := "BootstrapMethods"
  write table := write table.bootstraps
  read := BootstrapTable.mk <$> read

/-- A class file. Classes are positions in the pool; the one of the superclass is zero
if there is none. -/
structure ClassFile where
  version : Version
  pool : ConstantPool
  flags : ClassFlags
  this : PoolIndex
  super : PoolIndex
  interfaces : List PoolIndex
  fields : List (Member .field)
  methods : List (Member .method)
  attributes : List Attribute

namespace ClassFile

/-- The number that every class file begins with. -/
def magic : UInt32 := 0xCAFEBABE

/-- Reads a class file, and the bootstrap methods of its attribute into the pool. -/
def reader : Reader ClassFile := do
  let found : UInt32 ← read
  if found ≠ magic then throw (.badMagic found)
  let version ← read
  let table : ConstantTable ← read
  let flags ← read
  let this ← read
  let super ← read
  let interfaces ← read
  let fields ← read
  let methods ← read
  let attributes ← read
  let pool := ConstantPool.ofTable table []
  let pool :=
    match ← Attribute.find? attributes pool BootstrapTable with
    | some table => pool.seedBootstraps table.bootstraps
    | none => pool
  return { version, pool, flags, this, super, interfaces, fields, methods, attributes }

/-- Reads a class file; what follows it is not looked at. -/
def ofBytes (bytes : Bytes) : Except BytecodeError ClassFile :=
  (reader bytes).map Prod.fst

/-- The bytes of a class file. -/
def toBytes (file : ClassFile) : Bytes :=
  write magic ++ write file.version ++ write file.pool.constants ++ write file.flags ++
    write file.this ++ write file.super ++ write file.interfaces ++ write file.fields ++
    write file.methods ++ write file.attributes

/-- Puts the bootstrap methods of the pool into their attribute if any were added. -/
def syncBootstraps (file : ClassFile) : Except BytecodeError ClassFile :=
  if file.pool.hasNewBootstraps then
    match Attribute.ofContents (BootstrapTable.mk file.pool.bootstraps) file.pool with
    | .ok entry pool =>
        .ok { file with
          pool := pool
          attributes := Attribute.replace file.attributes pool BootstrapTable entry }
    | .error error _ => .error error
  else
    .ok file

/-- The bytes of a class file whose pool may have grown. -/
def finish (file : ClassFile) : Except BytecodeError Bytes :=
  toBytes <$> file.syncBootstraps

/-- The name of the class. -/
def thisName (file : ClassFile) : Except BytecodeError BinaryName :=
  BinaryName.resolve file.pool file.this

/-- The name of the superclass, if there is one. -/
def superName? (file : ClassFile) : Except BytecodeError (Option BinaryName) :=
  if file.super = 0 then pure none else some <$> BinaryName.resolve file.pool file.super

/-- The names of the interfaces that the class declares to implement. -/
def interfaceNames (file : ClassFile) : Except BytecodeError (List BinaryName) :=
  file.interfaces.mapM (BinaryName.resolve file.pool)

/-- The name and the type of a method. -/
def methodSignature (file : ClassFile) (method : Member .method) :
    Except BytecodeError (UnqualifiedName × MethodType) := do
  let name ← file.pool.text method.name
  let descriptor ← file.pool.text method.descriptor
  let name ← UnqualifiedName.ofClassFile name
  let type ← MethodType.ofClassFile descriptor
  return (name, type)

end ClassFile

namespace Member

/-- The code of a method, if it has any. -/
def code? (method : Member .method) (pool : ConstantPool) :
    Except BytecodeError (Option CodeAttribute) :=
  Attribute.find? method.attributes pool CodeAttribute

/-- The method with other code. -/
def replaceCode (method : Member .method) (pool : ConstantPool) (code : Attribute) :
    Member .method :=
  { method with attributes := Attribute.replace method.attributes pool CodeAttribute code }

end Member

/-- The position of the name of the source file of a class. -/
structure SourceFile where
  name : PoolIndex
deriving DecidableEq, Repr

instance : AttributeContents SourceFile where
  attributeName := "SourceFile"
  write source := write source.name
  read := SourceFile.mk <$> read

/-- A class that is a member of another one. -/
structure InnerClass where
  inner : PoolIndex
  outer : PoolIndex
  name : PoolIndex
  flags : UInt16
deriving DecidableEq, Repr

instance : Binary InnerClass where
  write entry := write entry.inner ++ write entry.outer ++ write entry.name ++ write entry.flags
  read := do
    let inner ← read
    let outer ← read
    let name ← read
    let flags ← read
    return ⟨inner, outer, name, flags⟩

/-- The nested classes that a class mentions. -/
structure InnerClassTable where
  entries : List InnerClass
deriving DecidableEq, Repr

instance : AttributeContents InnerClassTable where
  attributeName := "InnerClasses"
  write table := write table.entries
  read := InnerClassTable.mk <$> read

end ClosureConversion
