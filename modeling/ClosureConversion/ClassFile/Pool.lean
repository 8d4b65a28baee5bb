import Std.Data.HashMap
import ClosureConversion.ClassFile.ConstantTable

/-!
Contract: the constant pool of a class file under construction, with the table of
bootstrap methods that its constants refer to.

Owns:
- looking constants up by position;
- interning: a constant that is in the pool already is found at the first position
  that holds it, any other is appended, unless the positions run out;
- interning of bootstrap methods, and whether any were added.

Does not own: how names, members and literals become constants.
-/

namespace ClosureConversion

/-- How the target of a dynamic call is found: a method handle and its arguments. -/
structure BootstrapMethod where
  handle : PoolIndex
  arguments : List PoolIndex
deriving DecidableEq, Repr

instance : Binary BootstrapMethod where
  write bootstrap := write bootstrap.handle ++ write bootstrap.arguments
  read := do
    let handle ← read
    let arguments ← read
    return ⟨handle, arguments⟩

/-- The constants of a class file and its bootstrap methods. `firstPositions` finds a
constant's first position; `seededBootstraps` counts the bootstrap methods that were
there from the start. -/
structure ConstantPool where
  constants : ConstantTable
  firstPositions : Std.HashMap Constant PoolIndex
  bootstraps : List BootstrapMethod
  seededBootstraps : Nat

namespace ConstantPool

/-- The pool without constants. -/
def empty : ConstantPool where
  constants := ConstantTable.empty
  firstPositions := ∅
  bootstraps := []
  seededBootstraps := 0

/-- Replaces the bootstrap methods by the ones the class file came with. -/
def seedBootstraps (pool : ConstantPool) (bootstraps : List BootstrapMethod) : ConstantPool :=
  { pool with bootstraps := bootstraps, seededBootstraps := bootstraps.length }

/-- The first position of every constant of a table. -/
def positionsOf (table : ConstantTable) : Std.HashMap Constant PoolIndex :=
  table.entries.foldl
    (fun positions (offset, constant) => positions.insertIfNew constant offset.toUInt16) ∅

/-- The pool of a class file that was read. -/
def ofTable (table : ConstantTable) (bootstraps : List BootstrapMethod) : ConstantPool :=
  { empty with constants := table, firstPositions := positionsOf table }.seedBootstraps bootstraps

/-- Whether bootstrap methods were added to those there from the start. -/
def hasNewBootstraps (pool : ConstantPool) : Bool :=
  pool.bootstraps.length ≠ pool.seededBootstraps

/-! ## Lookup -/

/-- The constant at a position. -/
def get (pool : ConstantPool) (index : PoolIndex) : Except BytecodeError Constant :=
  match (pool.constants.locate index.toNat).value? with
  | some constant => .ok constant
  | none => .error (.badConstant index "constant")

/-- The text at a position. -/
def text (pool : ConstantPool) (index : PoolIndex) : Except BytecodeError String :=
  match pool.get index with
  | .ok (.utf8 text) => .ok text
  | _ => .error (.badConstant index "utf8")

/-- The texts of the name and the descriptor at a position. -/
def nameAndType (pool : ConstantPool) (index : PoolIndex) :
    Except BytecodeError (String × String) :=
  match pool.get index with
  | .ok (.nameAndType name descriptor) => do
      let name ← pool.text name
      let descriptor ← pool.text descriptor
      return (name, descriptor)
  | _ => .error (.badConstant index "name and type")

/-- The first position of a text, if the pool holds it. -/
def findText? (pool : ConstantPool) (text : String) : Option PoolIndex :=
  pool.firstPositions[Constant.utf8 text]?

end ConstantPool

/-- Work on a constant pool. What was added before an error stays in the pool. -/
abbrev PoolM := EStateM BytecodeError ConstantPool

namespace ConstantPool

/-! ## Interning -/

/-- The number of positions that a class file can tell apart. -/
def positionLimit : Nat := 65535

/-- The pool with a constant after all others, at the first position of its own. -/
def append (pool : ConstantPool) (constant : Constant) : ConstantPool :=
  let offset := pool.constants.endOffset
  { pool with
    constants := pool.constants.push constant
    firstPositions := pool.firstPositions.insert constant offset.toUInt16 }

/-- The first position of a constant, which is appended if it is in the pool nowhere. -/
def intern (constant : Constant) : PoolM PoolIndex := fun pool =>
  match pool.firstPositions[constant]? with
  | some index => .ok index pool
  | none =>
      let offset := pool.constants.endOffset
      if offset + width constant ≤ positionLimit then
        .ok offset.toUInt16 (pool.append constant)
      else
        .error (.poolOverflow constant offset.toUInt16) pool

/-- The position of a text. -/
def internText (text : String) : PoolM PoolIndex :=
  intern (.utf8 text)

/-- The position of a name and a descriptor, given by their positions. -/
def internNameAndType (name descriptor : String) : PoolM PoolIndex := do
  let name ← internText name
  let descriptor ← internText descriptor
  intern (.nameAndType name descriptor)

/-- The index of a bootstrap method, modulo two to the sixteenth. -/
def internBootstrap (bootstrap : BootstrapMethod) : PoolM UInt16 := fun pool =>
  match pool.bootstraps.findIdx? (· = bootstrap) with
  | some index => .ok index.toUInt16 pool
  | none =>
      .ok pool.bootstraps.length.toUInt16
        { pool with bootstraps := pool.bootstraps ++ [bootstrap] }

end ConstantPool

end ClosureConversion
