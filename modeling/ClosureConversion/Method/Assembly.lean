import ClosureConversion.Code.Encoding
import ClosureConversion.Flow.Analysis
import ClosureConversion.Flow.MapFrame

/-!
Contract: a method as the code attribute of a class file.

Owns:
- replacing the instructions that are never reached, and cutting the ranges of
  exception handlers around them;
- the instructions that need a frame in the stack map;
- the positions of handlers, variables and lines as offsets in the code.

Does not own: the bytes of the instructions.
-/

namespace ClosureConversion

/-- Instructions from `start` up to but without `stop` that are never reached. -/
structure DeadRun where
  start : Nat
  stop : Nat
deriving DecidableEq, Repr

namespace FlowAnalysis

/-- The longest runs of unreachable instructions among so many instructions from an
index on. `open?` is where the run that the index may continue began. -/
def deadRunsFrom (analysis : FlowAnalysis) (index : Nat) :
    Nat → Option Nat → List DeadRun
  | 0, none => []
  | 0, some start => [⟨start, index⟩]
  | count + 1, open? =>
      if analysis.isReachable index then
        (open?.map fun start => DeadRun.mk start index).toList ++
          analysis.deadRunsFrom (index + 1) count none
      else
        analysis.deadRunsFrom (index + 1) count (some (open?.getD index))

/-- The longest runs of instructions that are never reached, in order. -/
def deadRuns (analysis : FlowAnalysis) : List DeadRun :=
  analysis.deadRunsFrom 0 analysis.frames.size none

end FlowAnalysis

/-- The instructions with every dead run replaced: it does nothing and then throws. -/
def FlowAnalysis.overwriteDead (analysis : FlowAnalysis)
    (instructions : Array (Instruction Nat)) : Array (Instruction Nat) :=
  instructions.mapIdx fun index instruction =>
    if analysis.isReachable index then instruction
    else if index + 1 < instructions.size && !analysis.isReachable (index + 1) then .op .nop
    else .op .throw

/-- The parts of a range that lie outside dead runs, in order, for runs in order. -/
def ExceptionRange.outside (range : ExceptionRange Nat) :
    List DeadRun → List (ExceptionRange Nat)
  | [] => if range.start < range.stop then [range] else []
  | run :: runs =>
      if run.stop ≤ range.start || range.stop ≤ run.start then range.outside runs
      else
        let after := ({ range with start := run.stop } : ExceptionRange Nat).outside runs
        if range.start < run.start then { range with stop := run.start } :: after else after

/-- The ranges of live instructions whose exceptions go to live handlers. -/
def splitRanges (ranges : List (ExceptionRange Nat)) (analysis : FlowAnalysis) :
    List (ExceptionRange Nat) :=
  let runs := analysis.deadRuns
  (ranges.filter fun range => analysis.isReachable range.handler).flatMap fun range =>
    range.outside runs

/-! ## Stack map -/

/-- The indices at which live code needs a frame: targets of jumps, what follows an
instruction that control does not fall through, handlers, and what follows a jump that
was written as two. -/
def frameTargets (instructions : Array (Instruction Nat)) (analysis : FlowAnalysis)
    (ranges : List (ExceptionRange Nat)) (widened : List Nat) : List Nat :=
  let fromCode := instructions.toList.zipIdx.flatMap fun (instruction, index) =>
    if analysis.isReachable index then
      instruction.targets ++ (if instruction.fallsThrough then [] else [index + 1])
    else []
  fromCode ++ ranges.map ExceptionRange.handler ++ widened.map (· + 1)

/-- The frame that the stack map has for an instruction, if it has one: dead runs begin
with a frame of their own. -/
def mapFrameAt? (analysis : FlowAnalysis) (starts targets : Std.HashSet Nat) (index : Nat) :
    Option Frame :=
  if starts.contains index then some .deadCode
  else if targets.contains index then analysis.frame? index
  else none

/-- The frames of the stack map, in the order of the instructions they belong to. -/
def framePoints (instructions : Array (Instruction Nat)) (analysis : FlowAnalysis)
    (ranges : List (ExceptionRange Nat)) (widened : List Nat) : List (Nat × Frame) :=
  let starts := Std.HashSet.ofList (analysis.deadRuns.map DeadRun.start)
  let targets := Std.HashSet.ofList (frameTargets instructions analysis ranges widened)
  (List.range instructions.size).filterMap fun index =>
    (mapFrameAt? analysis starts targets index).map (index, ·)

/-- The frames of a stack map from a frame on. `offset?` is where the frame before
stands; the entry of the method stands nowhere. -/
def stackMapFrom (offsets : Array Nat) (previous : MapFrame) (offset? : Option Nat) :
    List (Nat × Frame) → PoolM (List StackMapFrame)
  | [] => pure []
  | (index, frame) :: rest => do
      let frame ← frame.toMapFrame offsets
      let offset := offsets.getD index 0
      let delta :=
        match offset? with
        | none => offset
        | some before => offset - before - 1
      let others ← stackMapFrom offsets frame (some offset) rest
      return frame.relativeTo previous delta.toUInt16 :: others

/-! ## Tables -/

/-- The offset of an instruction, or the length of the code for the index after the last
one. -/
def offsetAt (offsets : Array Nat) (index : Nat) : UInt16 :=
  (offsets.getD index 0).toUInt16

/-- The lines that begin inside the code. -/
def lineEntries (method : Method) (offsets : Array Nat) : List LineEntry :=
  (method.lines.toList.filter fun line => line.start < method.instructions.size).map fun line =>
    ⟨offsetAt offsets line.start, line.line⟩

/-- A variable as an entry of a table. -/
def variableEntry (offsets : Array Nat) (entry : LocalVariable Nat) : PoolM VariableEntry := do
  let name ← ConstantPool.internText entry.name.text
  let descriptor ← ConstantPool.internText entry.type.descriptor
  let start := offsetAt offsets entry.start
  let length := (offsets.getD entry.stop 0 - offsets.getD entry.start 0).toUInt16
  return { start, length, name, descriptor, slot := entry.slot }

/-- The variables that are in scope somewhere inside the code. -/
def variableEntries (method : Method) (offsets : Array Nat) : PoolM (List VariableEntry) :=
  (method.localVariables.toList.filter fun entry =>
    entry.start < entry.stop && entry.stop ≤ method.instructions.size).mapM
      (variableEntry offsets)

/-- A range as an entry of the exception table. -/
def exceptionEntry (offsets : Array Nat) (range : ExceptionRange Nat) :
    PoolM ExceptionEntry := do
  let catchType ←
    match range.catchType with
    | none => pure 0
    | some name => name.intern
  return {
    start := offsetAt offsets range.start
    stop := offsetAt offsets range.stop
    handler := offsetAt offsets range.handler
    catchType }

namespace Method

/-- How many slots the code of the method gets. -/
def localsNeeded (method : Method) (analysis : FlowAnalysis) : Nat :=
  max (max analysis.maxLocals method.parameterSlots.toNat) method.maxLocals.toNat

/-- The attribute that holds the stack map, unless there are no frames in it. -/
def stackMapAttribute (method : Method) (offsets : Array Nat) (points : List (Nat × Frame)) :
    PoolM (List Attribute) := do
  let entry ← method.entryFrame.toMapFrame offsets
  let frames ← stackMapFrom offsets entry none points
  if frames.isEmpty then return []
  let entry ← Attribute.ofContents (StackMap.mk frames)
  return [entry]

/-- The attribute that holds the lines, unless there are none. -/
def lineAttribute (method : Method) (offsets : Array Nat) : PoolM (List Attribute) := do
  let lines := lineEntries method offsets
  if lines.isEmpty then return []
  let entry ← Attribute.ofContents (LineTable.mk lines)
  return [entry]

/-- The attribute that holds the variables, unless the method has none at all. -/
def variableAttribute (method : Method) (offsets : Array Nat) : PoolM (List Attribute) := do
  if method.hasVariableTable then
    let localVariables ← variableEntries method offsets
    let entry ← Attribute.ofContents (VariableTable.mk localVariables)
    return [entry]
  else
    return []

/-- The code attribute of a method. -/
def assemble (method : Method) (hierarchy : Hierarchy) (version : Version) :
    PoolM CodeAttribute := do
  let analysis ← MonadExcept.ofExcept (method.analyze hierarchy)
  let instructions := analysis.overwriteDead method.instructions
  let ranges := splitRanges method.handlers.toList analysis
  let encoded ← encode instructions
  let offsets := encoded.offsets
  if 65535 < analysis.maxStack then throw (.stackTooDeep analysis.maxStack)
  let maxLocals := method.localsNeeded analysis
  if 65535 < maxLocals then throw (.tooManyLocals maxLocals)
  let points := framePoints instructions analysis ranges encoded.widened
  let stackMap ←
    if version.usesStackMaps then method.stackMapAttribute offsets points else pure []
  let lines ← method.lineAttribute offsets
  let localVariables ← method.variableAttribute offsets
  let exceptions ← ranges.mapM (exceptionEntry offsets)
  return {
    maxStack := analysis.maxStack.toUInt16
    maxLocals := maxLocals.toUInt16
    bytes := encoded.bytes
    exceptions
    attributes := stackMap ++ lines ++ localVariables }

end Method

end ClosureConversion
