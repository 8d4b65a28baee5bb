import ClosureConversion.Closure.Convention
import ClosureConversion.Closure.Site
import ClosureConversion.Flow.Analysis

/-!
Contract: finding the sites of a method.

Owns:
- the calls of factories;
- which instructions push each argument of a call, jumps between them included, and
  rejecting arguments that cannot be told apart from the code around them;
- what the arguments bind;
- how sites nest, and which exception handlers may stand inside them.

Does not own: what the code of a site uses.
-/

namespace ClosureConversion

/-! ## Calls of factories -/

/-- The static method of a class that an instruction calls. -/
def staticCall? : Instruction Nat → Option (BinaryName × MethodRef)
  | .invoke .static method =>
      match method.owner with
      | .object owner => some (owner, method)
      | _ => none
  | _ => none

/-- The calls of factories in a method. -/
def factoryCalls {Memory : Type} (method : Method) (hierarchy : Hierarchy)
    (convention : Convention Memory) : Deciding Memory (List Nat) :=
  method.instructions.toList.zipIdx.filterMapM fun (instruction, index) => do
    match staticCall? instruction with
    | some (owner, called) =>
        if ← convention.isFactory hierarchy owner called.name called.type then
          return some index
        else
          return none
    | none => return none

/-! ## Arguments -/

namespace FlowAnalysis

/-- The last instruction before an index at which the operand stack has a depth. -/
def lastAtDepth? (analysis : FlowAnalysis) (depth : Nat) : Nat → Option Nat
  | 0 => none
  | index + 1 =>
      if analysis.stackDepth? index = some depth then some index
      else analysis.lastAtDepth? depth index

/-- The last instruction before an index at which the operand stack has a depth. -/
def lastAtDepth (analysis : FlowAnalysis) (depth index : Nat) : Except SiteFault Nat :=
  match analysis.lastAtDepth? depth index with
  | some found => .ok found
  | none => .error (.noSuchDepth index depth)

end FlowAnalysis

/-- Whether an index lies after the start of a span, its end included. -/
def isInto (start stop target : Nat) : Bool :=
  start < target && target ≤ stop

/-- The conditional jumps before an index with a target that passes a test. -/
def branchesBefore (code : Array (Instruction Nat)) (index : Nat) (test : Nat → Bool) :
    List Nat :=
  ((code.extract 0 index).toList.zipIdx.filter fun (instruction, _) =>
    instruction.isBranch && instruction.targets.any test).map Prod.snd

/-- Whether the instruction before an index jumps over the code from the index on, to
somewhere in the span or to its end. -/
def endsBranch (code : Array (Instruction Nat)) (start stop : Nat) : Bool :=
  match start with
  | 0 => false
  | before + 1 =>
      match code[before]? with
      | some (.goto target) => isInto start stop target
      | _ => false

/-- The conditional jumps before an argument that belong to it: those that jump into it,
and, if it seems to begin with the second branch of a conditional, those that jump to
that branch. -/
def argumentBranches (code : Array (Instruction Nat)) (start stop : Nat) :
    Except SiteFault (List Nat) :=
  let inside := branchesBefore code start (isInto start stop)
  if endsBranch code start stop then
    match branchesBefore code start (· = start) with
    | [] => .error (.unclassifiable start)
    | branches => .ok (inside ++ branches)
  else
    .ok inside

/-- The earliest start of the operands of several jumps, or the given one. -/
def earliestOperand (analysis : FlowAnalysis) (depth start : Nat) (branches : List Nat) :
    Except SiteFault Nat :=
  branches.foldlM (fun earliest branch => do
    return min earliest (← analysis.lastAtDepth depth branch)) start

/-- Extends an argument to the front until no conditional jump before it belongs to it. -/
def extendArgument (code : Array (Instruction Nat)) (analysis : FlowAnalysis)
    (stop depth start : Nat) : Except SiteFault Nat :=
  match argumentBranches code start stop with
  | .error fault => .error fault
  | .ok [] => .ok start
  | .ok (branch :: branches) =>
      match earliestOperand analysis depth start (branch :: branches) with
      | .error fault => .error fault
      | .ok earliest =>
          if earliest < start then extendArgument code analysis stop depth earliest
          else .error (.unclassifiable start)
termination_by start

/-- Whether a jump is on one side of the boundary of a span with its target: a jump
inside may go to the end of the span, and one outside to its start. -/
def staysOnSide (span : Span) (index target : Nat) : Bool :=
  if span.contains index then span.touches target
  else target ≤ span.start || span.stop < target

/-- The first jump across the boundary of a span. -/
def crossingJump? (code : Array (Instruction Nat)) (span : Span) : Option SiteFault :=
  code.toList.zipIdx.findSome? fun (instruction, index) =>
    (instruction.targets.find? fun target => !staysOnSide span index target).map fun target =>
      .crossingJump instruction.mnemonic index target span

/-- The start of the argument that ends before an index: it begins at a depth of the
operand stack, and no jump leads into it or out of it. -/
def argumentStart (code : Array (Instruction Nat)) (analysis : FlowAnalysis)
    (stop depth : Nat) : Except SiteFault Nat := do
  let last ← analysis.lastAtDepth depth stop
  let start ← extendArgument code analysis stop depth last
  match crossingJump? code ⟨start, stop⟩ with
  | some fault => throw fault
  | none => return start

/-- The arguments of a call up to an index, in order, for so many of them, the first of
which begins at a depth of the operand stack. They are found from the last one
backwards. -/
def argumentSpans (code : Array (Instruction Nat)) (analysis : FlowAnalysis) (depth : Nat) :
    Nat → Nat → Except SiteFault (List Span)
  | 0, _ => .ok []
  | count + 1, stop => do
      let start ← argumentStart code analysis stop (depth + count)
      let before ← argumentSpans code analysis depth count start
      return before ++ [⟨start, stop⟩]

/-- The arguments of the call of a factory. -/
def callArguments (method : Method) (analysis : FlowAnalysis) (call : Nat)
    (factory : MethodRef) : Except SiteFault (List Span) := do
  let count := factory.type.parameters.length
  match analysis.stackDepth? call with
  | none => throw (.unreachable call)
  | some depth =>
      if depth < count then throw (.shallowStack count factory)
      argumentSpans method.instructions analysis (depth - count) count call

/-! ## Bindings -/

/-- The field that an argument may bind, with the instructions that push a default value
if it has one: the argument reads the field, or it assigns a value to the field and
pushes that. -/
def bindingShape? (code : Array (Instruction Nat)) (span : Span) :
    Option (FieldRef × Option Span) :=
  match (instructionsIn code span).reverse with
  | [.field .getStatic field] => some (field, none)
  | .field .putStatic field :: .op (.stack operation) :: _ :: _ =>
      if operation = .dup || operation = .dup2 then
        some (field, some ⟨span.start, span.stop - 2⟩)
      else
        none
  | _ => none

/-- What an argument binds. -/
def readParameter {Memory : Type} (method : Method) (hierarchy : Hierarchy)
    (convention : Convention Memory) (span : Span) : Deciding Memory SiteParameter := do
  match bindingShape? method.instructions span with
  | none => return ⟨none, span, none⟩
  | some (field, default) =>
      if ← convention.isParameter hierarchy field.owner field.name then
        return ⟨some field, span, default⟩
      else
        return ⟨none, span, none⟩

/-- Whether one of several parameters binds the field that another one binds. -/
def rebinds? (parameters : List SiteParameter) (parameter : SiteParameter) :
    Option FieldRef :=
  parameter.field.filter fun field => parameters.any fun other => other.field = some field

/-- What the arguments bind, each another field. -/
def readParameters {Memory : Type} (method : Method) (hierarchy : Hierarchy)
    (convention : Convention Memory) (place : Place) (spans : List Span) :
    Deciding Memory (List SiteParameter) :=
  spans.foldlM (fun parameters span => do
    let parameter ← readParameter method hierarchy convention span
    match rebinds? parameters parameter with
    | some field => throw (place.malformed (.repeatedBinding field.name))
    | none => return parameters ++ [parameter]) []

/-! ## Sites -/

/-- The factory that the instruction of an index calls. -/
def factoryAt (method : Method) (call : Nat) : Except SiteFault MethodRef :=
  match method.instructions[call]? with
  | some (.invoke .static factory) => .ok factory
  | some other => .error (.notFactoryCall other.mnemonic)
  | none => .error (.notFactoryCall "nothing")

/-- The site of a call of a factory, without its number and its place among others. -/
def readSite {Memory : Type} (method : Method) (analysis : FlowAnalysis)
    (hierarchy : Hierarchy) (convention : Convention Memory) (place : Place) (call : Nat) :
    Deciding Memory LambdaSite := do
  let checked {α : Type} (result : Except SiteFault α) : Deciding Memory α :=
    MonadExcept.ofExcept (result.mapError place.malformed)
  let factory ← checked (factoryAt method call)
  let _ ← MonadExcept.ofExcept (place.locateBytecode (analysis.requireReachable call))
  match producedType? factory method.instructions[call + 1]? with
  | none => throw (place.malformed (.unknownTarget factory))
  | some (target, absorbsCast) =>
      let spans ← checked (callArguments method analysis call factory)
      let parameters ← readParameters method hierarchy convention place spans.dropLast
      let site : LambdaSite := {
        id := 0
        line := none
        factory
        target
        parameters
        body := spans.getLast?.getD ⟨call, call⟩
        call
        stop := if absorbsCast then call + 2 else call + 1
        parent := none }
      return { site with line := method.lineAt? site.start }

/-- Sites are in order if the first one starts earlier, or ends later. -/
def LambdaSite.isBefore (first second : LambdaSite) : Bool :=
  first.start < second.start || (first.start = second.start && second.stop ≤ first.stop)

/-- What is wrong with a site inside another one. -/
def nestingFault? (outer inner : LambdaSite) : Option SiteFault :=
  if outer.stop < inner.stop then some (.partialOverlap outer.span inner.span)
  else if inner.start < outer.body.start || outer.body.stop < inner.stop then
    some .nestedInParameter
  else none

/-- Finds the parent of every site, for sites in order from a number on. The sites that
are open are those around the previous one, innermost first. -/
def linkFrom (place : Place) (number : Nat) (opened : List (LambdaSite × Nat)) :
    List LambdaSite → Except ClosureError (List LambdaSite)
  | [] => .ok []
  | site :: sites => do
      let opened := opened.dropWhile fun (outer, _) => outer.stop ≤ site.start
      let parent ←
        match opened with
        | [] => pure none
        | (outer, outerNumber) :: _ =>
            match nestingFault? outer site with
            | some fault => throw ((place.atLine outer.line).malformed fault)
            | none => pure (some outerNumber)
      let linked ← linkFrom place (number + 1) ((site, number) :: opened) sites
      return { site with parent } :: linked

/-- Finds the parent of every site, for sites in order. -/
def linkParents (place : Place) (sites : List LambdaSite) :
    Except ClosureError (List LambdaSite) :=
  linkFrom place 0 [] sites

/-- Whether an index lies strictly between the ends of a site. -/
def LambdaSite.isCutAt (site : LambdaSite) (index : Nat) : Bool :=
  site.start < index && index < site.stop

/-- Whether an exception handler crosses the boundary of a site. One inside the body does
not. -/
def crossesSite (range : ExceptionRange Nat) (site : LambdaSite) : Bool :=
  !range.isWithin site.body &&
    (site.contains range.handler || site.isCutAt range.start || site.isCutAt range.stop)

/-- Fails if an exception handler crosses the boundary of a site. -/
def checkHandlers (method : Method) (place : Place) (sites : List LambdaSite) :
    Except ClosureError Unit :=
  method.handlers.toList.forM fun range =>
    match sites.find? (crossesSite range) with
    | some site => throw ((place.atLine site.line).malformed (.crossingHandler range))
    | none => pure ()

/-- Numbers the sites from a number on. -/
def numberFrom (first : Nat) (sites : List LambdaSite) : List LambdaSite :=
  sites.zipIdx.map fun (site, offset) => { site with id := first + offset }

/-- The sites of several calls of factories, in order: outer sites come before those that
nest in them. -/
def detectSites {Memory : Type} (method : Method) (analysis : FlowAnalysis)
    (calls : List Nat) (firstId : Nat) (hierarchy : Hierarchy)
    (convention : Convention Memory) (place : Place) : Deciding Memory (List LambdaSite) := do
  let sites ← calls.mapM fun call =>
    readSite method analysis hierarchy convention (place.atLine (method.lineAt? call)) call
  let sites ← MonadExcept.ofExcept (linkParents place (sites.mergeSort LambdaSite.isBefore))
  MonadExcept.ofExcept (checkHandlers method place sites)
  return numberFrom firstId sites

end ClosureConversion
