import ClosureConversion.Closure.Box
import ClosureConversion.Closure.Bridge
import ClosureConversion.Closure.Plan
import ClosureConversion.Code.Relocation

/-!
Contract: the code of a site inside the class of its closure.

Owns:
- where the closure finds its variables: in slots of its own, in fields, or in boxes that
  fields hold;
- the code that replaces each instruction of a site, and each site that nests in it.

Does not own: the rest of the class.
-/

namespace ClosureConversion

/-- What code of a site has around it inside the class of its closure. -/
structure ClosureScope where
  method : Method
  sites : List SitePlan
  /-- The position of the site among the sites. -/
  number : Nat
  self : SitePlan
  /-- The fields that hold the captures. -/
  fields : List UnqualifiedName
  /-- The slots of the parameters; the code that computes default values has none. -/
  parameterSlots : List UInt16
  /-- The slots of the variables of the site itself, by their slots in the method. -/
  locals : List (UInt16 × UInt16)
  place : Place

/-- Building closures, which may need more bridges. -/
abbrev Building := StateT BridgeTable (Except ClosureError)

namespace ClosureScope

/-- The field that holds a captured variable, with the code that pushes it. -/
def captureField (scope : ClosureScope) (key : VariableKey) :
    Except SiteFault (List (Instruction Nat) × Capture) :=
  match (scope.self.captures.captures.zip scope.fields).find? fun entry => entry.1.key = key with
  | none => .error (.untrackedCapture key)
  | some (capture, name) =>
      let field : FieldRef := ⟨scope.self.className, name, capture.storedType⟩
      .ok ([.load .reference 0, .field .getField field], capture)

/-- The slot of a variable of the site. -/
def localSlot (scope : ClosureScope) (slot : UInt16) : Except SiteFault UInt16 :=
  match scope.locals.lookup slot with
  | some moved => .ok moved
  | none => .error (.unclassifiedSlot slot)

/-- The slot of the parameter that a field stands for. -/
def parameterSlot? (scope : ClosureScope) (field : FieldRef) : Option UInt16 :=
  (scope.self.site.binding? field).bind fun position => scope.parameterSlots[position]?

/-- Whether a parameter is kept in a box. -/
def isBoxed (scope : ClosureScope) (field : FieldRef) : Bool :=
  scope.self.captures.boxedParameters.contains field

/-! ## Closures inside the closure -/

/-- Pushes what a closure inside this one captures: a parameter or a variable of the
site, or what this closure itself captured. -/
def loadForNested (scope : ClosureScope) (capture : Capture) :
    Except SiteFault (List (Instruction Nat)) :=
  let pushField : Except SiteFault (List (Instruction Nat)) := do
    let (push, _) ← scope.captureField capture.key
    return push
  match capture.key with
  | .parameter binder field =>
      if binder = scope.number then
        match scope.parameterSlot? field with
        | some slot => .ok [.load (.ofType capture.storedType) slot]
        | none => .error (.unavailableParameter field.name)
      else
        pushField
  | .local slot start =>
      if scope.self.site.declares start then do
        let moved ← scope.localSlot slot
        return [.load (.ofType capture.type) moved]
      else
        pushField
  | .this => pushField

/-- The code that makes a closure inside this one. -/
def constructNested (scope : ClosureScope) (number : Nat) :
    Except SiteFault (List (Instruction Nat)) :=
  match scope.sites[number]? with
  | some nested => nested.construct scope.loadForNested
  | none => .ok []

/-! ## Variables -/

/-- What an access does to the box of a variable. -/
def boxOperation (instruction : Instruction Nat) (mode : AccessMode) : BoxOperation :=
  match instruction, mode with
  | .increment _ amount, _ => .increment amount
  | _, .store => .store
  | _, _ => .load

/-- The code for an access to a captured variable. -/
def captureCode (scope : ClosureScope) (key : VariableKey) (instruction : Instruction Nat)
    (mode : AccessMode) : Except SiteFault (List (Instruction Nat)) := do
  let (push, capture) ← scope.captureField key
  if capture.mutable then
    return (boxOperation instruction mode).code push capture.type
  else if mode = .load then
    return push
  else
    throw (.captureAssigned capture.name)

/-- The code for an access to a variable of the site itself. -/
def internalCode (scope : ClosureScope) (instruction : Instruction Nat) (slot : UInt16) :
    Except SiteFault (List (Instruction Nat)) := do
  let moved ← scope.localSlot slot
  return (instruction.relocate? moved).toList

/-- The code for an access to a slot by the instruction of an index. -/
def localCode (scope : ClosureScope) (index : Nat) (instruction : Instruction Nat)
    (access : LocalAccess) : Except SiteFault (List (Instruction Nat)) :=
  match scope.method.variableUse access.slot index access.mode with
  | .this => do
      if access.mode ≠ .load then throw .thisReassignedInside
      let (push, _) ← scope.captureField .this
      return push
  | .declared entry =>
      if scope.self.site.declares entry.start then scope.internalCode instruction access.slot
      else scope.captureCode (.local entry.slot entry.start) instruction access.mode
  | .parameter slot => scope.captureCode (.local slot 0) instruction access.mode
  | .unknown => scope.internalCode instruction access.slot

/-- The code for reading or writing a parameter of a closure around this one. -/
def outerParameterCode (scope : ClosureScope) (binder : Nat) (field : FieldRef)
    (isWrite : Bool) : Except SiteFault (List (Instruction Nat)) := do
  let (push, capture) ← scope.captureField (.parameter binder field)
  if capture.mutable then
    return (if isWrite then BoxOperation.store else .load).code push field.type
  else if isWrite then
    throw (.readOnlyParameter field.name)
  else
    return push

/-- The code for reading or writing a parameter of the closure. -/
def ownParameterCode (scope : ClosureScope) (field : FieldRef) (isWrite : Bool) :
    Except SiteFault (List (Instruction Nat)) :=
  match scope.parameterSlot? field with
  | none => .error (.usedInOwnDefault field.name)
  | some slot =>
      if scope.isBoxed field then
        .ok ((if isWrite then BoxOperation.store else .load).code
          [.load .reference slot] field.type)
      else if isWrite then .ok [.store (.ofType field.type) slot]
      else .ok [.load (.ofType field.type) slot]

/-- The sites of the method. -/
def lambdaSites (scope : ClosureScope) : List LambdaSite :=
  scope.sites.map SitePlan.site

/-- The code for an access to a field that stands for a parameter. -/
def parameterCode (scope : ClosureScope) (binder : Nat) (field : FieldRef) (isWrite : Bool) :
    Except SiteFault (List (Instruction Nat)) :=
  if binder = scope.number then scope.ownParameterCode field isWrite
  else scope.outerParameterCode binder field isWrite

/-! ## Code -/

/-- The instruction itself, whose jumps have to stay in the span. -/
def plainCode (span : Span) (index : Nat) (instruction : Instruction Nat) :
    Except SiteFault (List (Instruction Nat)) :=
  match instruction.targets.find? fun target => !span.touches target with
  | some target => .error (.jumpLeaves index target)
  | none => .ok [instruction]

/-- The code for an instruction that accesses no variable. -/
def otherCode (span : Span) (index : Nat) (instruction : Instruction Nat)
    (table : BridgeTable) : Except SiteFault (List (Instruction Nat) × BridgeTable) := do
  match ← table.redirect instruction with
  | (some bridge, table) => return ([.invoke .static bridge], table)
  | (none, table) => return (← plainCode span index instruction, table)

/-- The code for the instruction of an index of the span. -/
def instructionCode (scope : ClosureScope) (span : Span) (index : Nat)
    (instruction : Instruction Nat) (table : BridgeTable) :
    Except SiteFault (List (Instruction Nat) × BridgeTable) :=
  match instruction.localAccess? with
  | some access => do return (← scope.localCode index instruction access, table)
  | none =>
      match staticField? instruction with
      | some (field, isWrite) =>
          match binder? scope.lambdaSites scope.number field with
          | some binder => do return (← scope.parameterCode binder field isWrite, table)
          | none => otherCode span index instruction table
      | none => otherCode span index instruction table

/-- The code for a piece of the span. -/
def pieceCode (scope : ClosureScope) (span : Span) (piece : Piece) (table : BridgeTable) :
    Except ClosureError (List (Instruction Nat) × BridgeTable) :=
  match piece with
  | .site number _ =>
      ((scope.constructNested number).map fun code => (code, table)).mapError
        scope.place.malformed
  | .instruction index =>
      match scope.method.instructions[index]? with
      | none => .ok ([], table)
      | some instruction =>
          (scope.instructionCode span index instruction table).mapError
            (scope.place.atLine (scope.method.lineAt? index)).malformed

/-- The code that replaces a span of the site. -/
def translate (scope : ClosureScope) (span : Span) : Building (List Replacement) :=
  (piecesOf scope.lambdaSites (some scope.number) span).mapM fun piece => do
    let code ← scope.pieceCode span piece
    return ⟨piece.span, code⟩

end ClosureScope

end ClosureConversion
