import ClosureConversion.Closure.Adaptation
import ClosureConversion.Closure.Box
import ClosureConversion.Closure.Plan
import ClosureConversion.Code.Relocation

/-!
Contract: methods with their sites replaced.

Owns:
- making boxes where the method begins, and using them in place of the variables that
  closures share;
- making the closure of a site in place of the instructions of the site;
- the exception handlers, variables and lines that remain.

Does not own: the classes of the closures.
-/

namespace ClosureConversion

namespace MethodPlan

/-- Pushes what the closure of a site that nests in no other one captures. -/
def loadCapture (plan : MethodPlan) (capture : Capture) :
    Except SiteFault (List (Instruction Nat)) :=
  match capture.key with
  | .this => .ok [.load .reference 0]
  | .local slot _ =>
      match boxOf? plan.boxes capture.key with
      | some boxed => .ok [.load .reference boxed.boxSlot]
      | none => .ok [.load (.ofType capture.type) slot]
  | .parameter _ field => .error (.outermostParameter field.name)

/-- Makes a box, which holds the value of a parameter from the start. -/
def makeBox (boxed : BoxedLocal) : List (Instruction Nat) :=
  let value :=
    if boxed.isParameter then .load (.ofType boxed.type) boxed.slot else firstValue boxed.type
  newBox boxed.type [value] ++ [.store .reference boxed.boxSlot]

/-- What an instruction does to the box of a variable. -/
def boxOperation : Instruction Nat → BoxOperation
  | .increment _ amount => .increment amount
  | .store _ _ => .store
  | _ => .load

/-- The code for the instruction of an index. -/
def instructionCode (plan : MethodPlan) (method : Method) (index : Nat)
    (instruction : Instruction Nat) : List (Instruction Nat) :=
  match (method.variableKeyAt? index instruction).bind (boxOf? plan.boxes) with
  | some boxed =>
      (boxOperation instruction).code [.load .reference boxed.boxSlot] boxed.type
  | none => [instruction]

/-- The code for a piece of the method. -/
def pieceCode (plan : MethodPlan) (method : Method) :
    Piece → Except SiteFault (List (Instruction Nat))
  | .site number _ =>
      match plan.sites[number]? with
      | some site => site.construct plan.loadCapture
      | none => .ok []
  | .instruction index =>
      match method.instructions[index]? with
      | some instruction => .ok (plan.instructionCode method index instruction)
      | none => .ok []

/-- The code that replaces the code of the method. -/
def replacements (plan : MethodPlan) (method : Method) : Except SiteFault (List Replacement) :=
  (piecesOf plan.lambdaSites none ⟨0, method.instructions.size⟩).mapM fun piece => do
    let code ← plan.pieceCode method piece
    return ⟨piece.span, code⟩

/-- Whether an exception handler moved into the class of a closure. -/
def movedAway (plan : MethodPlan) (range : ExceptionRange Nat) : Bool :=
  plan.outermost.any fun site => range.span.isWithin site.span

/-- A variable at its new place, in its box if it has one, unless it moved into the class
of a closure. -/
def moveVariable? (plan : MethodPlan) (relocation : Relocation) (entry : LocalVariable Nat) :
    Option (LocalVariable Nat) :=
  if plan.outermost.any fun site => site.declares entry.start then none
  else
    let moved := entry.map relocation.place
    match boxOf? plan.boxes (.local entry.slot entry.start) with
    | some boxed => some { moved with slot := boxed.boxSlot, type := entry.type.arrayOf }
    | none => some moved

end MethodPlan

/-- The method with its sites replaced. -/
def Method.rewrite (method : Method) (plan : MethodPlan) (place : Place) :
    Except ClosureError Method := do
  let prologue := plan.boxes.flatMap MethodPlan.makeBox
  let replacements ← (plan.replacements method).mapError place.malformed
  let relocation := Relocation.ofReplacements 0 prologue.length replacements
  let maxLocals := method.maxLocals.toNat + plan.boxes.length
  if 65535 < maxLocals then throw (place.fail (.bytecode (.tooManyLocals maxLocals)))
  let kept := method.handlers.filter fun range => !plan.movedAway range
  return { method with
    instructions := (prologue ++ relocation.code replacements).toArray
    handlers := kept.map fun range => range.map relocation.place
    localVariables := method.localVariables.filterMap (plan.moveVariable? relocation)
    lines := (relocation.lines method.lines replacements).toArray
    maxLocals := maxLocals.toUInt16 }

end ClosureConversion
