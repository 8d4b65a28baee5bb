import ClosureConversion.Closure.SiteDetection

/-!
Contract: which variables of the method around them the closures of a method use.

Owns:
- what a closure captures, which slots its code keeps to itself, and what it provides
  to the closures that nest in it;
- which captured variables are assigned after their first value, so that all have to
  share one box.

Does not own: the code that reads and writes captured variables.
-/

namespace ClosureConversion

/-- Where a closure gets a captured variable from. -/
inductive Origin where
  | outerLocal
  | outerParameter
  /-- A parameter of a closure around this one. -/
  | parentParameter
  /-- The receiver of the method. -/
  | enclosingField
deriving DecidableEq, Repr

/-- A variable that a closure captures. -/
structure Capture where
  key : VariableKey
  name : UnqualifiedName
  type : FieldType
  origin : Origin
  mutable : Bool := false
deriving DecidableEq, Repr

namespace Capture

/-- The type of the field that keeps the capture: a mutable variable is kept in an array
of one element. -/
def storedType (capture : Capture) : FieldType :=
  if capture.mutable then capture.type.arrayOf else capture.type

end Capture

/-- What the closure of a site uses. -/
structure SiteCaptures where
  captures : List Capture := []
  /-- The slots that hold variables of the closure itself, in order, and whether one of
  them takes two slots. -/
  internal : List (UInt16 × Bool) := []
  /-- The parameters that closures inside this one assign. -/
  boxedParameters : List FieldRef := []
deriving DecidableEq, Repr

/-- A variable of the method that is kept in a box. -/
structure BoxedLocal where
  key : VariableKey
  slot : UInt16
  /-- The slot that holds the box. -/
  boxSlot : UInt16
  type : FieldType
  isParameter : Bool
deriving DecidableEq, Repr

/-- What the closures of a method use, and the boxes that they share with it. -/
structure MethodCaptures where
  sites : List SiteCaptures := []
  boxes : List BoxedLocal := []
deriving DecidableEq, Repr

/-- The box of a variable. -/
def boxOf? (boxes : List BoxedLocal) (key : VariableKey) : Option BoxedLocal :=
  boxes.find? fun boxed => boxed.key = key

/-! ## What one site uses -/

/-- What was found out about a site: what it captures, which slots it keeps to itself,
what the sites that nest in it capture from it, and which parameters its code assigns. -/
structure SiteUse where
  captures : List Capture := []
  internal : List (UInt16 × Bool) := []
  provided : List VariableKey := []
  written : List VariableKey := []
deriving DecidableEq, Repr

/-- Notes that a slot is used, in the order of slots. It takes two slots if any value in
it does. -/
def insertSlot (slot : UInt16) (wide : Bool) : List (UInt16 × Bool) → List (UInt16 × Bool)
  | [] => [(slot, wide)]
  | (first, firstWide) :: rest =>
      if slot < first then (slot, wide) :: (first, firstWide) :: rest
      else if slot = first then (first, firstWide || wide) :: rest
      else (first, firstWide) :: insertSlot slot wide rest

namespace SiteUse

/-- Notes a capture, unless its variable is captured already. -/
def capture (use : SiteUse) (capture : Capture) : SiteUse :=
  if use.captures.any fun other => other.key = capture.key then use
  else { use with captures := use.captures ++ [capture] }

/-- Notes that a site that nests in this one captures a variable of it. -/
def provide (use : SiteUse) (key : VariableKey) : SiteUse :=
  if use.provided.contains key then use
  else { use with provided := use.provided ++ [key] }

/-- Notes that a slot holds a variable of the closure itself. -/
def keep (use : SiteUse) (slot : UInt16) (wide : Bool) : SiteUse :=
  { use with internal := insertSlot slot wide use.internal }

/-- Notes that a parameter is assigned. -/
def write (use : SiteUse) (key : VariableKey) : SiteUse :=
  { use with written := key :: use.written }

/-- What a site captures from the site around it is a variable of that site, or that site
captures it as well. -/
def foldCapture (site : LambdaSite) (number : Nat) (use : SiteUse) (captured : Capture) :
    SiteUse :=
  match captured.key with
  | .parameter binder _ =>
      if binder = number then use.provide captured.key else use.capture captured
  | .local slot start =>
      if site.declares start then
        (use.provide captured.key).keep slot captured.type.isWide
      else
        use.capture captured
  | .this => use.capture captured

/-- Adds what a site that nests in this one uses. -/
def foldNested (site : LambdaSite) (number : Nat) (use nested : SiteUse) : SiteUse :=
  nested.captures.foldl (foldCapture site number) use

end SiteUse

/-- The receiver of a method as a capture. -/
def receiverCapture (method : Method) : Capture where
  key := .this
  name := .outerThis
  type := .object method.owner
  origin := .enclosingField

/-- A variable of a method as a capture. -/
def declaredCapture (method : Method) (entry : LocalVariable Nat) : Capture where
  key := .local entry.slot entry.start
  name := entry.name
  type := entry.type
  origin := if method.isFormalParameter entry.slot entry.start then .outerParameter else .outerLocal

/-- The name of a parameter without debug information. -/
def parameterName (slot : UInt16) : UnqualifiedName :=
  UnqualifiedName.append ⟨"arg", by decide⟩ (.ofNat slot.toNat)

/-- A parameter of a method without debug information as a capture. -/
def parameterCapture (slot : UInt16) (type : FieldType) : Capture where
  key := .local slot 0
  name := parameterName slot
  type := type
  origin := .outerParameter

/-- Whether an instruction of the site assigns a slot. -/
def storesInside (method : Method) (site : LambdaSite) (slot : UInt16) : Bool :=
  (instructionsIn method.instructions site.span).any fun instruction =>
    match instruction.localAccess? with
    | some access => access.mode = .store && access.slot = slot
    | none => false

/-- Notes an access to a slot by the instruction of an index. -/
def useLocal (method : Method) (site : LambdaSite) (index : Nat) (access : LocalAccess)
    (use : SiteUse) : Except Fault SiteUse :=
  match method.variableUse access.slot index access.mode with
  | .this => .ok (use.capture (receiverCapture method))
  | .declared entry =>
      if site.declares entry.start then
        if site.stop < entry.stop then .error (.malformedSite (.usedAfterwards entry.name))
        else .ok (use.keep access.slot (entry.type.isWide || access.kind.slots = 2))
      else
        .ok (use.capture (declaredCapture method entry))
  | .parameter slot =>
      match method.parameterType? slot with
      | some type => .ok (use.capture (parameterCapture slot type))
      | none => .error (.malformedSite (.insideParameter slot))
  | .unknown =>
      if storesInside method site access.slot then
        .ok (use.keep access.slot (access.kind.slots = 2))
      else
        .error (.missingDebugInfo (.noVariable access.slot index))

/-- A parameter of a closure around this one as a capture. -/
def boundCapture (binder : Nat) (field : FieldRef) : Capture where
  key := .parameter binder field
  name := field.name
  type := field.type
  origin := .parentParameter

/-- Notes an access to a field that stands for a parameter. The instructions that push
the default values of a site do not see the parameters of the site. -/
def useParameter (sites : List LambdaSite) (number : Nat) (inDefault : Bool)
    (field : FieldRef) (isWrite : Bool) (use : SiteUse) : Except SiteFault SiteUse :=
  match binder? sites number field with
  | none => .error (.unboundParameter field.name)
  | some binder =>
      if binder = number && inDefault then .error (.usedInOwnDefault field.name)
      else
        let use := if binder = number then use else use.capture (boundCapture binder field)
        .ok (if isWrite then use.write (.parameter binder field) else use)

/-- The static field that an instruction reads or writes, and whether it writes it. -/
def staticField? : Instruction Nat → Option (FieldRef × Bool)
  | .field .getStatic field => some (field, false)
  | .field .putStatic field => some (field, true)
  | _ => none

/-- Whether the instruction leaves the method. -/
def isReturn : Instruction Nat → Bool
  | .op (.leave _) => true
  | _ => false

section Walk

variable {Memory : Type} (method : Method) (sites : List LambdaSite) (hierarchy : Hierarchy)
  (convention : Convention Memory)

/-- Notes what an instruction of a site uses. -/
def useInstruction (site : LambdaSite) (number : Nat) (inDefault : Bool) (place : Place)
    (use : SiteUse) (index : Nat) : Deciding Memory SiteUse := do
  match method.instructions[index]? with
  | none => return use
  | some instruction =>
      let place := place.atLine (method.lineAt? index)
      let use ←
        match instruction.localAccess? with
        | some access =>
            MonadExcept.ofExcept (place.locate (useLocal method site index access use))
        | none => pure use
      match staticField? instruction with
      | some (field, isWrite) =>
          if ← convention.isParameter hierarchy field.owner field.name then
            MonadExcept.ofExcept
              ((useParameter sites number inDefault field isWrite use).mapError place.malformed)
          else
            return use
      | none =>
          if isReturn instruction then throw (place.malformed .returnInside)
          return use

/-- Notes what a piece of a site uses. The sites that nest in it are known already. -/
def usePiece (known : Array SiteUse) (site : LambdaSite) (number : Nat) (inDefault : Bool)
    (place : Place) (use : SiteUse) : Piece → Deciding Memory SiteUse
  | .instruction index =>
      useInstruction method sites hierarchy convention site number inDefault place use index
  | .site nested _ => return use.foldNested site number (known.getD nested {})

/-- Notes what the instructions of a span of a site use. -/
def useSpan (known : Array SiteUse) (site : LambdaSite) (number : Nat) (inDefault : Bool)
    (place : Place) (use : SiteUse) (span : Span) : Deciding Memory SiteUse :=
  (piecesOf sites (some number) span).foldlM
    (usePiece method sites hierarchy convention known site number inDefault place) use

/-- What a site uses: first come the default values of its parameters, then its body. -/
def useOfSite (known : Array SiteUse) (site : LambdaSite) (number : Nat) (place : Place) :
    Deciding Memory SiteUse := do
  let use ← (site.parameters.filterMap SiteParameter.default).foldlM
    (useSpan method sites hierarchy convention known site number true place) {}
  let use ← useSpan method sites hierarchy convention known site number false place use site.body
  match site.parameters.findIdx? fun parameter => parameter.field.isNone with
  | some position => throw (place.malformed (.missingBinding position site.factory))
  | none => return use

/-- What every site uses. Sites are looked at from the last one backwards, so that those
that nest in a site are known before it. -/
def usesOfSites (place : Place) : Deciding Memory (Array SiteUse) :=
  sites.zipIdx.reverse.foldlM (fun known (site, number) => do
    let use ← useOfSite method sites hierarchy convention known site number
      (place.atLine site.line)
    return known.setIfInBounds number use) (Array.replicate sites.length {})

end Walk

/-! ## Mutable variables -/

/-- Whether a variable is assigned after it got its first value, given the variables that
the method writes and the parameters of closures that are assigned. -/
def isMutable (method : Method) (stored written : List VariableKey) (key : VariableKey) :
    Bool :=
  match key with
  | .parameter _ _ => written.contains key
  | .this => stored.contains key
  | .local slot start =>
      (if method.isFormalParameter slot start then 1 else 2) ≤ stored.count key

/-- The parameter of the site that needs a box, if a variable that is provided to the
sites that nest in it is one and is mutable. Other variables of the site may not be. -/
def boxedParameter? (isMutable : VariableKey → Bool) (key : VariableKey) :
    Except SiteFault (Option FieldRef) :=
  if isMutable key then
    match key with
    | .parameter _ field => .ok (some field)
    | .local slot _ => .error (.innerVariableShared slot)
    | .this => .ok none
  else
    .ok none

/-- Marks the captures of mutable variables. The receiver may not be one. -/
def markMutable (isMutable : VariableKey → Bool) (captures : List Capture) :
    Except SiteFault (List Capture) :=
  captures.mapM fun capture => do
    if isMutable capture.key && capture.key = .this then throw .thisReassigned
    return { capture with mutable := isMutable capture.key }

/-- Captures in the order in which constructors take them: parameters of closures around
come first. -/
def constructorOrder (captures : List Capture) : List Capture :=
  captures.filter (·.origin = .parentParameter) ++ captures.filter (·.origin ≠ .parentParameter)

/-- What a site uses, with mutable variables told apart. -/
def SiteUse.settle (isMutable : VariableKey → Bool) (use : SiteUse) :
    Except SiteFault SiteCaptures := do
  let captures ← markMutable isMutable use.captures
  let boxed ← use.provided.mapM (boxedParameter? isMutable)
  return {
    captures := constructorOrder captures
    internal := use.internal
    boxedParameters := boxed.filterMap id }

/-! ## Boxes -/

/-- Gives a mutable variable of the method a box, unless it has one already. Boxes are
kept in slots after those of the method. -/
def addBox (method : Method) (boxes : List BoxedLocal) (capture : Capture) :
    Except Fault (List BoxedLocal) :=
  match capture.key with
  | .local slot start =>
      if !capture.mutable || (boxOf? boxes capture.key).isSome then .ok boxes
      else
        let boxSlot := method.maxLocals.toNat + boxes.length
        if 65535 < boxSlot then .error (.bytecode (.tooManyLocals boxSlot))
        else
          .ok (boxes ++ [{
            key := capture.key
            slot
            boxSlot := boxSlot.toUInt16
            type := capture.type
            isParameter := method.isFormalParameter slot start }])
  | _ => .ok boxes

/-- Gives every mutable variable of the method that a site captures a box. -/
def boxesFor (method : Method) (sites : List SiteCaptures) : Except Fault (List BoxedLocal) :=
  (sites.flatMap SiteCaptures.captures).foldlM (addBox method) []

/-- What the closures of a method use. -/
def analyzeCaptures {Memory : Type} (method : Method) (sites : List LambdaSite)
    (hierarchy : Hierarchy) (convention : Convention Memory) (place : Place) :
    Deciding Memory MethodCaptures := do
  match sites with
  | [] => return {}
  | first :: _ =>
      if !method.hasVariableTable && 0 < method.maxLocals then
        throw ((place.atLine first.line).fail (.missingDebugInfo .noVariableTable))
      let uses ← usesOfSites method sites hierarchy convention place
      let isMutable := isMutable method method.writtenVariables
        (uses.toList.flatMap SiteUse.written)
      let settled ← (sites.zip uses.toList).mapM fun (site, use) =>
        MonadExcept.ofExcept
          ((use.settle isMutable).mapError (place.atLine site.line).malformed)
      let boxes ← MonadExcept.ofExcept (place.locate (boxesFor method settled))
      return ⟨settled, boxes⟩

end ClosureConversion
