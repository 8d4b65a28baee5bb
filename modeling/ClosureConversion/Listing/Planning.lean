import ClosureConversion.Listing.Closure

/-!
Contract: the steps of converting the closures of one method, as a listing.

Owns: listing what every step gave, up to the first one that fails.

Does not own: the steps.
-/

namespace ClosureConversion.Listing

/-- How errors are listed. -/
structure ErrorListing where
  bytecode : BytecodeError → Data
  closure : ClosureError → Data

/-- What the steps gave so far, the last one first, and what was decided on the way. -/
structure StepRecord where
  decisions : Decisions
  fields : List (String × Data)

/-- Steps, which fail with a listed error. -/
abbrev Steps := EStateM Data StepRecord

namespace Steps

/-- Lists what a step gave. -/
def tell {α : Type} [ToData α] (name : String) (value : α) : Steps Unit :=
  modify fun record => { record with fields := (name, toData value) :: record.fields }

/-- A step that may fail. -/
def attempt {ε α : Type} (describe : ε → Data) (result : Except ε α) : Steps α :=
  MonadExcept.ofExcept (result.mapError describe)

/-- A step that decides something. -/
def decide {α : Type} (errors : ErrorListing) (action : Deciding Decisions α) : Steps α :=
  fun record =>
    match action record.decisions with
    | .ok value decisions => .ok value { record with decisions }
    | .error error decisions => .error (errors.closure error) { record with decisions }

/-- All that was listed, with the error of the step that failed. -/
def listing (steps : Steps Unit) : Data :=
  match steps ⟨{}, []⟩ with
  | .ok _ record => .record record.fields
  | .error error record => .record (("stopped", error) :: record.fields)

end Steps

/-- A method to convert, with all that the steps need to know. -/
structure MethodConversion where
  method : Method
  owner : ClassDeclaration
  settings : Settings
  hierarchy : Hierarchy
  /-- The calls of factories to convert; if missing, all of them. -/
  calls : Option (List Nat)
  firstId : Nat

namespace MethodConversion

/-- The methods that a class file gives back. -/
def methodsOf (bytes : Bytes) : Except BytecodeError (List (Option Method)) := do
  let file ← ClassFile.ofBytes bytes
  file.methods.mapM (Method.ofMember? file)

/-- The class of a closure, with the methods that its class file gives back. -/
def closureListing (hierarchy : Hierarchy) (definition : ClassDefinition) :
    Except BytecodeError Data := do
  let methods ← methodsOf (← definition.toBytes hierarchy)
  return .record [("metadata", toData definition.declaration), ("units", toData methods)]

/-- The steps after planning. -/
def convert (conversion : MethodConversion) (errors : ErrorListing) (plan : MethodPlan) :
    Steps Unit := do
  let method := conversion.method
  let place := Place.ofMethod method
  let start : ClosureClasses :=
    ⟨conversion.hierarchy, BridgeTable.ofClass conversion.owner, []⟩
  let made ← Steps.attempt errors.closure (start.addMethod method plan .java8 place)
  Steps.tell "bridges" (bridges made.bridges)
  let rewritten ← Steps.attempt errors.closure (method.rewrite plan place)
  Steps.tell "rewritten" rewritten
  let closures ← Steps.attempt errors.bytecode
    (made.classes.mapM (closureListing made.hierarchy))
  Steps.tell "closures" closures

/-- The steps of planning. -/
def plan (conversion : MethodConversion) (errors : ErrorListing) : Steps MethodPlan := do
  let ⟨method, _, settings, hierarchy, _, firstId⟩ := conversion
  let place := Place.ofMethod method
  let convention := settings.convention
  let calls ←
    match conversion.calls with
    | some calls => pure calls
    | none => Steps.decide errors (factoryCalls method hierarchy convention)
  Steps.tell "calls" calls
  let analysis ← Steps.attempt errors.bytecode (method.analyze hierarchy)
  let indices := List.range method.instructions.size
  Steps.tell "depths" (indices.map analysis.stackDepth?)
  let sites ← Steps.decide errors
    (detectSites method analysis calls firstId hierarchy convention place)
  Steps.tell "sites" sites
  Steps.tell "scopes" (indices.map (scopeAt sites))
  let captures ← Steps.decide errors
    (analyzeCaptures method sites hierarchy convention place)
  Steps.tell "captures" captures
  let methods ← Steps.attempt errors.closure (abstractMethods sites hierarchy place)
  Steps.tell "sams" methods
  let names ← Steps.attempt errors.closure (classNames sites settings method.owner)
  Steps.tell "class_names" names
  let plan := MethodPlan.ofSteps sites captures methods names
  Steps.tell "constructors" (plan.sites.map SitePlan.constructorType)
  return plan

/-- What every step gave, up to the first one that fails. -/
def steps (conversion : MethodConversion) (errors : ErrorListing) : Data :=
  Steps.listing do
    let plan ← conversion.plan errors
    conversion.convert errors plan

end MethodConversion

end ClosureConversion.Listing
