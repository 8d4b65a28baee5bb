import ClosureConversion.BytecodeError
import ClosureConversion.Closure.Variable
import ClosureConversion.Code.Span

/-!
Contract: what can be wrong with the closures of a class, and where.

Owns:
- places in classes, as precise as they are known;
- the causes of errors and the wording of each.

Does not own: what can be wrong with a class file.
-/

namespace ClosureConversion

/-! ## Places -/

/-- A place in a class, as much of it as is known. -/
structure Place where
  owner : Option BinaryName := none
  method : Option (UnqualifiedName × MethodType) := none
  line : Option UInt16 := none
deriving DecidableEq, Repr

namespace Place

/-- A place of which nothing is known. -/
def unknown : Place := {}

/-- Somewhere in a class. -/
def ofClass (name : BinaryName) : Place where
  owner := some name

/-- Somewhere in a method. -/
def ofMethod (method : Method) : Place where
  owner := some method.owner
  method := some (method.name, method.type)

/-- The place at a line, if the line is known. -/
def atLine (place : Place) (line : Option UInt16) : Place :=
  { place with line := line.or place.line }

/-- The place with what is not known taken from another one. -/
def fillFrom (place outer : Place) : Place where
  owner := place.owner.or outer.owner
  method := place.method.or outer.method
  line := place.line.or outer.line

/-- The name of the class. -/
def ownerText (place : Place) : String :=
  match place.owner with
  | some name => name.text
  | none => "<unknown class>"

/-- The name and the type of the method. -/
def methodText (place : Place) : String :=
  match place.method with
  | some (name, type) => s!".{name}{type.descriptor}"
  | none => ""

/-- The number of the line. -/
def lineText (place : Place) : String :=
  match place.line with
  | some line => s!" (line {line})"
  | none => ""

/-- The written form of a place. -/
def describe (place : Place) : String :=
  place.ownerText ++ place.methodText ++ place.lineText

end Place

/-! ## Causes -/

/-- What is wrong with a lambda site. -/
inductive SiteFault where
  | notFactoryCall (mnemonic : String)
  | unknownTarget (factory : MethodRef)
  | shallowStack (arguments : Nat) (factory : MethodRef)
  | repeatedBinding (parameter : UnqualifiedName)
  | unreachable (index : Nat)
  /-- No instruction before the index starts at the depth of the operand stack. -/
  | noSuchDepth (index depth : Nat)
  | unclassifiable (start : Nat)
  | crossingJump (mnemonic : String) (index target : Nat) (argument : Span)
  | partialOverlap (outer inner : Span)
  | nestedInParameter
  | crossingHandler (range : ExceptionRange Nat)
  | thisReassigned
  | innerVariableShared (slot : UInt16)
  | missingBinding (position : Nat) (factory : MethodRef)
  | returnInside
  | usedAfterwards (variable_ : UnqualifiedName)
  | insideParameter (slot : UInt16)
  | unboundParameter (parameter : UnqualifiedName)
  | usedInOwnDefault (parameter : UnqualifiedName)
  | inconvertible (source target : FieldType)
  | privateConstructor (owner : BinaryName)
  | superCall (method : MethodRef)
  | noConstructor (target : BinaryName)
  | noDefault (position : Nat) (factory : MethodRef)
  | unboundClosureParameter
  | untrackedCapture (key : VariableKey)
  | unclassifiedSlot (slot : UInt16)
  | unavailableParameter (parameter : UnqualifiedName)
  | thisReassignedInside
  | captureAssigned (variable_ : UnqualifiedName)
  | jumpLeaves (index target : Nat)
  | readOnlyParameter (parameter : UnqualifiedName)
  | outermostParameter (parameter : UnqualifiedName)
  /-- A fault in the words of whoever found it. -/
  | described (text : String)
deriving DecidableEq, Repr

/-- The wording of a fault. -/
def SiteFault.message : SiteFault → String
  | .notFactoryCall mnemonic => s!"expected a factory call, found {mnemonic}"
  | .unknownTarget factory => s!"cannot tell which type {factory.describe} produces"
  | .shallowStack arguments factory =>
      s!"stack is too shallow for the {arguments} arguments of {factory.describe}"
  | .repeatedBinding parameter => s!"parameter {parameter} is already bound"
  | .unreachable index => s!"instruction {index} is unreachable"
  | .noSuchDepth index depth =>
      s!"no instruction before {index} starts at stack depth {depth}"
  | .unclassifiable start => s!"unclassifiable conditional shape before instruction {start}"
  | .crossingJump mnemonic index target argument =>
      s!"unclassifiable conditional shape: {mnemonic} at {index} jumps to {target} " ++
        s!"across argument {argument.render}"
  | .partialOverlap outer inner =>
      s!"lambda sites {outer.render} and {inner.render} partially overlap"
  | .nestedInParameter => "lambda nested inside a parameter of another lambda"
  | .crossingHandler range =>
      s!"exception handler {range.span.render} -> {range.handler} crosses a lambda boundary"
  | .thisReassigned => "`this` is reassigned and captured"
  | .innerVariableShared slot =>
      s!"local in slot {slot} is declared and modified inside a lambda, and " ++
        "captured by a nested lambda"
  | .missingBinding position factory =>
      s!"missing binding for parameter #{position + 1} of {factory.describe}"
  | .returnInside => "return inside a lambda"
  | .usedAfterwards name => s!"variable {name} is declared inside a lambda but used after it"
  | .insideParameter slot => s!"slot {slot} is in the middle of a parameter"
  | .unboundParameter parameter => s!"unbound parameter {parameter}"
  | .usedInOwnDefault parameter =>
      s!"parameter {parameter} is used in a default value of its own lambda"
  | .inconvertible source target =>
      s!"cannot convert {source.descriptor} to {target.descriptor}"
  | .privateConstructor owner => s!"private constructor of {owner} called inside a lambda"
  | .superCall method =>
      s!"super call to {method.owner.classInfoName}.{method.name} inside a lambda"
  | .noConstructor target => s!"{target} has no accessible no-argument constructor"
  | .noDefault position factory =>
      s!"parameter #{position + 1} of {factory.describe} has no default value"
  | .unboundClosureParameter => "unbound lambda parameter"
  | .untrackedCapture key => s!"untracked capture {key.describe}"
  | .unclassifiedSlot slot => s!"local in slot {slot} was not classified"
  | .unavailableParameter parameter => s!"parameter {parameter} is not available here"
  | .thisReassignedInside => "`this` is reassigned inside a lambda"
  | .captureAssigned name => s!"captured variable {name} is assigned inside a lambda"
  | .jumpLeaves index target => s!"jump from {index} to {target} leaves the lambda"
  | .readOnlyParameter parameter => s!"parameter {parameter} is not writable here"
  | .outermostParameter parameter => s!"top-level lambda captures parameter {parameter}"
  | .described text => text

/-- Which debug information is missing. -/
inductive DebugInfoFault where
  | noVariableTable
  | noVariable (slot : UInt16) (index : Nat)
  /-- A fault in the words of whoever found it. -/
  | described (text : String)
deriving DecidableEq, Repr

/-- The wording of a fault. -/
def DebugInfoFault.message : DebugInfoFault → String
  | .noVariableTable => "method has lambda sites but no local variable table"
  | .noVariable slot index => s!"no local variable table entry for slot {slot} at {index}"
  | .described text => text

/-- Why a type has no abstract method for a closure. -/
inductive TargetFault where
  | noCandidate (fewest most : Nat)
  | ambiguous (arity : Nat) (candidates : List UnqualifiedName)
  /-- A fault in the words of whoever found it. -/
  | described (text : String)
deriving DecidableEq, Repr

/-- The wording of a fault. -/
def TargetFault.message : TargetFault → String
  | .noCandidate fewest most =>
      if fewest = most then s!"no candidate abstract method taking {most} arguments"
      else
        s!"no candidate abstract method taking between {fewest} and {most} arguments"
  | .ambiguous arity candidates =>
      let names := ", ".intercalate (candidates.map UnqualifiedName.text)
      s!"ambiguous abstract methods taking {arity} arguments: {names}"
  | .described text => text

/-- What is wrong at some place of a class. -/
inductive Fault where
  | missingDebugInfo (fault : DebugInfoFault)
  | malformedSite (fault : SiteFault)
  | unresolvedTarget (target : BinaryName) (fault : TargetFault)
  | unresolvedType (name : String)
  | bytecode (error : BytecodeError)
deriving DecidableEq, Repr

namespace Fault

/-- A class that is missing is a type that cannot be resolved. -/
def ofBytecode : BytecodeError → Fault
  | .missingClass name => .unresolvedType name
  | error => .bytecode error

/-- The wording of a fault. -/
def message : Fault → String
  | .missingDebugInfo fault => s!"missing debug information: {fault.message}"
  | .malformedSite fault => s!"malformed lambda site: {fault.message}"
  | .unresolvedTarget target fault =>
      s!"cannot find the abstract method of {target}: {fault.message}"
  | .unresolvedType name => s!"cannot resolve type {name}"
  | .bytecode error => error.message

end Fault

/-! ## Errors -/

/-- Why the closures of a class cannot be converted. -/
inductive ClosureError where
  | located (place : Place) (fault : Fault)
  | settings (complaint : String)
deriving DecidableEq, Repr

namespace ClosureError

/-- The place of an error, if it has one. -/
def place? : ClosureError → Option Place
  | .located place _ => some place
  | .settings _ => none

/-- The error somewhere in an outer place: what is not known of its place is taken from
there. -/
def within (error : ClosureError) (outer : Place) : ClosureError :=
  match error with
  | .located place fault => .located (place.fillFrom outer) fault
  | .settings complaint => .settings complaint

/-- The wording of an error. -/
def message : ClosureError → String
  | .located place fault => s!"{place.describe}: {fault.message}"
  | .settings complaint => s!"invalid settings: {complaint}"

end ClosureError

namespace Place

/-- The error of a fault at the place. -/
def fail (place : Place) (fault : Fault) : ClosureError :=
  .located place fault

/-- The error of a malformed site at the place. -/
def malformed (place : Place) (fault : SiteFault) : ClosureError :=
  .located place (.malformedSite fault)

/-- What goes wrong goes wrong at the place. -/
def locate {α : Type} (place : Place) (result : Except Fault α) : Except ClosureError α :=
  result.mapError place.fail

/-- What is wrong with bytecode is wrong at the place. -/
def locateBytecode {α : Type} (place : Place) (result : Except BytecodeError α) :
    Except ClosureError α :=
  result.mapError fun error => place.fail (.ofBytecode error)

end Place

end ClosureConversion
