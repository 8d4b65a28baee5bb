import ClosureConversion.Closure.Site
import ClosureConversion.Hierarchy.Basic

/-!
Contract: the abstract method that a closure implements.

Owns:
- which abstract methods of a type a closure can implement, by the number of their
  parameters;
- choosing one of them: methods with more parameters come first, and a type comes before
  the types that it inherits from.

Does not own: how the closure implements the method.
-/

namespace ClosureConversion

/-- An abstract method, with the type that declares it. -/
structure AbstractMethod where
  owner : BinaryName
  name : UnqualifiedName
  type : MethodType
  ofInterface : Bool
deriving DecidableEq, Repr

namespace AbstractMethod

/-- How many parameters the method has. -/
def arity (method : AbstractMethod) : Nat :=
  method.type.parameters.length

/-- An abstract method of a type. -/
def ofDeclaration (owner : ClassDeclaration) (method : MethodDeclaration) : AbstractMethod where
  owner := owner.name
  name := method.name
  type := method.type
  ofInterface := owner.isInterface

end AbstractMethod

namespace Hierarchy

/-- Whether the root class has a public method of the same name and type. -/
def isRootMethod (hierarchy : Hierarchy) (method : MethodDeclaration) :
    Except BytecodeError Bool := do
  let root ← hierarchy.resolve .object
  match root.method? method.name method.type with
  | some inherited => return inherited.flags.contains MethodFlags.accPublic
  | none => return false

/-- Whether a class or one of its superclasses declares a method of the same name and
type that has a body. -/
def isImplemented (hierarchy : Hierarchy) (target : BinaryName) (method : MethodDeclaration) :
    Except BytecodeError Bool := do
  let classes ← hierarchy.superclasses target
  return classes.any fun declaration =>
    match declaration.method? method.name method.type with
    | some found => !found.isAbstract
    | none => false

/-- Whether a closure that extends or implements a target can implement a method with so
many parameters. -/
def isCandidate (hierarchy : Hierarchy) (target : BinaryName) (arity : Nat)
    (method : MethodDeclaration) : Except BytecodeError Bool := do
  if method.isAbstract && !method.isStatic && method.type.parameters.length = arity then
    if ← hierarchy.isRootMethod method then return false
    return !(← hierarchy.isImplemented target method)
  else
    return false

/-- The only method of a type that a closure can implement, if there is any. -/
def soleCandidate (hierarchy : Hierarchy) (target : BinaryName) (arity : Nat)
    (declaration : ClassDeclaration) : Except Fault (Option AbstractMethod) := do
  let candidates ←
    (declaration.methods.filterM (hierarchy.isCandidate target arity)).mapError Fault.ofBytecode
  match candidates with
  | [] => return none
  | [method] => return some (AbstractMethod.ofDeclaration declaration method)
  | methods =>
      throw (.unresolvedTarget target (.ambiguous arity (methods.map MethodDeclaration.name)))

/-- The types that a type inherits abstract methods from, interfaces first. -/
def abstractParents (declaration : ClassDeclaration) : List BinaryName :=
  declaration.interfaces ++ declaration.super.toList

/-- What a descent for the abstract method ends with at a type. -/
def abstractAnswer (hierarchy : Hierarchy) (target : BinaryName) (arity : Nat)
    (_ : BinaryName) (declaration : ClassDeclaration) : Option (Except Fault AbstractMethod) :=
  match hierarchy.soleCandidate target arity declaration with
  | .ok none => none
  | .ok (some method) => some (.ok method)
  | .error fault => some (.error fault)

/-- The abstract method with so many parameters that a closure implements if it extends or
implements a target. -/
def findAbstract (hierarchy : Hierarchy) (target : BinaryName) (arity : Nat) :
    Except Fault (Option AbstractMethod) := do
  let found ← (hierarchy.descend (hierarchy.abstractAnswer target arity) abstractParents
    [target] []).mapError Fault.ofBytecode
  match found with
  | none => return none
  | some result => some <$> result

end Hierarchy

/-- The first of several numbers of parameters for which a target has an abstract
method. -/
def abstractMethodAmong (hierarchy : Hierarchy) (target : BinaryName) :
    List Nat → Except Fault (Option AbstractMethod)
  | [] => .ok none
  | arity :: arities => do
      match ← hierarchy.findAbstract target arity with
      | some method => return some method
      | none => abstractMethodAmong hierarchy target arities

/-- The abstract method that the closure of a site implements. It takes all parameters
of the site, but for some of the last ones that have default values. -/
def LambdaSite.abstractMethod (site : LambdaSite) (hierarchy : Hierarchy) :
    Except Fault AbstractMethod := do
  let most := site.parameters.length
  let fewest := site.requiredParameters
  let arities := (List.range' fewest (most + 1 - fewest)).reverse
  match ← abstractMethodAmong hierarchy site.target arities with
  | some method => return method
  | none => throw (.unresolvedTarget site.target (.noCandidate fewest most))

end ClosureConversion
