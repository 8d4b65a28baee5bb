import ClosureConversion.Hierarchy.Basic

/-!
Contract: which reference types are assignable to which.

Owns: assignability of classes and arrays, and the nearest common supertype of two
types.
-/

namespace ClosureConversion.Hierarchy

/-- The classes and interfaces that every array is an instance of. -/
def isArrayRoot (name : BinaryName) : Bool :=
  name = .object || name = .cloneable || name = .serializable

/-- What may lead from a class to a class: its superclass, and, if the latter is an
interface, the interfaces of the former. -/
def parentsTowards (target : ClassDeclaration) (declaration : ClassDeclaration) :
    List BinaryName :=
  if target.isInterface then declaration.interfaces.reverse ++ declaration.super.toList
  else declaration.super.toList

/-- Whether every instance of a class is one of another class. -/
def isSubclass (hierarchy : Hierarchy) (sub super : BinaryName) : Except BytecodeError Bool := do
  if super = .object then return true
  let target ← hierarchy.resolve super
  let found? ← hierarchy.search (fun name _ => if name = super then some () else none)
    (parentsTowards target) [sub] []
  return found?.isSome

/-- Whether every value of a type is one of another type. -/
def isAssignable (hierarchy : Hierarchy) (sub super : RefType) : Except BytecodeError Bool :=
  if sub = super then .ok true
  else
    match sub, super with
    | .object sub, .object super => hierarchy.isSubclass sub super
    | _, .object super => .ok (isArrayRoot super)
    | .objectArray nesting sub, .objectArray superNesting super =>
        if nesting = superNesting then hierarchy.isSubclass sub super
        else .ok (superNesting < nesting && isArrayRoot super)
    | .primitiveArray nesting _, .objectArray superNesting super =>
        .ok (superNesting < nesting && isArrayRoot super)
    | .object _, .objectArray _ _ => .ok false
    | _, .primitiveArray _ _ => .ok false

/-- The first class of a chain that occurs in another chain, unless an interface comes
before it. -/
def firstShared (others : List ClassDeclaration) : List ClassDeclaration → BinaryName
  | [] => .object
  | declaration :: rest =>
      if declaration.isInterface then .object
      else if others.any fun other => other.name = declaration.name then declaration.name
      else firstShared others rest

/-- The nearest class that both classes are below; interfaces are only below the root
class. -/
def commonSuperclass (hierarchy : Hierarchy) (first second : BinaryName) :
    Except BytecodeError BinaryName := do
  if first = second then return first
  let firstChain ← hierarchy.superclasses first
  match firstChain with
  | [] => return .object
  | nearest :: _ =>
      if nearest.isInterface then return .object
      let secondChain ← hierarchy.superclasses second
      return firstShared firstChain secondChain

/-- The nearest type that both types are assignable to, as far as classes go. -/
def commonSupertype (hierarchy : Hierarchy) (first second : RefType) :
    Except BytecodeError RefType :=
  if first = second then .ok first
  else
    match first, second with
    | .object first, .object second => .object <$> hierarchy.commonSuperclass first second
    | .objectArray nesting first, .objectArray secondNesting second =>
        if nesting = secondNesting then
          .objectArray nesting <$> hierarchy.commonSuperclass first second
        else .ok (.object .object)
    | _, _ => .ok (.object .object)

end ClosureConversion.Hierarchy
