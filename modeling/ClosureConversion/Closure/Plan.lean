import ClosureConversion.Closure.AbstractMethod
import ClosureConversion.Closure.Capture

/-!
Contract: how the closures of a method are going to be converted.

Owns:
- the plan of a method: for every site what its closure captures, which method it
  implements and what its class is called;
- the code that makes the closure of a site.

Does not own: the classes of the closures, or what becomes of the method.
-/

namespace ClosureConversion

/-- How the closure of a site is going to be converted. -/
structure SitePlan where
  site : LambdaSite
  captures : SiteCaptures
  /-- The method that the closure implements. -/
  method : AbstractMethod
  className : BinaryName
deriving Repr

/-- How the closures of a method are going to be converted. -/
structure MethodPlan where
  sites : List SitePlan
  /-- The variables of the method that are kept in boxes. -/
  boxes : List BoxedLocal
deriving Repr

namespace SitePlan

/-- The type of the constructor, which takes what the closure captures. -/
def constructorType (plan : SitePlan) : MethodType where
  parameters := plan.captures.captures.map Capture.storedType
  result := none

/-- The constructor of the class. -/
def constructor (plan : SitePlan) : MethodRef where
  owner := .object plan.className
  name := .init
  type := plan.constructorType
  ofInterface := false

/-- The code that makes the closure, given the code that pushes each capture. -/
def construct {ε : Type} (plan : SitePlan) (load : Capture → Except ε (List (Instruction Nat))) :
    Except ε (List (Instruction Nat)) := do
  let loads ← plan.captures.captures.mapM load
  return [.new plan.className, .op (.stack .dup)] ++ loads.flatten ++
    [.invoke .special plan.constructor]

end SitePlan

namespace MethodPlan

/-- The sites of the method. -/
def lambdaSites (plan : MethodPlan) : List LambdaSite :=
  plan.sites.map SitePlan.site

/-- The sites that nest in no other one. -/
def outermost (plan : MethodPlan) : List LambdaSite :=
  plan.lambdaSites.filter fun site => site.parent.isNone

/-- The plan that the steps of planning make up. -/
def ofSteps (sites : List LambdaSite) (captures : MethodCaptures)
    (methods : List AbstractMethod) (classNames : List BinaryName) : MethodPlan where
  sites :=
    (sites.zip (captures.sites.zip (methods.zip classNames))).map
      fun (site, captures, method, className) => ⟨site, captures, method, className⟩
  boxes := captures.boxes

end MethodPlan

/-! ## Planning -/

/-- The abstract methods that the closures of several sites implement. -/
def abstractMethods (sites : List LambdaSite) (hierarchy : Hierarchy) (place : Place) :
    Except ClosureError (List AbstractMethod) :=
  sites.mapM fun site => (place.atLine site.line).locate (site.abstractMethod hierarchy)

/-- The names of the classes of several closures. -/
def classNames (sites : List LambdaSite) (settings : Settings) (owner : BinaryName) :
    Except ClosureError (List BinaryName) :=
  sites.mapM fun site => settings.closureName owner site.target site.line site.id

/-- Plans the conversion of the closures that calls in a method make. -/
def planMethod {Memory : Type} (method : Method) (calls : List Nat) (firstId : Nat)
    (settings : Settings) (hierarchy : Hierarchy) (convention : Convention Memory)
    (place : Place) : Deciding Memory MethodPlan := do
  let analysis ← MonadExcept.ofExcept (place.locateBytecode (method.analyze hierarchy))
  let sites ← detectSites method analysis calls firstId hierarchy convention place
  let captures ← analyzeCaptures method sites hierarchy convention place
  let methods ← MonadExcept.ofExcept (abstractMethods sites hierarchy place)
  let names ← MonadExcept.ofExcept (classNames sites settings method.owner)
  return MethodPlan.ofSteps sites captures methods names

end ClosureConversion
