import ClosureConversion.Closure.ClosureClass
import ClosureConversion.Closure.Rewriting

/-!
Contract: converting class after class.

Owns:
- the classes of closures that were made so far;
- converting one class: its methods, the classes of its closures and its bridges;
- sessions, in which what was decided about factories and what was made for one class
  is there for the next one.

Does not own: where class files come from.
-/

namespace ClosureConversion

/-! ## Classes of closures -/

/-- The classes of closures that were made so far. What is kept for a name is never
replaced. -/
structure ClosureCache where
  entries : List (BinaryName × Bytes)
deriving DecidableEq, Repr

namespace ClosureCache

/-- No classes yet. -/
def empty : ClosureCache where
  entries := []

/-- The class of a name. -/
def get? (cache : ClosureCache) (name : BinaryName) : Option Bytes :=
  cache.entries.lookup name

/-- Whether there is a class of a name. -/
def contains (cache : ClosureCache) (name : BinaryName) : Bool :=
  (cache.get? name).isSome

/-- How many classes there are. -/
def size (cache : ClosureCache) : Nat :=
  cache.entries.length

/-- Keeps a class, unless there is one of its name, and says which class is kept. -/
def insert (cache : ClosureCache) (name : BinaryName) (bytes : Bytes) :
    Bytes × ClosureCache :=
  match cache.get? name with
  | some kept => (kept, cache)
  | none => (bytes, ⟨(name, bytes) :: cache.entries⟩)

/-- Keeps several classes, and says which ones are kept. -/
def insertAll (cache : ClosureCache) :
    List (BinaryName × Bytes) → List (BinaryName × Bytes) × ClosureCache
  | [] => ([], cache)
  | (name, bytes) :: rest =>
      let (kept, cache) := cache.insert name bytes
      let (others, cache) := cache.insertAll rest
      ((name, kept) :: others, cache)

end ClosureCache

/-! ## One class -/

/-- A method of a class that makes closures. -/
structure PlannedMethod where
  /-- Its position among the methods of the class. -/
  index : Nat
  method : Method
  plan : MethodPlan

namespace PlannedMethod

/-- Somewhere in the method. -/
def place (planned : PlannedMethod) : Place :=
  Place.ofMethod planned.method

end PlannedMethod

/-- What happens in a place, with the errors at more precise places in it. -/
def withinPlace {Memory α : Type} (place : Place) (action : Deciding Memory α) :
    Deciding Memory α := fun memory =>
  match action memory with
  | .ok value memory => .ok value memory
  | .error error memory => .error (error.within place) memory

section Planning

variable {Memory : Type} (settings : Settings) (hierarchy : Hierarchy)
  (convention : Convention Memory)

/-- Plans the conversion of a method, if it makes closures. They are numbered from an id
on. -/
def planMember (file : ClassFile) (index firstId : Nat) (member : Member .method) :
    Deciding Memory (Option PlannedMethod) := do
  match ← MonadExcept.ofExcept (Place.unknown.locateBytecode (Method.ofMember? file member)) with
  | none => return none
  | some method =>
      withinPlace (Place.ofMethod method) do
        let calls ← factoryCalls method hierarchy convention
        if calls.isEmpty then return none
        let plan ← planMethod method calls firstId settings hierarchy convention
          (Place.ofMethod method)
        return some { index, method, plan }

/-- Plans the conversion of several methods of a class, from a position on. The closures
of the class are numbered through. -/
def planMembers (file : ClassFile) (index firstId : Nat) :
    List (Member .method) → Deciding Memory (List PlannedMethod)
  | [] => return []
  | member :: members => do
      match ← planMember settings hierarchy convention file index firstId member with
      | none => planMembers file (index + 1) firstId members
      | some planned =>
          let rest ← planMembers file (index + 1) (firstId + planned.plan.sites.length) members
          return planned :: rest

end Planning

/-- The classes of closures made for a class so far, with the bridges they need and the
classes that are known. -/
structure ClosureClasses where
  hierarchy : Hierarchy
  bridges : BridgeTable
  classes : List ClassDefinition

namespace ClosureClasses

/-- Makes the class of the closure of a site. -/
def addSite (method : Method) (plan : MethodPlan) (version : Version) (place : Place)
    (made : ClosureClasses) (entry : SitePlan × Nat) : Except ClosureError ClosureClasses := do
  let (definition, bridges) ←
    closureClass method plan.sites entry.2 entry.1 made.hierarchy version place made.bridges
  return {
    hierarchy := made.hierarchy.declare definition.declaration
    bridges
    classes := made.classes ++ [definition] }

/-- Makes the classes of the closures of a method. -/
def addMethod (method : Method) (plan : MethodPlan) (version : Version) (place : Place)
    (made : ClosureClasses) : Except ClosureError ClosureClasses :=
  plan.sites.zipIdx.foldlM (addSite method plan version place) made

/-- Makes the classes of the closures of several methods. -/
def ofPlans (hierarchy : Hierarchy) (owner : ClassDeclaration) (version : Version)
    (planned : List PlannedMethod) : Except ClosureError ClosureClasses :=
  planned.foldlM (fun made entry => made.addMethod entry.method entry.plan version entry.place)
    ⟨hierarchy, BridgeTable.ofClass owner, []⟩

end ClosureClasses

/-- Replaces the code of a method of a class file by the code that makes closures. -/
def rewriteMember (hierarchy : Hierarchy) (file : ClassFile) (planned : PlannedMethod) :
    Except ClosureError ClassFile := do
  let rewritten ← planned.method.rewrite planned.plan planned.place
  let assembled : PoolM Attribute := do
    Attribute.ofContents (← rewritten.assemble hierarchy file.version)
  match assembled file.pool with
  | .error error _ => throw (planned.place.fail (.ofBytecode error))
  | .ok code pool =>
      return { file with
        pool
        methods := file.methods.modify planned.index (·.replaceCode pool code) }

/-- A class that was converted, with the classes of its closures. -/
structure ConvertedClass where
  name : BinaryName
  bytes : Bytes
  closures : List (BinaryName × Bytes)
deriving DecidableEq, Repr

/-- The classes of closures with their bytes; those that were made before are taken as
they are. -/
def closureBytes (cache : ClosureCache) (made : ClosureClasses) :
    Except ClosureError (List (BinaryName × Bytes)) :=
  made.classes.mapM fun definition => do
    match cache.get? definition.name with
    | some bytes => return (definition.name, bytes)
    | none =>
        let place := Place.ofClass definition.name
        let bytes ← place.locateBytecode (definition.toBytes made.hierarchy)
        return (definition.name, bytes)

/-- Converts a class whose methods are planned: first come the closures, which the new
methods make. -/
def convertPlanned (settings : Settings) (hierarchy : Hierarchy) (cache : ClosureCache)
    (file : ClassFile) (name : BinaryName) (owner : ClassDeclaration)
    (planned : List PlannedMethod) : Except ClosureError ConvertedClass := do
  let place := Place.ofClass name
  let version := settings.versionFor file.version
  let made ← ClosureClasses.ofPlans hierarchy owner version planned
  let file ← planned.foldlM (rewriteMember made.hierarchy) { file with version }
  let file ← place.locateBytecode (made.bridges.install made.hierarchy file)
  let bytes ← place.locateBytecode file.finish
  let closures ← closureBytes cache made
  return { name, bytes, closures }

/-- Converts a class file. A class without closures stays as it is. -/
def convertFile {Memory : Type} (settings : Settings) (hierarchy : Hierarchy)
    (convention : Convention Memory) (cache : ClosureCache) (file : ClassFile)
    (name : BinaryName) (input : Bytes) : Deciding Memory ConvertedClass := do
  let owner ← MonadExcept.ofExcept
    ((Place.ofClass name).locateBytecode (ClassDeclaration.ofClassFile file))
  let hierarchy := hierarchy.declare owner
  let planned ← planMembers settings hierarchy convention file 0 0 file.methods
  if planned.isEmpty then return { name, bytes := input, closures := [] }
  MonadExcept.ofExcept (convertPlanned settings hierarchy cache file name owner planned)

/-- Converts a class, unless it is filtered out. -/
def convertClass {Memory : Type} (settings : Settings) (hierarchy : Hierarchy)
    (convention : Convention Memory) (cache : ClosureCache) (input : Bytes) :
    Deciding Memory ConvertedClass := do
  let file ← MonadExcept.ofExcept (Place.unknown.locateBytecode (ClassFile.ofBytes input))
  let name ← MonadExcept.ofExcept (Place.unknown.locateBytecode file.thisName)
  if settings.filter.accepts name then
    withinPlace (Place.ofClass name)
      (convertFile settings hierarchy convention cache file name input)
  else
    return { name, bytes := input, closures := [] }

/-! ## Sessions -/

/-- What stays from one class to the next. -/
structure Session where
  settings : Settings
  hierarchy : Hierarchy
  decisions : Decisions
  cache : ClosureCache

namespace Session

/-- A session that has not converted a class yet. -/
def start (settings : Settings) (hierarchy : Hierarchy) : Session where
  settings := settings
  hierarchy := hierarchy
  decisions := {}
  cache := .empty

/-- Converts a class. The classes of its closures are kept only if the whole class is
converted. -/
def convert (session : Session) (input : Bytes) :
    Except ClosureError ConvertedClass × Session :=
  let settings := session.settings
  match convertClass settings session.hierarchy settings.convention session.cache input
      session.decisions with
  | .error error decisions => (.error error, { session with decisions })
  | .ok converted decisions =>
      let (kept, cache) := session.cache.insertAll converted.closures
      (.ok { converted with closures := kept }, { session with decisions, cache })

end Session

end ClosureConversion
