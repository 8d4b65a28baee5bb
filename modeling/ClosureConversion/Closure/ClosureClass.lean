import ClosureConversion.ClassDefinition
import ClosureConversion.Closure.Adaptation
import ClosureConversion.Closure.Translation

/-!
Contract: the classes of closures.

Owns:
- the fields and the constructor, which keep what a closure captures;
- the methods that compute the default values of parameters;
- the method that the closure implements: it turns its arguments into the parameters of
  the closure, and the value of the body into what it has to return.

Does not own: the code of the body.
-/

namespace ClosureConversion

/-! ## Names and slots -/

/-- A name, marked with a number unless that is zero. -/
def numberedName (name : UnqualifiedName) : Nat → UnqualifiedName
  | 0 => name
  | number + 1 => (name.append ⟨"$", by decide⟩).append (.ofNat (number + 1))

/-- A name that is not taken: the given one, or that one marked with the first number that
makes it free. As many names can be taken as there are names that are taken. -/
def freeName (taken : List UnqualifiedName) (name : UnqualifiedName) : UnqualifiedName :=
  let names := (List.range (taken.length + 1)).map (numberedName name)
  (names.find? fun candidate => !taken.contains candidate).getD
    (numberedName name (taken.length + 1))

/-- Names for the fields of captures, no two of which are equal. -/
def fieldNamesAfter (taken : List UnqualifiedName) : List Capture → List UnqualifiedName
  | [] => []
  | capture :: captures =>
      let name := freeName taken capture.name
      name :: fieldNamesAfter (name :: taken) captures

/-- Names for the fields of captures, no two of which are equal. -/
def fieldNames (captures : List Capture) : List UnqualifiedName :=
  fieldNamesAfter [] captures

/-- The slots of values of several widths, one after another. -/
def slotsFrom (first : UInt16) : List Nat → List UInt16
  | [] => []
  | slots :: rest => first :: slotsFrom (first + slots.toUInt16) rest

/-- The slot after values of several widths. -/
def slotAfter (first : UInt16) (widths : List Nat) : UInt16 :=
  widths.foldl (fun slot slots => slot + slots.toUInt16) first

/-- New slots for the variables of a site, in the order of their slots in the method. -/
def relocateSlots (internal : List (UInt16 × Bool)) (first : UInt16) : List (UInt16 × UInt16) :=
  let widths := internal.map fun entry => if entry.2 then 2 else 1
  (internal.map Prod.fst).zip (slotsFrom first widths)

/-- The name of the method that computes the default value of a parameter. -/
def defaultName (field : FieldRef) : UnqualifiedName :=
  UnqualifiedName.append ⟨"default$", by decide⟩ field.name

/-! ## Parts of the class -/

/-- A method that the class declares. -/
def declares (flags : MethodFlags) (name : UnqualifiedName) (type : MethodType) :
    MethodDeclaration :=
  { name, type, flags, annotations := [] }

/-- The type of methods that neither take nor return anything. -/
def plainType : MethodType := ⟨[], none⟩

/-- The superclass of the class of a closure that extends or implements a target. -/
def closureSuper (target : ClassDeclaration) (name : BinaryName) : Except SiteFault BinaryName :=
  if target.isInterface then .ok .object
  else
    match target.method? .init plainType with
    | some constructor =>
        if constructor.flags.contains MethodFlags.accPrivate then .error (.noConstructor name)
        else .ok name
    | none => .error (.noConstructor name)

/-- The code that stores the parameters of the constructor in fields. -/
def storeCaptures (className : BinaryName) (slot : UInt16) :
    List (Capture × UnqualifiedName) → List (Instruction Nat)
  | [] => []
  | (capture, name) :: rest =>
      let type := capture.storedType
      [.load .reference 0, .load (.ofType type) slot,
        .field .putField ⟨className, name, type⟩] ++
        storeCaptures className (slot + (width type).toUInt16) rest

/-- The body of the constructor. -/
def constructorBody (plan : SitePlan) (super : BinaryName) (fields : List UnqualifiedName) :
    CodeBody Nat where
  instructions :=
    let callSuper : List (Instruction Nat) :=
      [.load .reference 0, .invoke .special ⟨.object super, .init, plainType, false⟩]
    let stores := storeCaptures plan.className 1 (plan.captures.captures.zip fields)
    let leave : Instruction Nat := .op (.leave none)
    (callSuper ++ stores ++ [leave]).toArray

/-- The receiver of a method of the class as a variable. -/
def thisVariable (className : BinaryName) (stop : Nat) : LocalVariable Nat where
  start := 0
  stop := stop
  name := .this
  type := .object className
  slot := 0

/-! ## Default values -/

/-- The body of a method that computes the default value of a parameter. -/
def defaultBody (scope : ClosureScope) (field : FieldRef) (span : Span) :
    Building (CodeBody Nat) := do
  let replacements ← scope.translate span
  let relocation := Relocation.ofReplacements span.start 0 replacements
  let code := relocation.code replacements ++ [.op (.leave (some (.ofType field.type)))]
  return {
    instructions := code.toArray
    localVariables := #[thisVariable scope.self.className code.length]
    lines := (relocation.lines scope.method.lines replacements).toArray }

/-- The flags of the methods that compute default values. -/
def defaultFlags : MethodFlags :=
  MethodFlags.accFinal.union MethodFlags.accSynthetic

/-- The method that computes the default value of the parameter of a position. -/
def defaultMethod (scope : ClosureScope) (position : Nat) (parameter : SiteParameter) :
    Building MethodDefinition := do
  match parameter.field, parameter.default with
  | some field, some span =>
      let body ← defaultBody scope field span
      return ⟨declares defaultFlags (defaultName field) ⟨[], some field.type⟩, some body⟩
  | _, _ => throw (scope.place.malformed (.noDefault position scope.self.site.factory))

/-- The methods that compute the default values of the parameters for which the method
that the closure implements has no argument. -/
def defaultMethods (scope : ClosureScope) : Building (List MethodDefinition) :=
  (scope.self.site.parameters.zipIdx.drop scope.self.method.arity).mapM
    fun (parameter, position) => defaultMethod scope position parameter

/-! ## The implemented method -/

/-- The fields that stand for the parameters of a site. -/
def boundFields (site : LambdaSite) : Except SiteFault (List FieldRef) :=
  site.parameters.mapM fun parameter =>
    match parameter.field with
    | some field => .ok field
    | none => .error .unboundClosureParameter

/-- How many slots the parameter takes that a field stands for. -/
def ClosureScope.parameterWidth (scope : ClosureScope) (field : FieldRef) : Nat :=
  if scope.isBoxed field then 1 else width field.type

/-- The type of the slot of the parameter that a field stands for. -/
def ClosureScope.parameterType (scope : ClosureScope) (field : FieldRef) : FieldType :=
  if scope.isBoxed field then field.type.arrayOf else field.type

/-- The code that pushes the value of a parameter: an argument, or a default value if
there is no argument for it. -/
def parameterValue (scope : ClosureScope) (hierarchy : Hierarchy) (field : FieldRef) :
    Option (FieldType × UInt16) → Except Fault (List (Instruction Nat))
  | some (argument, slot) => do
      let adapted ← adaptValue hierarchy argument field.type
      return .load (.ofType argument) slot :: adapted
  | none =>
      .ok [.load .reference 0, .invoke .virtual
        ⟨.object scope.self.className, defaultName field, ⟨[], some field.type⟩, false⟩]

/-- The code that stores the value of a parameter in its slot. -/
def storeParameter (scope : ClosureScope) (field : FieldRef) (slot : UInt16)
    (value : List (Instruction Nat)) : List (Instruction Nat) :=
  if scope.isBoxed field then newBox field.type value ++ [.store .reference slot]
  else value ++ [.store (.ofType field.type) slot]

/-- The code that turns arguments into parameters. -/
def parameterPrologue (scope : ClosureScope) (hierarchy : Hierarchy) (fields : List FieldRef)
    (arguments : List (FieldType × UInt16)) : Except Fault (List (Instruction Nat)) := do
  let parts ← (fields.zip scope.parameterSlots).zipIdx.mapM fun ((field, slot), position) => do
    let value ← parameterValue scope hierarchy field arguments[position]?
    return storeParameter scope field slot value
  return parts.flatten

/-- The sites inside the site itself. -/
def ClosureScope.inner (scope : ClosureScope) : List LambdaSite :=
  (scope.lambdaSites.zipIdx.filter fun (site, number) =>
    number ≠ scope.number && scope.self.site.contains site.start).map Prod.fst

/-- The exception handlers of the method that belong to the site, but not to a site inside
it, at their new places. -/
def ClosureScope.handlers (scope : ClosureScope) (relocation : Relocation) :
    List (ExceptionRange Nat) :=
  scope.method.handlers.toList.filterMap fun range =>
    if range.isWithin scope.self.site.body &&
        !scope.inner.any fun site => range.span.isWithin site.span then
      relocation.handler? range
    else
      none

/-- A variable of the method that belongs to the site, but not to a site inside it, at its
new place. -/
def ClosureScope.moveVariable? (scope : ClosureScope) (relocation : Relocation)
    (entry : LocalVariable Nat) : Option (LocalVariable Nat) := do
  let site := scope.self.site
  guard (site.declares entry.start && site.body.contains entry.start)
  guard (!scope.inner.any fun other => other.contains entry.start)
  let start ← relocation.place? entry.start
  let stop ← relocation.place? (min entry.stop site.body.stop)
  let slot ← scope.locals.lookup entry.slot
  return { entry with start, stop, slot }

/-- The parameters of the closure as variables. -/
def ClosureScope.parameterVariables (scope : ClosureScope) (fields : List FieldRef)
    (start stop : Nat) : List (LocalVariable Nat) :=
  (fields.zip scope.parameterSlots).map fun (field, slot) =>
    { start, stop, name := field.name, type := scope.parameterType field, slot }

/-- The body of the method that the closure implements. -/
def implementationBody (scope : ClosureScope) (hierarchy : Hierarchy) (fields : List FieldRef)
    (arguments : List (FieldType × UInt16)) : Building (CodeBody Nat) := do
  let site := scope.self.site
  let result := scope.self.method.type.result
  let prologue ← scope.place.locate (parameterPrologue scope hierarchy fields arguments)
  let replacements ← scope.translate site.body
  let adapted ← scope.place.locate (adapt hierarchy site.bodyType? result)
  let relocation := Relocation.ofReplacements site.body.start prologue.length replacements
  let code := prologue ++ relocation.code replacements ++ adapted ++
    [.op (.leave (result.map LocalKind.ofType))]
  let localVariables := scope.method.localVariables.toList.filterMap (scope.moveVariable? relocation) ++
    thisVariable scope.self.className code.length ::
      scope.parameterVariables fields prologue.length code.length
  return {
    instructions := code.toArray
    handlers := (scope.handlers relocation).toArray
    localVariables := localVariables.toArray
    lines := (relocation.lines scope.method.lines replacements).toArray }

/-- The method that the closure implements. The receiver comes first, then the arguments,
the parameters of the closure and the variables of the site. -/
def implementation (scope : ClosureScope) (hierarchy : Hierarchy) :
    Building MethodDefinition := do
  let implemented := scope.self.method
  let fields ← (boundFields scope.self.site).mapError scope.place.malformed
  let argumentTypes := implemented.type.parameters
  let argumentWidths := argumentTypes.map width
  let parameterWidths := fields.map scope.parameterWidth
  let afterArguments := slotAfter 1 argumentWidths
  let afterParameters := slotAfter afterArguments parameterWidths
  let scope := { scope with
    parameterSlots := slotsFrom afterArguments parameterWidths
    locals := relocateSlots scope.self.captures.internal afterParameters }
  let body ← implementationBody scope hierarchy fields
    (argumentTypes.zip (slotsFrom 1 argumentWidths))
  return ⟨declares MethodFlags.accPublic implemented.name implemented.type, some body⟩

/-! ## The class -/

/-- The flags of the classes of closures. -/
def closureFlags : ClassFlags :=
  ((ClassFlags.accPublic.union ClassFlags.accFinal).union ClassFlags.accSuper).union
    ClassFlags.accSynthetic

/-- The flags of the fields that hold captures. -/
def captureFlags : FieldFlags :=
  FieldFlags.accFinal.union FieldFlags.accSynthetic

/-- A field that holds a capture. -/
def captureDeclaration (capture : Capture) (name : UnqualifiedName) : FieldDeclaration where
  name := name
  type := capture.storedType
  flags := captureFlags
  annotations := []

/-- The class of the closure of a site. -/
def closureClass (method : Method) (sites : List SitePlan) (number : Nat) (self : SitePlan)
    (hierarchy : Hierarchy) (version : Version) (place : Place) : Building ClassDefinition := do
  let place := place.atLine self.site.line
  let target ← place.locateBytecode (hierarchy.resolve self.site.target)
  let super ← (closureSuper target self.site.target).mapError place.malformed
  let captures := self.captures.captures
  let fields := fieldNames captures
  let scope : ClosureScope := {
    method, sites, number, self, fields
    parameterSlots := []
    locals := relocateSlots self.captures.internal 1
    place }
  let constructor := ⟨declares (.ofBits 0) .init self.constructorType,
    some (constructorBody self super fields)⟩
  let defaults ← defaultMethods scope
  let implemented ← implementation scope hierarchy
  return {
    name := self.className
    super
    flags := closureFlags
    version
    interfaces := if target.isInterface then [self.site.target] else []
    fields := (captures.zip fields).map fun (capture, name) => captureDeclaration capture name
    methods := constructor :: defaults ++ [implemented] }

end ClosureConversion
