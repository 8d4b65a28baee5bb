import ClosureConversion.Closure.Session
import ClosureConversion.Proofs.Rewriting.Planning

/-!
Contract: what the classes of closures are made of.

Owns:
- the steps of making a class, and what each of them contributes to it;
- the classes that are made for the sites of a method, one for each site, in order;
- what making one class preserves holds of all classes that are made for a class;
- where the positions of a span go whose code is replaced piece by piece.

Does not own: what the code of a closure does.
-/

namespace ClosureConversion

/-! ## The parts of a class -/

theorem length_fieldNamesAfter
    (taken : List UnqualifiedName)
    (captures : List Capture) :
    (fieldNamesAfter taken captures).length = captures.length := by
  induction captures generalizing taken with
  | nil => rfl
  | cons capture captures inductionHypothesis => simp [fieldNamesAfter, inductionHypothesis]

/-- What the code of a site has around it, before its parameters have slots. -/
def ClosureScope.ofSite (method : Method) (sites : List SitePlan) (number : Nat)
    (self : SitePlan) (place : Place) : ClosureScope where
  method := method
  sites := sites
  number := number
  self := self
  fields := fieldNames self.captures.captures
  parameterSlots := []
  locals := relocateSlots self.captures.internal 1
  place := place.atLine self.site.line

/-- The slots after those of the arguments of the implemented method are those of the
parameters, and then of the variables of the site. -/
def ClosureScope.withSlots (scope : ClosureScope) (fields : List FieldRef) : ClosureScope :=
  let afterArguments := slotAfter 1 (scope.self.method.type.parameters.map width)
  let parameterWidths := fields.map scope.parameterWidth
  { scope with
    parameterSlots := slotsFrom afterArguments parameterWidths
    locals := relocateSlots scope.self.captures.internal
      (slotAfter afterArguments parameterWidths) }

/-- The constructor of the class of a closure. -/
def ClosureScope.constructorMethod (scope : ClosureScope) (super : BinaryName) :
    MethodDefinition :=
  ⟨declares (.ofBits 0) .init scope.self.constructorType,
    some (constructorBody scope.self super scope.fields)⟩

/-- The class of a closure has a constructor, methods for default values and the method that it
implements, which are made one after another. -/
structure IsClosureClass (scope : ClosureScope) (hierarchy : Hierarchy) (super : BinaryName)
    (defaults : List MethodDefinition) (implemented : MethodDefinition)
    (before between after : BridgeTable) (definition : ClassDefinition) : Prop where
  superFound : ∃ target, hierarchy.resolve scope.self.site.target = .ok target ∧
    closureSuper target scope.self.site.target = .ok super
  defaultsMade : defaultMethods scope before = .ok (defaults, between)
  implementedMade : implementation scope hierarchy between = .ok (implemented, after)
  name : definition.name = scope.self.className
  flags : definition.flags = closureFlags
  methods : definition.methods = scope.constructorMethod super :: defaults ++ [implemented]

/-- The code of the method that a closure implements turns its arguments into parameters, then
follows the code of the body and what turns its value into the result. -/
structure IsImplementation (scope : ClosureScope) (hierarchy : Hierarchy)
    (arguments : List (FieldType × UInt16)) (fields : List FieldRef)
    (prologue adapted : List (Instruction Nat)) (replacements : List Replacement)
    (before after : BridgeTable) (body : CodeBody Nat) : Prop where
  prologueMade : parameterPrologue scope hierarchy fields arguments = .ok prologue
  translated : scope.translate scope.self.site.body before = .ok (replacements, after)
  adaptedMade : adapt hierarchy scope.self.site.bodyType? scope.self.method.type.result =
    .ok adapted
  instructions : body.instructions.toList =
    prologue ++ (Relocation.ofReplacements scope.self.site.body.start prologue.length
      replacements).code replacements ++ adapted ++
      [.op (.leave (scope.self.method.type.result.map LocalKind.ofType))]
  handlers : body.handlers.toList = scope.handlers
    (.ofReplacements scope.self.site.body.start prologue.length replacements)

/-- The method that computes a default value follows the code that the source has for that, and
returns the value. -/
structure IsDefaultMethod (scope : ClosureScope) (parameter : SiteParameter) (field : FieldRef)
    (span : Span) (replacements : List Replacement) (before after : BridgeTable)
    (body : CodeBody Nat) (definition : MethodDefinition) : Prop where
  bound : parameter.field = some field
  default : parameter.default = some span
  translated : scope.translate span before = .ok (replacements, after)
  definition : definition =
    ⟨declares defaultFlags (defaultName field) ⟨[], some field.type⟩, some body⟩
  instructions : body.instructions.toList =
    (Relocation.ofReplacements span.start 0 replacements).code replacements ++
      [.op (.leave (some (.ofType field.type)))]

section Parts

variable {hierarchy : Hierarchy} {version : Version} {place : Place} {method : Method}
  {sites : List SitePlan} {scope : ClosureScope} {before after : BridgeTable}

theorem closureClass_eq_ok
    {number : Nat}
    {self : SitePlan}
    {definition : ClassDefinition}
    (made : closureClass method sites number self hierarchy version place before =
      .ok (definition, after)) :
    ∃ super defaults implemented between,
      IsClosureClass (.ofSite method sites number self place) hierarchy super defaults implemented
        before between after definition := by
  unfold closureClass at made
  simp only [thread_bind_eq_ok, thread_lift_eq_ok, thread_pure_eq_ok] at made
  obtain ⟨target, _, ⟨targetFound, rfl⟩, super, _, ⟨superFound, rfl⟩, defaults, between,
    defaultsMade, implemented, _, implementedMade, equal⟩ := made
  cases equal
  exact ⟨super, defaults, implemented, between,
    ⟨target, mapError_eq_ok.mp targetFound, mapError_eq_ok.mp superFound⟩, defaultsMade,
    implementedMade, rfl, rfl, rfl⟩

/-- The arguments of the implemented method with their slots. -/
def ClosureScope.arguments (scope : ClosureScope) : List (FieldType × UInt16) :=
  scope.self.method.type.parameters.zip
    (slotsFrom 1 (scope.self.method.type.parameters.map width))

theorem length_slotsFrom
    (first : UInt16)
    (widths : List Nat) :
    (slotsFrom first widths).length = widths.length := by
  induction widths generalizing first with
  | nil => rfl
  | cons slots rest inductionHypothesis => simp [slotsFrom, inductionHypothesis]

/-- The slot after a value, if there are slots enough. -/
theorem toNat_nextSlot
    {slot : UInt16}
    {slots : Nat}
    (room : slot.toNat + slots < 65536) :
    (slot + slots.toUInt16).toNat = slot.toNat + slots := by
  have small : slots < 65536 := by omega
  rw [UInt16.toNat_add, Nat.toUInt16_eq, UInt16.toNat_ofNat_of_lt' small]
  exact Nat.mod_eq_of_lt room

theorem ClosureScope.length_arguments
    (scope : ClosureScope) :
    scope.arguments.length = scope.self.method.arity := by
  unfold ClosureScope.arguments AbstractMethod.arity
  rw [List.length_zip, length_slotsFrom, List.length_map, Nat.min_self]

theorem defaultMethod_eq_ok
    {position : Nat}
    {parameter : SiteParameter}
    {definition : MethodDefinition}
    (made : defaultMethod scope position parameter before = .ok (definition, after)) :
    ∃ field span replacements body,
      IsDefaultMethod scope parameter field span replacements before after body definition := by
  unfold defaultMethod at made
  cases isField : parameter.field with
  | none =>
      rw [isField] at made
      cases made
  | some field =>
      cases isDefault : parameter.default with
      | none =>
          rw [isField, isDefault] at made
          cases made
      | some span =>
          rw [isField, isDefault] at made
          obtain ⟨body, _, bodyMade, equal⟩ := thread_bind_eq_ok.mp made
          cases thread_pure_eq_ok.mp equal
          unfold defaultBody at bodyMade
          obtain ⟨replacements, _, translated, equal⟩ := thread_bind_eq_ok.mp bodyMade
          cases thread_pure_eq_ok.mp equal
          exact ⟨field, span, replacements, _, isField, isDefault, translated, rfl, rfl⟩

/-- Each parameter of a site is bound to its field. -/
theorem forall₂_of_boundFields
    {site : LambdaSite}
    {fields : List FieldRef}
    (areFields : boundFields site = .ok fields) :
    List.Forall₂ (fun parameter field => parameter.field = some field) site.parameters fields := by
  refine (forall₂_of_mapM_eq_ok areFields).imp fun parameter field isBound => ?_
  cases isField : parameter.field with
  | none =>
      rw [isField] at isBound
      cases isBound
  | some other =>
      rw [isField] at isBound
      cases isBound
      rfl

theorem implementationBody_eq_ok
    {arguments : List (FieldType × UInt16)}
    {fields : List FieldRef}
    {body : CodeBody Nat}
    (made : implementationBody scope hierarchy fields arguments before = .ok (body, after)) :
    ∃ prologue adapted replacements,
      IsImplementation scope hierarchy arguments fields prologue adapted replacements before after
        body := by
  unfold implementationBody Place.locate at made
  simp only [thread_bind_eq_ok, thread_lift_eq_ok, thread_pure_eq_ok] at made
  obtain ⟨prologue, _, ⟨prologueMade, rfl⟩, replacements, _, translated, adapted, _,
    ⟨adaptedMade, rfl⟩, equal⟩ := made
  cases equal
  exact ⟨prologue, adapted, replacements, mapError_eq_ok.mp prologueMade, translated,
    mapError_eq_ok.mp adaptedMade, rfl, rfl⟩

theorem implementation_eq_ok
    {implemented : MethodDefinition}
    (made : implementation scope hierarchy before = .ok (implemented, after)) :
    ∃ fields body prologue adapted replacements,
      boundFields scope.self.site = .ok fields ∧
      implemented = ⟨declares MethodFlags.accPublic scope.self.method.name scope.self.method.type,
        some body⟩ ∧
      IsImplementation (scope.withSlots fields) hierarchy scope.arguments fields prologue adapted
        replacements before after body := by
  unfold implementation at made
  simp only [thread_bind_eq_ok, thread_lift_eq_ok, thread_pure_eq_ok] at made
  obtain ⟨fields, _, ⟨fieldsFound, rfl⟩, body, _, bodyMade, equal⟩ := made
  cases equal
  obtain ⟨prologue, adapted, replacements, isImplementation⟩ := implementationBody_eq_ok bodyMade
  exact ⟨fields, body, prologue, adapted, replacements, mapError_eq_ok.mp fieldsFound, rfl,
    isImplementation⟩

/-- The code of a span is replaced piece by piece. -/
theorem forall₂_of_translate_eq_ok
    {span : Span}
    {replacements : List Replacement}
    (translated : scope.translate span before = .ok (replacements, after)) :
    List.Forall₂ (fun piece replacement => replacement.span = piece.span ∧
        ∃ earlier later, scope.pieceCode span piece earlier = .ok (replacement.code, later))
      (piecesOf scope.lambdaSites (some scope.number) span) replacements := by
  refine (forall₂_of_thread_mapM_eq_ok translated).imp ?_
  rintro piece replacement ⟨earlier, later, isReplacement⟩
  obtain ⟨code, _, isCode, equal⟩ := thread_bind_eq_ok.mp isReplacement
  cases thread_pure_eq_ok.mp equal
  exact ⟨rfl, earlier, later, isCode⟩

end Parts

/-! ## The classes of a method -/

/-- The classes that are made for the sites of a method, each in the hierarchy that has the
ones made before it. -/
theorem addMethod_eq_ok
    {method : Method}
    {plan : MethodPlan}
    {version : Version}
    {place : Place}
    {made result : ClosureClasses}
    (added : made.addMethod method plan version place = .ok result) :
    ∃ definitions, result.classes = made.classes ++ definitions ∧
      List.Forall₂ (fun entry definition => ∃ hierarchy before after,
          closureClass method plan.sites entry.2 entry.1 hierarchy version place before =
            .ok (definition, after))
        plan.sites.zipIdx definitions := by
  unfold ClosureClasses.addMethod at added
  refine foldlM_preserves (fun entries (reached : ClosureClasses) =>
    ∃ definitions, reached.classes = made.classes ++ definitions ∧
      List.Forall₂ (fun entry definition => ∃ hierarchy before after,
          closureClass method plan.sites entry.2 entry.1 hierarchy version place before =
            .ok (definition, after))
        entries definitions) ?_ ⟨[], by simp, .nil⟩ added
  rintro entries entry reached next _ ⟨definitions, classes, each⟩ stepped
  obtain ⟨⟨definition, bridges⟩, isMade, equal⟩ := bind_eq_ok.mp stepped
  cases equal
  refine ⟨definitions ++ [definition], by simp [classes], ?_⟩
  exact List.rel_append each (.cons ⟨_, _, _, isMade⟩ .nil)

/-! ## The classes of several methods -/

/-- A site of a method whose conversion is planned. -/
structure PlannedSite where
  planned : PlannedMethod
  self : SitePlan
  number : Nat

/-- The sites of a method, in order. -/
def PlannedMethod.sites (planned : PlannedMethod) : List PlannedSite :=
  planned.plan.sites.zipIdx.map fun entry => ⟨planned, entry.1, entry.2⟩

/-- Makes the class of the closure of a site. -/
def PlannedSite.addClass (site : PlannedSite) (version : Version) (made : ClosureClasses) :
    Except ClosureError ClosureClasses :=
  ClosureClasses.addSite site.planned.method site.planned.plan version site.planned.place made
    (site.self, site.number)

/-- What the class of one site after the other preserves holds of all classes that are made for
planned methods. -/
theorem ofPlans_induction
    {hierarchy : Hierarchy}
    {owner : ClassDeclaration}
    {version : Version}
    {planned : List PlannedMethod}
    {result : ClosureClasses}
    (Holds : List PlannedSite → ClosureClasses → Prop)
    (initial : Holds [] ⟨hierarchy, .ofClass owner, []⟩)
    (preserved : ∀ done (site : PlannedSite) reached next, site.planned ∈ planned →
      site.self ∈ site.planned.plan.sites → Holds done reached →
        site.addClass version reached = .ok next → Holds (done ++ [site]) next)
    (isMade : ClosureClasses.ofPlans hierarchy owner version planned = .ok result) :
    Holds (planned.flatMap PlannedMethod.sites) result := by
  unfold ClosureClasses.ofPlans at isMade
  refine foldlM_preserves (fun done reached => Holds (done.flatMap PlannedMethod.sites) reached) ?_
    initial isMade
  intro done entry reached next isPlanned holds added
  unfold ClosureClasses.addMethod at added
  rw [List.flatMap_append, List.flatMap_singleton]
  refine foldlM_preserves (fun entries reached => Holds (done.flatMap PlannedMethod.sites ++
    entries.map fun site => ⟨entry, site.1, site.2⟩) reached) ?_ (by simpa using holds) added
  intro sites site reached next member holds stepped
  have isSite : site.1 ∈ entry.plan.sites :=
    List.mem_iff_getElem?.mpr ⟨site.2, List.mem_zipIdx_iff_getElem?.mp member⟩
  rw [List.map_append, List.map_singleton, ← List.append_assoc]
  exact preserved _ ⟨entry, site.1, site.2⟩ reached next isPlanned isSite holds stepped

/-! ## Positions -/

theorem length_placesFrom
    {start last : Nat}
    (next : Nat)
    {replacements : List Replacement}
    (tiles : Tiles start (replacements.map Replacement.span) last)
    (nonempty : ∀ replacement ∈ replacements, replacement.span.start < replacement.span.stop) :
    start + (placesFrom next replacements).length = last + 1 := by
  induction replacements generalizing start next with
  | nil =>
      have equal : start = last := tiles
      rw [equal]
      rfl
  | cons replacement rest inductionHypothesis =>
      obtain ⟨rfl, tilesRest⟩ := tiles
      have isNonempty := nonempty replacement List.mem_cons_self
      have restLength := inductionHypothesis (next + replacement.code.length) tilesRest
        fun other member => nonempty other (List.mem_cons_of_mem _ member)
      simp only [placesFrom, List.length_append, List.length_cons, List.length_replicate,
        Span.length]
      omega

/-- Every position of a replaced span has a place, and so has the one just after it. -/
theorem exists_place?_ofReplacements
    {start last index : Nat}
    (next : Nat)
    {replacements : List Replacement}
    (tiles : Tiles start (replacements.map Replacement.span) last)
    (nonempty : ∀ replacement ∈ replacements, replacement.span.start < replacement.span.stop)
    (fromStart : start ≤ index)
    (upToLast : index ≤ last) :
    ∃ place, (Relocation.ofReplacements start next replacements).place? index = some place := by
  have length := length_placesFrom next tiles nonempty
  have isInside : index - start < (placesFrom next replacements).length := by omega
  refine ⟨(placesFrom next replacements)[index - start], ?_⟩
  unfold Relocation.place? Relocation.ofReplacements
  rw [if_neg (Nat.not_lt.mpr fromStart), List.getElem?_toArray]
  exact List.getElem?_eq_getElem isInside

end ClosureConversion
