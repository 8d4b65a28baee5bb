import ClosureConversion.Proofs.Hierarchy.Searching
import ClosureConversion.Proofs.Session.Caching
import ClosureConversion.Proofs.Session.Remembering
import Mathlib.Data.List.Induction

/-!
Contract: when a session converts a class as if it were the first one.

Owns:
- a class is completed alike if what is kept for its closures is what they have without that;
- a class is converted as if it were the first one if no class before it was told something else,
  and none of them took a name of its closures;
- classes that the hierarchy loads are told the same, and take no names of each other's closures
  if their names are apart.

Does not own: what is remembered of the answers.
-/

namespace ClosureConversion

/-! ## Closures -/

/-- What is kept for the classes of the closures is what they have without it. -/
def PreparedClass.IsKeptBy (prepared : PreparedClass) (cache : ClosureCache) : Prop :=
  ∀ definition ∈ prepared.closures, ∀ kept,
    cache.get? definition.name = some kept → prepared.build definition = .ok kept

section Closures

variable {prepared : PreparedClass} {cache : ClosureCache}

theorem PreparedClass.closureEntry_of_isKeptBy
    (isKeptBy : prepared.IsKeptBy cache)
    {definition : ClassDefinition}
    (member : definition ∈ prepared.closures) :
    prepared.closureEntry cache definition = prepared.closureEntry .empty definition := by
  unfold closureEntry
  cases isKept : cache.get? definition.name with
  | none => rfl
  | some kept =>
      change Except.ok (definition.name, kept) =
        (prepared.build definition >>= fun bytes => .ok (definition.name, bytes))
      rw [isKeptBy definition member kept isKept]
      rfl

theorem PreparedClass.complete_of_isKeptBy
    (isKeptBy : prepared.IsKeptBy cache) :
    prepared.complete cache = prepared.complete .empty := by
  unfold complete
  rw [mapM_congr fun definition member => closureEntry_of_isKeptBy isKeptBy member]

/-- A class of a closure that is made without a cache is built. -/
theorem PreparedClass.exists_build_of_complete_empty
    {converted : ConvertedClass}
    (completes : prepared.complete .empty = .ok converted)
    {entry : BinaryName × Bytes}
    (member : entry ∈ converted.closures) :
    ∃ definition ∈ prepared.closures,
      definition.name = entry.1 ∧ prepared.build definition = .ok entry.2 := by
  obtain ⟨closures, computed, isConverted⟩ := bind_eq_ok.mp completes
  cases isConverted
  obtain ⟨definition, isClosure, isEntry⟩ :=
    exists_mem_of_forall₂ (forall₂_of_mapM_eq_ok computed) member
  obtain ⟨bytes, isBuilt, equal⟩ := bind_eq_ok.mp isEntry
  cases equal
  exact ⟨definition, isClosure, rfl, isBuilt⟩

/-- What is kept makes no difference to a class if its closures have that without it. -/
theorem PreparedClass.finish_of_isKeptBy
    (isKeptBy : prepared.IsKeptBy cache) :
    Prod.fst <$> prepared.finish cache = Prod.fst <$> prepared.finish .empty := by
  unfold finish
  rw [complete_of_isKeptBy isKeptBy]
  cases completes : prepared.complete .empty with
  | error error => rfl
  | ok converted =>
      have sameClosures : (cache.insertAll converted.closures).1 =
          (ClosureCache.empty.insertAll converted.closures).1 := by
        refine ClosureCache.insertAll_congr fun entry member => ?_
        obtain ⟨definition, isClosure, isNamed, isBuilt⟩ :=
          exists_build_of_complete_empty completes member
        rw [ClosureCache.fst_insert, ClosureCache.fst_insert]
        cases isKept : cache.get? entry.1 with
        | none => rfl
        | some kept =>
            have keepsSame := isKeptBy definition isClosure kept (isNamed ▸ isKept)
            rw [isBuilt] at keepsSame
            cases keepsSame
            rfl
      change Except.ok { converted with closures := (cache.insertAll converted.closures).1 } = _
      rw [sameClosures]
      rfl

/-- A class that is kept after another one was finished was kept before, or is one of those that
the other one has. -/
theorem PreparedClass.get?_of_finish_eq_ok
    {converted : ConvertedClass}
    {after : ClosureCache}
    (finishes : prepared.finish cache = .ok (converted, after))
    {name : BinaryName}
    {bytes : Bytes}
    (isKept : after.get? name = some bytes) :
    cache.get? name = some bytes ∨ (name, bytes) ∈ converted.closures := by
  obtain ⟨completed, completes, equal⟩ := bind_eq_ok.mp finishes
  cases equal
  exact ClosureCache.mem_insertAll_of_get? isKept

/-- The classes of the closures keep their names. -/
theorem PreparedClass.map_fst_of_closureEntries
    {closures : List (BinaryName × Bytes)}
    (computed : prepared.closures.mapM (prepared.closureEntry cache) = .ok closures) :
    closures.map Prod.fst = prepared.closures.map ClassDefinition.name := by
  have named : List.Forall₂ (fun definition entry => entry.1 = definition.name)
      prepared.closures closures := by
    refine (forall₂_of_mapM_eq_ok computed).imp fun definition entry isEntry => ?_
    unfold closureEntry at isEntry
    split at isEntry
    · cases isEntry
      rfl
    · obtain ⟨_, _, equal⟩ := bind_eq_ok.mp isEntry
      cases equal
      rfl
  have same := List.forall₂_map_right_iff.mpr (List.forall₂_map_left_iff.mpr named.flip)
  rwa [List.forall₂_eq_eq_eq] at same

/-- The classes that are listed have the names of the classes of the closures. -/
theorem PreparedClass.map_fst_of_finish_eq_ok
    {finished : ConvertedClass × ClosureCache}
    (finishes : prepared.finish cache = .ok finished) :
    finished.1.closures.map Prod.fst = prepared.closures.map ClassDefinition.name := by
  obtain ⟨completed, completes, equal⟩ := bind_eq_ok.mp finishes
  obtain ⟨closures, computed, isCompleted⟩ := bind_eq_ok.mp completes
  cases isCompleted
  cases equal
  change (cache.insertAll closures).1.map Prod.fst = _
  rw [ClosureCache.map_fst_insertAll]
  exact map_fst_of_closureEntries computed

end Closures

/-! ## Sessions -/

/-- The session after it converted classes one after another. -/
def Session.run (session : Session) (inputs : List Bytes) : Session :=
  inputs.foldl (fun session input => (session.convert input).2) session

/-- What a class is converted to by a session that converted nothing before. -/
def Settings.convertAlone (settings : Settings) (hierarchy : Hierarchy) (input : Bytes) :
    Except ClosureError ConvertedClass :=
  ((Session.start settings hierarchy).convert input).1

/-- Converting a class first makes no difference to another one: no question about both has
another answer for the other class, and the classes of closures that both name are the same. -/
structure Settings.LeavesAlone (settings : Settings) (hierarchy : Hierarchy)
    (earlier later : Bytes) : Prop where
  answers : ∀ question known answer, (question, .ok known) ∈ settings.asked hierarchy earlier →
    (question, answer) ∈ settings.asked hierarchy later → answer = .ok known
  closures : ∀ converted prepared, settings.convertAlone hierarchy earlier = .ok converted →
    settings.prepared hierarchy later = .ok prepared →
      ∀ definition ∈ prepared.closures, ∀ bytes,
        (definition.name, bytes) ∈ converted.closures → prepared.build definition = .ok bytes

/-- A session remembers nothing but what was asked about the classes that it converted, and keeps
nothing but what those classes have by themselves. -/
structure Session.IsAfter (settings : Settings) (hierarchy : Hierarchy) (done : List Bytes)
    (session : Session) : Prop where
  sameSettings : session.settings = settings
  sameHierarchy : session.hierarchy = hierarchy
  decided : ∀ question answer, session.decisions.find? question = some answer →
    ∃ input ∈ done, (question, .ok answer) ∈ settings.asked hierarchy input
  kept : ∀ name bytes, session.cache.get? name = some bytes →
    ∃ input ∈ done, ∃ converted, settings.convertAlone hierarchy input = .ok converted ∧
      (name, bytes) ∈ converted.closures

section Sessions

variable {settings : Settings} {hierarchy : Hierarchy}

theorem Session.convert_of_remembering
    {session : Session}
    {input : Bytes}
    {result : Except ClosureError PreparedClass}
    {after : Decisions}
    (prepares : prepareClass session.settings session.hierarchy session.settings.convention input
      session.decisions = remembering result after) :
    session.convert input =
      match result >>= fun prepared => prepared.finish session.cache with
      | .error error => (.error error, { session with decisions := after })
      | .ok (converted, cache) => (.ok converted, { session with decisions := after, cache }) := by
  rw [Session.convert_eq, prepares]
  cases result with
  | error error => rfl
  | ok prepared =>
      unfold remembering
      rw [ok_bind]
      dsimp only
      unfold PreparedClass.finish
      cases prepared.complete session.cache <;> rfl

/-- What the first class of a session is converted to. -/
theorem convertAlone_eq
    (settings : Settings)
    (hierarchy : Hierarchy)
    (input : Bytes) :
    settings.convertAlone hierarchy input =
      (settings.prepared hierarchy input >>= fun prepared =>
        Prod.fst <$> prepared.finish .empty) := by
  have nothingDecided : ∀ question known answer,
      (Session.start settings hierarchy).decisions.find? question = some known →
        (question, answer) ∈ settings.asked hierarchy input → answer = .ok known := by
    intro question known answer found
    cases question <;> cases found
  obtain ⟨after, prepares, _⟩ := prepareClass_of_agree nothingDecided
  unfold Settings.convertAlone
  rw [(Session.start settings hierarchy).convert_of_remembering prepares]
  cases settings.prepared hierarchy input with
  | error error => rfl
  | ok prepared =>
      change (match prepared.finish .empty with
        | .error error => _
        | .ok (converted, cache) => _ : Except ClosureError ConvertedClass × Session).1 =
          Prod.fst <$> prepared.finish .empty
      cases prepared.finish .empty <;> rfl

/-- One step of a session: a class that is left alone by those before it is converted as it would
be first, and the session stays one after the classes that it converted. -/
theorem convert_of_isAfter
    {session : Session}
    {done : List Bytes}
    {input : Bytes}
    (isAfter : session.IsAfter settings hierarchy done)
    (leftAlone : ∀ earlier ∈ done, settings.LeavesAlone hierarchy earlier input) :
    (session.convert input).1 = settings.convertAlone hierarchy input ∧
      (session.convert input).2.IsAfter settings hierarchy (done ++ [input]) := by
  obtain ⟨rfl, rfl, decided, kept⟩ := isAfter
  have agree : ∀ question known answer, session.decisions.find? question = some known →
      (question, answer) ∈ session.settings.asked session.hierarchy input →
        answer = .ok known := by
    intro question known answer found isAsked
    obtain ⟨earlier, isDone, wasAsked⟩ := decided question known found
    exact (leftAlone earlier isDone).answers question known answer wasAsked isAsked
  obtain ⟨after, prepares, remembered⟩ := prepareClass_of_agree agree
  have decidedAfter : ∀ question answer, after.find? question = some answer →
      ∃ earlier ∈ done ++ [input],
        (question, .ok answer) ∈ session.settings.asked session.hierarchy earlier := by
    intro question answer found
    rcases (remembered question answer).mp found with isOld | isAsked
    · obtain ⟨earlier, isDone, wasAsked⟩ := decided question answer isOld
      exact ⟨earlier, List.mem_append_left _ isDone, wasAsked⟩
    · exact ⟨input, List.mem_append_right _ (List.mem_singleton_self input), isAsked⟩
  have keptBefore : ∀ name bytes, session.cache.get? name = some bytes →
      ∃ earlier ∈ done ++ [input], ∃ converted,
        session.settings.convertAlone session.hierarchy earlier = .ok converted ∧
          (name, bytes) ∈ converted.closures := by
    intro name bytes isKept
    obtain ⟨earlier, isDone, isFrom⟩ := kept name bytes isKept
    exact ⟨earlier, List.mem_append_left _ isDone, isFrom⟩
  rw [session.convert_of_remembering prepares]
  have alone := convertAlone_eq session.settings session.hierarchy input
  cases isPrepared : session.settings.prepared session.hierarchy input with
  | error error =>
      rw [isPrepared] at alone
      exact ⟨alone.symm, rfl, rfl, decidedAfter, keptBefore⟩
  | ok prepared =>
      have isKeptBy : prepared.IsKeptBy session.cache := by
        intro definition isClosure bytes isKept
        obtain ⟨earlier, isDone, converted, isConverted, member⟩ :=
          kept definition.name bytes isKept
        exact (leftAlone earlier isDone).closures converted prepared isConverted isPrepared
          definition isClosure bytes member
      rw [isPrepared] at alone
      replace alone : session.settings.convertAlone session.hierarchy input =
          Prod.fst <$> prepared.finish session.cache :=
        alone.trans (PreparedClass.finish_of_isKeptBy isKeptBy).symm
      change (match prepared.finish session.cache with
          | .error error => _
          | .ok (converted, cache) => _ : Except ClosureError ConvertedClass × Session).1 = _ ∧
        (match prepared.finish session.cache with
          | .error error => _
          | .ok (converted, cache) => _ : Except ClosureError ConvertedClass × Session).2.IsAfter
            _ _ _
      cases finishes : prepared.finish session.cache with
      | error error =>
          rw [finishes] at alone
          exact ⟨alone.symm, rfl, rfl, decidedAfter, keptBefore⟩
      | ok finished =>
          obtain ⟨converted, cache⟩ := finished
          rw [finishes] at alone
          refine ⟨alone.symm, rfl, rfl, decidedAfter, fun name bytes isKept => ?_⟩
          rcases PreparedClass.get?_of_finish_eq_ok finishes isKept with wasKept | isOwn
          · exact keptBefore name bytes wasKept
          · exact ⟨input, List.mem_append_right _ (List.mem_singleton_self input), converted,
              alone, isOwn⟩

/-- A session is one after the classes that it converted if each was left alone by those before
it. -/
theorem isAfter_run
    {inputs : List Bytes}
    (leftAlone : inputs.Pairwise (settings.LeavesAlone hierarchy)) :
    ((Session.start settings hierarchy).run inputs).IsAfter settings hierarchy inputs := by
  induction inputs using List.reverseRecOn with
  | nil =>
      refine ⟨rfl, rfl, fun question answer found => ?_, fun name bytes isKept => ?_⟩
      · cases question <;> cases found
      · cases isKept
  | append_singleton earlier input inductionHypothesis =>
      obtain ⟨earlierAlone, _, inputAlone⟩ := List.pairwise_append.mp leftAlone
      unfold Session.run
      rw [List.foldl_append]
      exact (convert_of_isAfter (inductionHypothesis earlierAlone) fun other member =>
        inputAlone other member input (List.mem_singleton_self input)).2

end Sessions

/-! ## Classes that are loaded -/

/-- The class of a class file is the one that the hierarchy finds by its name. -/
def Hierarchy.Loads (hierarchy : Hierarchy) (input : Bytes) : Prop :=
  ∀ owner, ClassDeclaration.ofBytes input = .ok owner → hierarchy.resolve owner.name = .ok owner

/-- The name that a class file has. -/
def ClassFile.nameOf (input : Bytes) : Except BytecodeError BinaryName := do
  (← ClassFile.ofBytes input).thisName

section Loaded

variable {settings : Settings} {hierarchy : Hierarchy}

theorem resolve_declare_of_resolve_eq_ok
    {owner : ClassDeclaration}
    (found : hierarchy.resolve owner.name = .ok owner)
    (name : BinaryName) :
    (hierarchy.declare owner).resolve name = hierarchy.resolve name := by
  unfold Hierarchy.resolve Hierarchy.declare at *
  rw [List.find?_append]
  cases isDeclared : hierarchy.declared.find? fun declaration => declaration.name = name with
  | some declaration => rfl
  | none =>
      rw [Option.none_or, List.find?_singleton]
      by_cases isName : owner.name = name
      · subst isName
        rw [isDeclared] at found
        rw [if_pos (by simp)]
        exact found.symm
      · rw [if_neg (by simpa using isName)]
        rfl

/-- A class that is loaded anyway makes no difference to what is found. -/
theorem resolve_withClass_of_loads
    {input : Bytes}
    (loads : hierarchy.Loads input)
    (name : BinaryName) :
    (hierarchy.withClass input).resolve name = hierarchy.resolve name := by
  unfold Hierarchy.withClass
  cases isOwner : ClassDeclaration.ofBytes input with
  | error error => rfl
  | ok owner => exact resolve_declare_of_resolve_eq_ok (loads owner isOwner) name

/-- Questions are answered by what is found. -/
theorem decide_congr
    {other : Hierarchy}
    (same : ∀ name, other.resolve name = hierarchy.resolve name) :
    settings.decide other = settings.decide hierarchy := by
  funext question
  cases question with
  | factory owner name type =>
      have sameMethod : other.findMethod? owner name type = hierarchy.findMethod? owner name type :=
        Hierarchy.search_congr same _ _
      unfold Settings.decide Settings.marksFactory
      dsimp only
      rw [sameMethod]
  | parameter owner name =>
      have sameField : other.findField? owner name = hierarchy.findField? owner name :=
        Hierarchy.search_congr same _ _
      unfold Settings.decide Settings.marksParameter
      dsimp only
      rw [sameField]

/-- The name of a prepared class is the one that its class file has. -/
theorem nameOf_of_prepared_eq_ok
    {input : Bytes}
    {prepared : PreparedClass}
    (isPrepared : settings.prepared hierarchy input = .ok prepared) :
    ClassFile.nameOf input = .ok prepared.name := by
  unfold Settings.prepared at isPrepared
  split at isPrepared
  · rename_i prepares
    cases isPrepared
    obtain ⟨file, isRead, isName, _⟩ := prepareClass_eq_ok prepares
    exact bind_eq_ok.mpr ⟨file, isRead, isName⟩
  · cases isPrepared

/-- The classes of the closures of a prepared class have names that are made of its own. -/
theorem closureName_of_prepared_eq_ok
    {input : Bytes}
    {prepared : PreparedClass}
    (isPrepared : settings.prepared hierarchy input = .ok prepared) :
    ∀ definition ∈ prepared.closures, ∃ target line number,
      settings.closureName prepared.name target line number = .ok definition.name := by
  unfold Settings.prepared at isPrepared
  split at isPrepared
  · rename_i prepares
    cases isPrepared
    exact (nodup_name_of_prepareClass_eq_ok prepares).2
  · cases isPrepared

/-- Classes that are loaded leave each other alone if their names are apart. -/
theorem leavesAlone_of_loads
    {earlier later : Bytes}
    (loadsEarlier : hierarchy.Loads earlier)
    (loadsLater : hierarchy.Loads later)
    (apart : ∀ name other, ClassFile.nameOf earlier = .ok name →
      ClassFile.nameOf later = .ok other → name.IsApartFrom other) :
    settings.LeavesAlone hierarchy earlier later := by
  constructor
  · intro question known answer wasAsked isAsked
    rw [eq_decide_of_mem_asked isAsked, decide_congr (resolve_withClass_of_loads loadsLater),
      ← decide_congr (resolve_withClass_of_loads loadsEarlier), ← eq_decide_of_mem_asked wasAsked]
  · intro converted prepared isConverted isPrepared definition isClosure bytes member
    rw [convertAlone_eq] at isConverted
    obtain ⟨first, isFirst, isConverted⟩ := bind_eq_ok.mp isConverted
    obtain ⟨finished, finishes, rfl⟩ := map_eq_ok.mp isConverted
    have names := PreparedClass.map_fst_of_finish_eq_ok finishes
    obtain ⟨other, isOther, sameName⟩ := List.mem_map.mp (names ▸ List.mem_map_of_mem member)
    obtain ⟨_, _, _, named⟩ := closureName_of_prepared_eq_ok isPrepared definition isClosure
    obtain ⟨_, _, _, otherNamed⟩ := closureName_of_prepared_eq_ok isFirst other isOther
    exact absurd sameName ((apart _ _ (nameOf_of_prepared_eq_ok isFirst)
      (nameOf_of_prepared_eq_ok isPrepared)).closureName_ne otherNamed named)

end Loaded

/-! ## Independence -/

/-- A class that is left alone by the classes before it, as these are by those before them, is
converted as if it were the first one. -/
theorem convert_run_eq_convertAlone
    (settings : Settings)
    (hierarchy : Hierarchy)
    {earlier : List Bytes}
    {input : Bytes}
    (leftAlone : (earlier ++ [input]).Pairwise (settings.LeavesAlone hierarchy)) :
    (((Session.start settings hierarchy).run earlier).convert input).1 =
      settings.convertAlone hierarchy input := by
  obtain ⟨earlierAlone, _, inputAlone⟩ := List.pairwise_append.mp leftAlone
  exact (convert_of_isAfter (isAfter_run earlierAlone) fun other member =>
    inputAlone other member input (List.mem_singleton_self input)).1

namespace OwnFactory

/-- The class that declares the factory. -/
def maker : BinaryName := ⟨"demo/Maker", by decide⟩

/-- A class that calls the factory. -/
def caller : BinaryName := ⟨"demo/Caller", by decide⟩

theorem isBinaryName_supplier : IsBinaryName "java/util/function/IntSupplier".toList := by
  decide

theorem isUnqualified_supply : IsUnqualified "supply".toList := by
  decide

theorem isUnqualified_getAsInt : IsUnqualified "getAsInt".toList := by
  decide

theorem isUnqualified_run : IsUnqualified "run".toList := by
  decide

/-- The type of the closures. -/
def supplier : BinaryName := ⟨"java/util/function/IntSupplier", isBinaryName_supplier⟩

/-- The factory. -/
def factory : MethodRef where
  owner := .object maker
  name := ⟨"supply", isUnqualified_supply⟩
  type := ⟨[.base .int], some (.ref (.object supplier))⟩
  ofInterface := false

/-- The constants of a class. -/
def constants (name : BinaryName) : List Constant :=
  [.utf8 name.text, .classInfo 1, .utf8 "java/lang/Object", .classInfo 3, .utf8 "Code",
    .utf8 "demo/Maker", .classInfo 6, .utf8 "supply", .utf8 "(I)Ljava/util/function/IntSupplier;",
    .nameAndType 8 9, .methodRef 7 10 false, .utf8 "run",
    .utf8 "()Ljava/util/function/IntSupplier;", .utf8 "RuntimeInvisibleAnnotations",
    .utf8 "Lclosureweave/Lambda;"]

/-- The factory in its class file. -/
def supplyMember : Member .method :=
  ⟨MethodFlags.accStatic, 8, 9,
    [⟨5, write (CodeAttribute.mk 1 1 [0x01, 0xb0] [] [])⟩,
      ⟨14, write (InvisibleAnnotations.mk [⟨15, []⟩])⟩]⟩

/-- The call of the factory in a class file. -/
def runMember : Member .method :=
  ⟨MethodFlags.accStatic, 12, 13,
    [⟨5, write (CodeAttribute.mk 1 0 [0x04, 0xb8, 0, 11, 0xb0] [] [])⟩]⟩

/-- A class file. -/
def file (name : BinaryName) (methods : List (Member .method)) : ClassFile where
  version := .java8
  pool := .ofTable (.ofList 1 (constants name)) []
  flags := ClassFlags.accPublic
  this := 2
  super := 4
  interfaces := []
  fields := []
  methods := methods
  attributes := []

/-- The class that calls the factory. -/
def callerFile : ClassFile := file caller [runMember]

/-- The class that declares the factory, and calls it. -/
def makerFile : ClassFile := file maker [supplyMember, runMember]

/-- The method that calls the factory. -/
def runMethod (owner : BinaryName) : Method where
  instructions := #[.pushInt 1, .invoke .static factory, .op (.leave (some .reference))]
  owner := owner
  flags := MethodFlags.accStatic
  name := ⟨"run", isUnqualified_run⟩
  type := ⟨[], some (.ref (.object supplier))⟩
  hasVariableTable := false
  maxLocals := 0

/-- What a class declares apart from the method that calls the factory. -/
def declaration (name : BinaryName) (factories : List MethodDeclaration) : ClassDeclaration where
  name := name
  super := some .object
  interfaces := []
  flags := ClassFlags.accPublic
  fields := []
  methods := factories ++
    [declares MethodFlags.accStatic ⟨"run", isUnqualified_run⟩ (runMethod name).type]
  annotations := []

/-- What the class that calls the factory declares. -/
def callerClass : ClassDeclaration := declaration caller []

/-- What the class with the factory declares. -/
def makerClass : ClassDeclaration :=
  declaration maker
    [⟨factory.name, factory.type, MethodFlags.accStatic, [Settings.standard.factoryMark]⟩]

/-- The only question about either class. -/
def question : Question := .factory maker factory.name factory.type

/-- The factory, which gives no closure itself. -/
def supplyMethod : Method where
  instructions := #[.op .pushNull, .op (.leave (some .reference))]
  owner := maker
  flags := MethodFlags.accStatic
  name := factory.name
  type := factory.type
  hasVariableTable := false
  maxLocals := 1

/-- The frames of the method that calls the factory. -/
def frames : FlowAnalysis where
  frames := #[some ⟨[], []⟩, some ⟨[], [.int]⟩, some ⟨[], [.object (.object supplier)]⟩]
  maxStack := 1
  maxLocals := 0

/-- The site of the closure. -/
def site : LambdaSite where
  id := 0
  line := none
  factory := factory
  target := supplier
  parameters := []
  body := ⟨0, 1⟩
  call := 1
  stop := 2
  parent := none

/-- The method that the closure implements. -/
def outcome : AbstractMethod :=
  ⟨supplier, ⟨"getAsInt", isUnqualified_getAsInt⟩, ⟨[], some (.base .int)⟩, true⟩

/-- The class of the closure. -/
def closureName : BinaryName := ⟨"demo/Maker$IntSupplier$L0$0", by decide⟩

/-- The plan of the method that calls the factory. -/
def plan : MethodPlan where
  sites := [⟨site, {}, outcome, closureName⟩]
  boxes := []

/-- Every question has one answer. -/
def script (answer : Bool) : Hierarchy → Question → Answer :=
  fun _ _ => .ok answer

theorem ofBytes_callerFile : ClassFile.ofBytes callerFile.toBytes = .ok callerFile := by
  with_unfolding_all rfl

theorem ofBytes_makerFile : ClassFile.ofBytes makerFile.toBytes = .ok makerFile := by
  with_unfolding_all rfl

theorem ofClassFile_callerFile : ClassDeclaration.ofClassFile callerFile = .ok callerClass := by
  with_unfolding_all rfl

theorem ofClassFile_makerFile : ClassDeclaration.ofClassFile makerFile = .ok makerClass := by
  with_unfolding_all rfl

theorem ofBytes_callerClass : ClassDeclaration.ofBytes callerFile.toBytes = .ok callerClass :=
  bind_eq_ok.mpr ⟨callerFile, ofBytes_callerFile, ofClassFile_callerFile⟩

theorem ofBytes_makerClass : ClassDeclaration.ofBytes makerFile.toBytes = .ok makerClass :=
  bind_eq_ok.mpr ⟨makerFile, ofBytes_makerFile, ofClassFile_makerFile⟩

theorem factoryCalls_runMethod
    (owner : BinaryName)
    (hierarchy : Hierarchy)
    (answer : Bool) :
    factoryCalls (runMethod owner) hierarchy (.logging (script answer)) [] =
      .ok (if answer then [1] else []) [(question, .ok answer)] := by
  cases answer <;> rfl

/-- Where its call is not known to be one of a factory, the first class stays as it is. -/
theorem prepareClass_callerFile
    (hierarchy : Hierarchy) :
    prepareClass .standard hierarchy (.logging (script false)) callerFile.toBytes [] =
      .ok (.unchanged caller callerFile.toBytes (hierarchy.declare callerClass))
        [(question, .ok false)] := by
  refine prepareClass_of_noPlans ofBytes_callerFile ofClassFile_callerFile rfl ?_
  have noSite : planMember .standard (hierarchy.declare callerClass) (.logging (script false))
      callerFile 0 0 runMember [] = .ok none [(question, .ok false)] :=
    planMember_of_noCalls (by with_unfolding_all rfl) (factoryCalls_runMethod caller _ false)
  exact run_bind_eq_ok.mpr ⟨none, _, noSite, rfl⟩

theorem planMember_supplyMember
    (hierarchy : Hierarchy)
    (answer : Bool) :
    planMember .standard hierarchy (.logging (script answer)) makerFile 0 0 supplyMember [] =
      .ok none [] := by
  have isRead : Method.ofMember? makerFile supplyMember = .ok (some supplyMethod) := by
    with_unfolding_all rfl
  exact planMember_of_noCalls isRead rfl

/-- Where its call is not known to be one of a factory, the class with the factory stays as it
is. -/
theorem prepareClass_makerFile
    (hierarchy : Hierarchy) :
    prepareClass .standard hierarchy (.logging (script false)) makerFile.toBytes [] =
      .ok (.unchanged maker makerFile.toBytes (hierarchy.declare makerClass))
        [(question, .ok false)] := by
  refine prepareClass_of_noPlans ofBytes_makerFile ofClassFile_makerFile rfl ?_
  have noSite : planMember .standard (hierarchy.declare makerClass) (.logging (script false))
      makerFile 1 0 runMember [] = .ok none [(question, .ok false)] :=
    planMember_of_noCalls (by with_unfolding_all rfl) (factoryCalls_runMethod maker _ false)
  exact run_bind_eq_ok.mpr ⟨none, _, planMember_supplyMember _ false,
    run_bind_eq_ok.mpr ⟨none, _, noSite, rfl⟩⟩

theorem abstractMethod_site :
    site.abstractMethod (Hierarchy.core.declare makerClass) = .ok outcome := by
  have found : (Hierarchy.core.declare makerClass).resolve supplier =
      .ok (CoreClass.functional supplier outcome.name outcome.type.parameters
        outcome.type.result) := by
    with_unfolding_all rfl
  have isSole : (Hierarchy.core.declare makerClass).soleCandidate supplier 0
      (CoreClass.functional supplier outcome.name outcome.type.parameters outcome.type.result) =
        .ok (some outcome) := by
    with_unfolding_all rfl
  exact LambdaSite.abstractMethod_eq_ok found isSole

/-- Where its call is known to be one of a factory, the method that calls it has a plan, in any
class file in which it is read. -/
theorem planMember_runMember
    {settings : Settings}
    {file : ClassFile}
    (isRead : Method.ofMember? file runMember = .ok (some (runMethod maker)))
    (named : classNames [site] settings maker = .ok [closureName])
    (index : Nat) :
    planMember settings (Hierarchy.core.declare makerClass) (.logging (script true)) file index 0
      runMember [] = .ok (some ⟨index, runMethod maker, plan⟩) [(question, .ok true)] := by
  have analyzed : (runMethod maker).analyze (Hierarchy.core.declare makerClass) = .ok frames := by
    decide +kernel
  have detected : detectSites (runMethod maker) frames [1] 0 (Hierarchy.core.declare makerClass)
      (.logging (script true)) (Place.ofMethod (runMethod maker)) [(question, .ok true)] =
        .ok [site] [(question, .ok true)] := by
    with_unfolding_all rfl
  have captured : analyzeCaptures (runMethod maker) [site] (Hierarchy.core.declare makerClass)
      (.logging (script true)) (Place.ofMethod (runMethod maker)) [(question, .ok true)] =
        .ok ⟨[{}], []⟩ [(question, .ok true)] := by
    with_unfolding_all rfl
  have resolved : abstractMethods [site] (Hierarchy.core.declare makerClass)
      (Place.ofMethod (runMethod maker)) = .ok [outcome] := by
    unfold abstractMethods
    rw [List.mapM_cons, abstractMethod_site]
    rfl
  exact planMember_eq_ok.mpr ⟨rfl, isRead, [1], _, factoryCalls_runMethod maker _ true, rfl,
    planMethod_eq_ok.mpr ⟨frames, [site], ⟨[{}], []⟩, [outcome], [closureName], _, analyzed,
      detected, captured, resolved, named, rfl⟩⟩

/-- Where its call is known to be one of a factory, a class with the method that calls it and
another one that calls none has a closure. -/
theorem planMembers_runMember
    {settings : Settings}
    {file : ClassFile}
    {other : Member .method}
    (methods : file.methods = [other, runMember])
    (noSite : planMember settings (Hierarchy.core.declare makerClass) (.logging (script true))
      file 0 0 other [] = .ok none [])
    (isRead : Method.ofMember? file runMember = .ok (some (runMethod maker)))
    (named : classNames [site] settings maker = .ok [closureName]) :
    planMembers settings (Hierarchy.core.declare makerClass) (.logging (script true)) file 0 0
      file.methods [] = .ok [⟨1, runMethod maker, plan⟩] [(question, .ok true)] := by
  rw [methods]
  exact run_bind_eq_ok.mpr ⟨none, _, noSite, run_bind_eq_ok.mpr
    ⟨_, _, planMember_runMember isRead named 1, run_bind_eq_ok.mpr ⟨[], _, rfl, rfl⟩⟩⟩

theorem planMembers_makerFile :
    planMembers .standard (Hierarchy.core.declare makerClass) (.logging (script true)) makerFile 0 0
      makerFile.methods [] = .ok [⟨1, runMethod maker, plan⟩] [(question, .ok true)] :=
  planMembers_runMember rfl (planMember_supplyMember _ true) (by with_unfolding_all rfl)
    (by with_unfolding_all rfl)

/-- The class with the factory is not found while the first class is converted. -/
theorem decide_withoutMaker :
    Settings.standard.decide (Hierarchy.core.withClass callerFile.toBytes) question =
      .ok false := by
  have missing : (Hierarchy.core.declare callerClass).resolve maker =
      .error (.missingClass maker.text) := by
    with_unfolding_all rfl
  have notFound : (Hierarchy.core.declare callerClass).findMethod? maker factory.name factory.type =
      .error (.missingClass maker.text) := Hierarchy.search_cons_of_error rfl missing
  unfold Hierarchy.withClass
  rw [ofBytes_callerClass]
  unfold question Settings.decide Settings.marksFactory
  dsimp only
  rw [notFound]
  rfl

/-- The class with the factory is found while it is itself converted. -/
theorem decide_withMaker :
    Settings.standard.decide (Hierarchy.core.declare makerClass) question = .ok true := by
  have resolved : (Hierarchy.core.declare makerClass).resolve maker = .ok makerClass := by
    with_unfolding_all rfl
  have found : (Hierarchy.core.declare makerClass).findMethod? maker factory.name factory.type =
      .ok (some (makerClass, ⟨factory.name, factory.type, MethodFlags.accStatic,
        [Settings.standard.factoryMark]⟩)) :=
    Hierarchy.search_cons_of_some rfl resolved (by with_unfolding_all rfl)
  unfold question Settings.decide Settings.marksFactory
  dsimp only
  rw [found]
  with_unfolding_all rfl

/-- After the first class, the call in the class with the factory is not known to be one of a
factory. -/
theorem find?_of_convert_callerFile :
    ∃ decisions, (Session.start .standard .core).run [callerFile.toBytes] =
        ⟨.standard, .core, decisions, .empty⟩ ∧
      decisions.find? question = some false := by
  have logged := (isDialogue_prepareClass .standard .core callerFile.toBytes).logging_congr
    (prepareClass_callerFile .core) Settings.standard.decide (by
      intro entry member
      cases List.mem_singleton.mp member
      exact decide_withoutMaker)
  have isPrepared : Settings.standard.prepared .core callerFile.toBytes =
      .ok (.unchanged caller callerFile.toBytes (Hierarchy.core.declare callerClass)) := by
    unfold Settings.prepared
    rw [logged]
  have isAsked : Settings.standard.asked .core callerFile.toBytes = [(question, .ok false)] := by
    unfold Settings.asked
    rw [logged]
  have nothingDecided : ∀ question known answer,
      (Session.start .standard .core).decisions.find? question = some known →
        (question, answer) ∈ Settings.standard.asked .core callerFile.toBytes →
          answer = .ok known := by
    intro question known answer found
    cases question <;> cases found
  obtain ⟨after, prepares, remembered⟩ := prepareClass_of_agree nothingDecided
  rw [isPrepared] at prepares
  refine ⟨after, ?_, (remembered question false).mpr (.inr (isAsked ▸ List.mem_singleton_self _))⟩
  change ((Session.start .standard .core).convert callerFile.toBytes).2 = _
  rw [(Session.start .standard .core).convert_of_remembering prepares]
  rfl

/-- The classes of the platform, and both classes. -/
def loaded : Hierarchy :=
  .ofClassFiles [[(caller, callerFile.toBytes), (maker, makerFile.toBytes)]]

theorem loads_callerFile :
    loaded.Loads callerFile.toBytes := by
  intro owner isOwner
  rw [ofBytes_callerClass, Except.ok.injEq] at isOwner
  subst isOwner
  with_unfolding_all rfl

theorem loads_makerFile :
    loaded.Loads makerFile.toBytes := by
  intro owner isOwner
  rw [ofBytes_makerClass, Except.ok.injEq] at isOwner
  subst isOwner
  with_unfolding_all rfl

theorem nameOf_callerFile :
    ClassFile.nameOf callerFile.toBytes = .ok caller :=
  bind_eq_ok.mpr ⟨callerFile, ofBytes_callerFile,
    thisName_of_ofClassFile_eq_ok ofClassFile_callerFile⟩

theorem nameOf_makerFile :
    ClassFile.nameOf makerFile.toBytes = .ok maker :=
  bind_eq_ok.mpr ⟨makerFile, ofBytes_makerFile, thisName_of_ofClassFile_eq_ok ofClassFile_makerFile⟩

end OwnFactory

open OwnFactory in
/-- A class that calls a factory of its own is converted as if it were the first one, although
another class that calls it came before, if both are loaded. -/
theorem ownFactory_isRemembered :
    ([callerFile.toBytes] ++ [makerFile.toBytes]).Pairwise
        (Settings.standard.LeavesAlone loaded) ∧
      (((Session.start .standard loaded).run [callerFile.toBytes]).convert makerFile.toBytes).1 =
        Settings.standard.convertAlone loaded makerFile.toBytes := by
  have alone : Settings.standard.LeavesAlone loaded callerFile.toBytes makerFile.toBytes := by
    refine leavesAlone_of_loads loads_callerFile loads_makerFile fun name other isName isOther => ?_
    rw [nameOf_callerFile, Except.ok.injEq] at isName
    rw [nameOf_makerFile, Except.ok.injEq] at isOther
    subst isName isOther
    decide
  have pairwise : ([callerFile.toBytes] ++ [makerFile.toBytes]).Pairwise
      (Settings.standard.LeavesAlone loaded) := List.pairwise_pair.mpr alone
  exact ⟨pairwise, convert_run_eq_convertAlone .standard loaded pairwise⟩

open OwnFactory in
/-- A class that calls a factory of its own stays as it is after another class that calls it. -/
theorem ownFactory_isForgotten :
    ClassFile.nameOf callerFile.toBytes = .ok caller ∧
      ClassFile.nameOf makerFile.toBytes = .ok maker ∧
      (((Session.start .standard .core).run [callerFile.toBytes]).convert makerFile.toBytes).1 =
        .ok ⟨maker, makerFile.toBytes, []⟩ ∧
      Settings.standard.convertAlone .core makerFile.toBytes ≠
        .ok ⟨maker, makerFile.toBytes, []⟩ := by
  refine ⟨nameOf_callerFile, nameOf_makerFile, ?_, ?_⟩
  · obtain ⟨decisions, isAfter, isKnown⟩ := find?_of_convert_callerFile
    have agree : ∀ entry ∈ [(question, Except.ok false)],
        decisions.reply .standard (Hierarchy.core.withClass makerFile.toBytes) entry.1 =
          entry.2 := by
      intro entry member
      cases List.mem_singleton.mp member
      unfold Decisions.reply
      rw [isKnown]
    obtain ⟨after, prepares⟩ :=
      (isDialogue_prepareClass .standard .core makerFile.toBytes).convention_congr
        (prepareClass_makerFile .core) agree
    rw [isAfter, Session.convert_eq]
    dsimp only
    rw [prepares]
    rfl
  · intro isUnchanged
    rw [convertAlone_eq] at isUnchanged
    obtain ⟨prepared, isPrepared, isUnchanged⟩ := bind_eq_ok.mp isUnchanged
    obtain ⟨finished, finishes, equal⟩ := map_eq_ok.mp isUnchanged
    have noNames := PreparedClass.map_fst_of_finish_eq_ok finishes
    rw [equal] at noNames
    have planned := (isDialogue_planMembers .standard makerFile 0 0 makerFile.methods).logging_congr
      planMembers_makerFile Settings.standard.decide (by
        intro entry member
        cases List.mem_singleton.mp member
        exact decide_withMaker)
    unfold Settings.prepared at isPrepared
    split at isPrepared
    · rename_i prepares
      rw [Except.ok.injEq] at isPrepared
      rw [← isPrepared, map_name_of_prepareClass_eq_ok ofBytes_makerFile ofClassFile_makerFile rfl
        planned prepares] at noNames
      cases noNames
    · cases isPrepared

end ClosureConversion
