import ClosureConversion.Proofs.Site.Crossings

/-!
Contract: what the arguments of sites bind, and that it stays so.

Owns:
- conventions that never take back that a field stands for a parameter, among them the one that
  goes by annotations;
- what a convention knows after sites were detected: the fields that their arguments bind;
- where default values are: in the arguments that they belong to;
- the sites around a site that bind a field.

Does not own: what the code of a site uses.
-/

namespace ClosureConversion

variable {Memory : Type} {hierarchy : Hierarchy} {convention : Convention Memory}

/-! ## Steady conventions -/

/-- What a convention knows of fields that stand for parameters: it knows of a field once it said
so, keeps knowing it whatever it is asked, and then always says so again. -/
structure Convention.Remembers (convention : Convention Memory) (hierarchy : Hierarchy)
    (Knows : Memory → BinaryName → UnqualifiedName → Prop) : Prop where
  learns : ∀ {owner name before after},
    convention.isParameter hierarchy owner name before = .ok true after → Knows after owner name
  keeps : ∀ {owner name answer before after},
    convention.isParameter hierarchy owner name before = .ok answer after →
      ∀ {other field}, Knows before other field → Knows after other field
  repeats : ∀ {owner name answer before after}, Knows before owner name →
    convention.isParameter hierarchy owner name before = .ok answer after → answer = true

/-- A convention that never takes back that a field stands for a parameter. -/
def Convention.IsSteady (convention : Convention Memory) (hierarchy : Hierarchy) : Prop :=
  ∃ Knows, convention.Remembers hierarchy Knows

/-- What is decided is decided from now on. -/
theorem Settings.decideParameter_eq_ok
    {settings : Settings}
    {owner : BinaryName}
    {name : UnqualifiedName}
    {answer : Bool}
    {before after : Decisions}
    (decided : settings.decideParameter hierarchy owner name before = .ok answer after) :
    after.parameters.lookup (owner, name) = some answer ∧
      ∀ key known, before.parameters.lookup key = some known →
        after.parameters.lookup key = some known := by
  unfold decideParameter at decided
  obtain ⟨decisions, _, isGet, decided⟩ := run_bind_eq_ok.mp decided
  cases isGet
  cases isKnown : before.parameters.lookup (owner, name) with
  | some known =>
      rw [isKnown] at decided
      obtain ⟨rfl, rfl⟩ := run_pure_eq_ok.mp decided
      exact ⟨isKnown, fun _ _ isOld => isOld⟩
  | none =>
      rw [isKnown] at decided
      obtain ⟨marked, _, isMarked, decided⟩ := run_bind_eq_ok.mp decided
      obtain ⟨_, rfl⟩ := run_ofExcept_eq_ok.mp isMarked
      obtain ⟨_, _, isModified, decided⟩ := run_bind_eq_ok.mp decided
      cases isModified
      obtain ⟨rfl, rfl⟩ := run_pure_eq_ok.mp decided
      refine ⟨List.lookup_cons_self, fun key known isOld => ?_⟩
      have different : (key == (owner, name)) = false := by
        rw [beq_eq_false_iff_ne]
        rintro rfl
        cases isKnown.symm.trans isOld
      dsimp only
      rw [List.lookup_cons, different]
      exact isOld

/-- The convention that goes by annotations decides every question once. -/
theorem Settings.isSteady_convention
    (settings : Settings) :
    settings.convention.IsSteady hierarchy := by
  refine ⟨fun decisions owner name => decisions.parameters.lookup (owner, name) = some true, ?_⟩
  constructor
  · intro owner name before after asked
    exact (settings.decideParameter_eq_ok asked).1
  · intro owner name answer before after asked other field isKnown
    exact (settings.decideParameter_eq_ok asked).2 (other, field) true isKnown
  · intro owner name answer before after isKnown asked
    obtain ⟨isAnswer, keeps⟩ := settings.decideParameter_eq_ok asked
    exact Option.some.inj (isAnswer.symm.trans (keeps (owner, name) true isKnown))

/-! ## What is known of parameters -/

variable {Knows : Memory → BinaryName → UnqualifiedName → Prop}

/-- A default value belongs to a field, is pushed by the first instructions of its argument, and
the field is known to stand for a parameter. -/
structure SiteParameter.IsKnown (Knows : Memory → BinaryName → UnqualifiedName → Prop)
    (parameter : SiteParameter) (memory : Memory) : Prop where
  known : ∀ field, parameter.field = some field → Knows memory field.owner field.name
  default : ∀ span, parameter.default = some span → span.isWithin parameter.span = true

theorem SiteParameter.IsKnown.keep
    {parameter : SiteParameter}
    {before after : Memory}
    (isKnown : parameter.IsKnown Knows before)
    (keeps : ∀ owner name, Knows before owner name → Knows after owner name) :
    parameter.IsKnown Knows after where
  known := fun field isField => keeps _ _ (isKnown.known field isField)
  default := isKnown.default

section Reading

variable {method : Method} {place : Place} {before after : Memory}

/-- The instructions of a default value are those of its argument but for the last two. -/
theorem isWithin_of_bindingShape?
    {code : Array (Instruction Nat)}
    {span default : Span}
    {field : FieldRef}
    (shape : bindingShape? code span = some (field, some default)) :
    default.isWithin span = true := by
  have equal : default = ⟨span.start, span.stop - 2⟩ := by
    unfold bindingShape? at shape
    split at shape
    · cases shape
    · split at shape
      · cases shape
        rfl
      · cases shape
    · cases shape
  rw [equal, Span.isWithin_iff]
  exact ⟨Nat.le_refl _, Nat.sub_le _ _⟩

theorem readParameter_isKnown
    (remembers : convention.Remembers hierarchy Knows)
    {span : Span}
    {parameter : SiteParameter}
    (read : readParameter method hierarchy convention span before = .ok parameter after) :
    parameter.IsKnown Knows after ∧
      ∀ owner name, Knows before owner name → Knows after owner name := by
  have sameSpan := readParameter_span read
  unfold readParameter at read
  cases shape : bindingShape? method.instructions span with
  | none =>
      rw [shape] at read
      obtain ⟨rfl, rfl⟩ := run_pure_eq_ok.mp read
      exact ⟨⟨by simp, by simp⟩, fun _ _ isKnown => isKnown⟩
  | some binding =>
      obtain ⟨field, default⟩ := binding
      rw [shape] at read
      obtain ⟨isParameter, between, asked, read⟩ := run_bind_eq_ok.mp read
      have keeps : ∀ owner name, Knows before owner name → Knows between owner name :=
        fun _ _ isKnown => remembers.keeps asked isKnown
      cases isParameter with
      | false =>
          obtain ⟨rfl, rfl⟩ := run_pure_eq_ok.mp read
          exact ⟨⟨by simp, by simp⟩, keeps⟩
      | true =>
          obtain ⟨rfl, rfl⟩ := run_pure_eq_ok.mp read
          refine ⟨⟨?_, ?_⟩, keeps⟩
          · intro other isField
            cases isField
            exact remembers.learns asked
          · intro inner isDefault
            dsimp only at isDefault
            rw [isDefault] at shape
            exact isWithin_of_bindingShape? shape

theorem readParameters_areKnown
    (remembers : convention.Remembers hierarchy Knows)
    {spans : List Span}
    {parameters : List SiteParameter}
    (read : readParameters method hierarchy convention place spans before =
      .ok parameters after) :
    (∀ parameter ∈ parameters, parameter.IsKnown Knows after) ∧
      ∀ owner name, Knows before owner name → Knows after owner name := by
  refine run_foldlM_induction (fun _ parameters memory =>
    (∀ parameter ∈ parameters, parameter.IsKnown Knows memory) ∧
      ∀ owner name, Knows before owner name → Knows memory owner name) ?_
    ⟨by simp, fun _ _ isKnown => isKnown⟩ read
  intro done span _ parameters extended earlier later _ ⟨areKnown, kept⟩ stepped
  obtain ⟨parameter, between, parameterRead, stepped⟩ := run_bind_eq_ok.mp stepped
  obtain ⟨isKnown, keeps⟩ := readParameter_isKnown remembers parameterRead
  cases rebound : rebinds? parameters parameter with
  | some field =>
      rw [rebound] at stepped
      cases stepped
  | none =>
      rw [rebound] at stepped
      obtain ⟨rfl, rfl⟩ := run_pure_eq_ok.mp stepped
      refine ⟨?_, fun _ _ known => keeps _ _ (kept _ _ known)⟩
      intro other member
      rw [List.mem_append, List.mem_singleton] at member
      rcases member with isEarlier | rfl
      · exact (areKnown other isEarlier).keep keeps
      · exact isKnown

theorem readSite_isKnown
    (remembers : convention.Remembers hierarchy Knows)
    {analysis : FlowAnalysis}
    {call : Nat}
    {site : LambdaSite}
    (read : readSite method analysis hierarchy convention place call before =
      .ok site after) :
    (∀ parameter ∈ site.parameters, parameter.IsKnown Knows after) ∧
      ∀ owner name, Knows before owner name → Knows after owner name := by
  unfold readSite at read
  dsimp only at read
  obtain ⟨factory, _, factoryFound, read⟩ := run_bind_eq_ok.mp read
  obtain ⟨_, rfl⟩ := run_ofExcept_eq_ok.mp factoryFound
  obtain ⟨_, _, isReachable, read⟩ := run_bind_eq_ok.mp read
  obtain ⟨_, rfl⟩ := run_ofExcept_eq_ok.mp isReachable
  cases produced : producedType? factory method.instructions[call + 1]? with
  | none =>
      rw [produced] at read
      cases read
  | some product =>
      rw [produced] at read
      obtain ⟨spans, _, spansFound, read⟩ := run_bind_eq_ok.mp read
      obtain ⟨_, rfl⟩ := run_ofExcept_eq_ok.mp spansFound
      obtain ⟨parameters, _, parametersRead, read⟩ := run_bind_eq_ok.mp read
      obtain ⟨rfl, rfl⟩ := run_pure_eq_ok.mp read
      exact readParameters_areKnown remembers parametersRead

/-- After the sites of a method were detected, the convention knows the fields that their
arguments bind. -/
theorem isKnown_of_detectSites
    (remembers : convention.Remembers hierarchy Knows)
    {analysis : FlowAnalysis}
    {calls : List Nat}
    {firstId : Nat}
    {sites : List LambdaSite}
    (detected : detectSites method analysis calls firstId hierarchy convention place before =
      .ok sites after) :
    ∀ site ∈ sites, ∀ parameter ∈ site.parameters, parameter.IsKnown Knows after := by
  unfold detectSites at detected
  obtain ⟨read, _, readAll, detected⟩ := run_bind_eq_ok.mp detected
  obtain ⟨linked, _, linkedAll, detected⟩ := run_bind_eq_ok.mp detected
  obtain ⟨linkedEq, rfl⟩ := run_ofExcept_eq_ok.mp linkedAll
  obtain ⟨_, _, checked, detected⟩ := run_bind_eq_ok.mp detected
  obtain ⟨_, rfl⟩ := run_ofExcept_eq_ok.mp checked
  obtain ⟨rfl, rfl⟩ := run_pure_eq_ok.mp detected
  have readKnown := (forall_of_run_mapM_eq_ok
    (fun (site : LambdaSite) memory =>
      ∀ parameter ∈ site.parameters, parameter.IsKnown Knows memory)
    (fun _ _ _ _ siteRead => (readSite_isKnown remembers siteRead).1)
    (fun _ _ _ _ siteRead _ areKnown parameter member =>
      (areKnown parameter member).keep (readSite_isKnown remembers siteRead).2) readAll).1
  intro site member
  obtain ⟨position, found⟩ := List.getElem?_of_mem member
  rw [getElem?_numberFrom, Option.map_eq_some_iff] at found
  obtain ⟨result, resultFound, rfl⟩ := found
  obtain ⟨raw, isSorted, resultEq⟩ :=
    exists_mem_of_forall₂ (forall₂_of_linkFrom_eq_ok linkedEq) (List.mem_of_getElem? resultFound)
  rw [resultEq]
  exact readKnown raw (List.mem_mergeSort.mp isSorted)

end Reading

/-! ## Parameters of sites around a site -/

/-- A site or one around it has a number, and it binds a field. -/
def BindsAround (sites : List LambdaSite) (number binder : Nat) (field : FieldRef) : Prop :=
  binder ∈ enclosing sites number ∧
    ∃ site, sites[binder]? = some site ∧ (site.binding? field).isSome = true

/-- Sites come after those that they nest in. -/
def ParentsFirst (sites : List LambdaSite) : Prop :=
  ∀ (number : Nat) (site : LambdaSite) (parent : Nat), sites[number]? = some site →
    site.parent = some parent → parent < number

section Around

variable {sites : List LambdaSite} {number binder : Nat} {field : FieldRef}

theorem IsDetected.parentsFirst
    {firstId : Nat}
    {sorted : List LambdaSite}
    (detected : IsDetected firstId sorted sites) :
    ParentsFirst sites := by
  intro number site parent found isParent
  have around := detected.parents found
  rw [isParent] at around
  obtain ⟨different, inner, isInner, within, _⟩ := around
  exact detected.lt_of_within found isInner different within

theorem bindsAround_of_binder?
    (found : binder? sites number field = some binder) :
    BindsAround sites number binder field := by
  unfold binder? at found
  have isBound := List.find?_some found
  refine ⟨List.mem_of_find?_eq_some found, ?_⟩
  obtain ⟨position, isBinding⟩ := Option.isSome_iff_exists.mp isBound
  obtain ⟨site, isSite, binds⟩ := Option.bind_eq_some_iff.mp isBinding
  exact ⟨site, isSite, Option.isSome_iff_exists.mpr ⟨position, binds⟩⟩

/-- A field that a site binds is one of its parameters. -/
theorem BindsAround.exists_parameter
    (binds : BindsAround sites number binder field) :
    ∃ site ∈ sites, ∃ parameter ∈ site.parameters, parameter.field = some field := by
  obtain ⟨_, site, isSite, isBinding⟩ := binds
  obtain ⟨position, found⟩ := Option.isSome_iff_exists.mp isBinding
  unfold LambdaSite.binding? at found
  obtain ⟨below, isField, _⟩ := List.findIdx?_eq_some_iff_getElem.mp found
  exact ⟨site, List.mem_of_getElem? isSite, _, List.getElem_mem below, of_decide_eq_true isField⟩

/-- What is around a site, but for the site itself, is around its parent. -/
theorem BindsAround.ofNested
    {nested : Nat}
    {site : LambdaSite}
    (ordered : ParentsFirst sites)
    (isNested : sites[nested]? = some site)
    (isParent : site.parent = some number)
    (binds : BindsAround sites nested binder field)
    (different : binder ≠ nested) :
    BindsAround sites number binder field := by
  obtain ⟨isAround, isBinding⟩ := binds
  rw [enclosing, isNested] at isAround
  simp only [isParent, if_pos (ordered nested site number isNested isParent)] at isAround
  exact ⟨(List.mem_cons.mp isAround).resolve_left different, isBinding⟩

/-- Around a site that nests in no other one there is only the site itself. -/
theorem BindsAround.eq_of_outermost
    {site : LambdaSite}
    (isSite : sites[number]? = some site)
    (isOuter : site.parent = none)
    (binds : BindsAround sites number binder field) :
    binder = number := by
  have isAround := binds.1
  rw [enclosing, isSite] at isAround
  simp only [isOuter] at isAround
  exact List.mem_singleton.mp isAround

end Around

end ClosureConversion
