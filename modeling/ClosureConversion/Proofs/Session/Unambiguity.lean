import ClosureConversion.Proofs.Session.Independence

/-!
Contract: the names of classes of closures are unambiguous.

Owns:
- a name is read from its end: what stands after its last dollar signs is the number, the line and
  the simple name of the type, and what is left is the name of the class around the closure;
- no two closures of a class have a name in common, and neither have closures of different classes
  that a session converts.

Does not own: what a session keeps for a name.
-/

namespace ClosureConversion

/-! ## Texts -/

/-- A text is split at its last dollar sign in one way. -/
theorem append_dollar_inj
    {front other back last : List Char}
    (equal : front ++ '$' :: back = other ++ '$' :: last)
    (backPlain : '$' ∉ back)
    (lastPlain : '$' ∉ last) :
    front = other ∧ back = last := by
  have same := eq_of_append_dollar equal backPlain lastPlain
  subst same
  exact ⟨List.append_cancel_right equal, rfl⟩

theorem dollar_not_mem_lineDigits
    (line : Option UInt16) :
    '$' ∉ (Settings.lineDigits line).toList :=
  dollar_not_mem_repr (line.getD 0).toNat

/-- The parts of a name, with the dollar signs between them. -/
theorem parts_of_closureName_eq_ok
    {settings : Settings}
    {owner target name : BinaryName}
    {line : Option UInt16}
    {number : Nat}
    (named : settings.closureName owner target line number = .ok name) :
    name.text.toList =
      ((owner.text.toList ++ '$' :: target.simpleName.toList) ++
        '$' :: (settings.lineMarker.text.toList ++ (Settings.lineDigits line).toList)) ++
          '$' :: number.repr.toList := by
  unfold Settings.closureName BinaryName.ofString at named
  have isName := mapError_eq_ok.mp named
  split at isName
  · cases isName
    simp [toString]
  · cases isName

/-- A name determines the class around the closure, the simple name of the type that the closure
implements, and its number, if neither the mark of lines nor the simple name has a dollar sign. -/
theorem eq_of_closureName_eq_ok
    {settings : Settings}
    (markPlain : '$' ∉ settings.lineMarker.text.toList)
    {owner otherOwner target otherTarget name : BinaryName}
    {line otherLine : Option UInt16}
    {number other : Nat}
    (targetPlain : '$' ∉ target.simpleName.toList)
    (otherPlain : '$' ∉ otherTarget.simpleName.toList)
    (named : settings.closureName owner target line number = .ok name)
    (otherNamed : settings.closureName otherOwner otherTarget otherLine other = .ok name) :
    owner = otherOwner ∧ target.simpleName = otherTarget.simpleName ∧ number = other := by
  have linePlain : ∀ line, '$' ∉
      settings.lineMarker.text.toList ++ (Settings.lineDigits line).toList := fun line member =>
    (List.mem_append.mp member).elim markPlain (dollar_not_mem_lineDigits line)
  have equal := (parts_of_closureName_eq_ok named).symm.trans (parts_of_closureName_eq_ok otherNamed)
  obtain ⟨equal, sameNumber⟩ :=
    append_dollar_inj equal (dollar_not_mem_repr number) (dollar_not_mem_repr other)
  obtain ⟨equal, _⟩ := append_dollar_inj equal (linePlain line) (linePlain otherLine)
  obtain ⟨sameOwner, sameTarget⟩ := append_dollar_inj equal targetPlain otherPlain
  have sameText := String.toList_injective sameOwner
  refine ⟨?_, String.toList_injective sameTarget,
    Nat.repr_injective (String.toList_injective sameNumber)⟩
  cases owner
  cases otherOwner
  cases sameText
  rfl

/-! ## Sessions -/

namespace Session

/-- The plans of the sites of a class that a session prepares next. -/
def plannedSites (session : Session) (input : Bytes) : List SitePlan :=
  match prepareClass session.settings session.hierarchy session.settings.convention input
      session.decisions with
  | .ok prepared _ => sitePlans prepared.planned
  | .error _ _ => []

/-- All closures of the class that a session converts next implement types whose simple names have
no dollar signs. -/
def HasPlainTargets (session : Session) (input : Bytes) : Prop :=
  ∀ entry ∈ session.plannedSites input, '$' ∉ entry.site.target.simpleName.toList

/-- A session does not change the settings. -/
theorem settings_run
    (session : Session)
    (inputs : List Bytes) :
    (session.run inputs).settings = session.settings := by
  induction inputs generalizing session with
  | nil => rfl
  | cons input inputs inductionHypothesis =>
      refine (inductionHypothesis (session.convert input).2).trans ?_
      unfold convert
      dsimp only
      cases convertClass session.settings session.hierarchy session.settings.convention
        session.cache input session.decisions <;> rfl

/-- The classes of the closures of a class that a session converts have the names of its sites, no
two of them the same. -/
theorem closureNames_of_convert_eq_ok
    {session : Session}
    {input : Bytes}
    {converted : ConvertedClass}
    (isConverted : (session.convert input).1 = .ok converted) :
    (converted.closures.map Prod.fst).Nodup ∧
      ∀ name ∈ converted.closures.map Prod.fst, ∃ entry ∈ session.plannedSites input,
        session.settings.closureName converted.name entry.site.target entry.site.line
          entry.site.id = .ok name := by
  rw [convert_eq] at isConverted
  unfold plannedSites
  cases prepares : prepareClass session.settings session.hierarchy session.settings.convention input
      session.decisions with
  | error error decisions =>
      rw [prepares] at isConverted
      cases isConverted
  | ok prepared decisions =>
      rw [prepares] at isConverted
      dsimp only at isConverted ⊢
      cases completes : prepared.complete session.cache with
      | error error =>
          rw [completes] at isConverted
          cases isConverted
      | ok completed =>
          rw [completes] at isConverted
          cases isConverted
          obtain ⟨closures, computed, isCompleted⟩ := bind_eq_ok.mp completes
          cases isCompleted
          dsimp only
          rw [ClosureCache.map_fst_insertAll, PreparedClass.map_fst_of_closureEntries computed]
          obtain ⟨distinct, named⟩ := siteNames_of_prepareClass_eq_ok prepares
          refine ⟨distinct, fun name member => ?_⟩
          obtain ⟨definition, isClosure, rfl⟩ := List.mem_map.mp member
          exact named definition isClosure

end Session

/-- The names of the classes of closures can be told apart. -/
structure Settings.NamesApart (settings : Settings) : Prop where
  /-- A name belongs to one class around the closure, one simple name and one number. -/
  determines : ∀ {owner otherOwner target otherTarget name line otherLine number other},
    '$' ∉ target.simpleName.toList →
    '$' ∉ otherTarget.simpleName.toList →
    settings.closureName owner target line number = .ok name →
    settings.closureName otherOwner otherTarget otherLine other = .ok name →
      owner = otherOwner ∧ target.simpleName = otherTarget.simpleName ∧ number = other
  /-- No two sites of a class have one name, whichever methods they are in. -/
  sites : ∀ {Memory : Type} {hierarchy convention file owner planned} {before after : Memory},
    ClassDeclaration.ofClassFile file = .ok owner →
    planMembers settings hierarchy convention file 0 0 file.methods before = .ok planned after →
      ((sitePlans planned).map SitePlan.className).Nodup
  /-- No two closures of a class that a session converts have one name. -/
  closures : ∀ {session : Session} {input converted},
    session.settings = settings →
    (session.convert input).1 = .ok converted → (converted.closures.map Prod.fst).Nodup
  /-- Different classes that a session converts, with any others before and between them, have no
  name of a closure in common. -/
  classes : ∀ {session : Session} {earlier between input other converted otherConverted},
    session.settings = settings →
    ((session.run earlier).convert input).1 = .ok converted →
    ((session.run (earlier ++ input :: between)).convert other).1 = .ok otherConverted →
    converted.name ≠ otherConverted.name →
    (session.run earlier).HasPlainTargets input →
    (session.run (earlier ++ input :: between)).HasPlainTargets other →
      (converted.closures.map Prod.fst).Disjoint (otherConverted.closures.map Prod.fst)

/-- **Names**: the names of the classes of closures can be told apart if the mark of lines has no
dollar sign, nested classes such as `A` and `A$B` included. -/
theorem Settings.namesApart_of_plainMark
    {settings : Settings}
    (markPlain : '$' ∉ settings.lineMarker.text.toList) :
    settings.NamesApart := by
  constructor
  case determines => exact eq_of_closureName_eq_ok markPlain
  case sites =>
    intro Memory hierarchy convention file owner planned before after isOwner arePlanned
    exact (nodup_className_of_planMembers_eq_ok isOwner arePlanned).1
  case closures =>
    intro session input converted _ isConverted
    exact (Session.closureNames_of_convert_eq_ok isConverted).1
  case classes =>
    rintro session earlier between input other converted otherConverted rfl isConverted
      otherIsConverted differ plain otherPlain name isFirst isSecond
    obtain ⟨site, isSite, named⟩ :=
      (Session.closureNames_of_convert_eq_ok isConverted).2 name isFirst
    obtain ⟨otherSite, isOtherSite, otherNamed⟩ :=
      (Session.closureNames_of_convert_eq_ok otherIsConverted).2 name isSecond
    rw [Session.settings_run] at named otherNamed
    exact differ (eq_of_closureName_eq_ok markPlain (plain site isSite)
      (otherPlain otherSite isOtherSite) named otherNamed).1

namespace NestedClasses

/-- A class. -/
def outer : BinaryName := ⟨"Atlas", by decide⟩

/-- A class that nests in the other one. -/
def nested : BinaryName := ⟨"Atlas$Page", by decide⟩

/-- The name of the first closure of a class, if it implements `Runnable`. -/
def firstName (owner : BinaryName) : Except ClosureError BinaryName :=
  Settings.standard.closureName owner .runnable none 0

/-- The first closure of the class. -/
def outerClosure : BinaryName := ⟨"Atlas$Runnable$L0$0", by decide⟩

/-- The first closure of the class that nests in it. -/
def nestedClosure : BinaryName := ⟨"Atlas$Page$Runnable$L0$0", by decide⟩

theorem firstName_outer : firstName outer = .ok outerClosure := by
  with_unfolding_all rfl

theorem firstName_nested : firstName nested = .ok nestedClosure := by
  with_unfolding_all rfl

end NestedClasses

open NestedClasses in
/-- A class and one that nests in it give their closures names that are told apart by the
settings for users who choose nothing. -/
theorem nestedClasses_areNamedApart :
    '$' ∉ Settings.standard.lineMarker.text.toList ∧ Settings.standard.NamesApart ∧
      '$' ∉ BinaryName.runnable.simpleName.toList ∧ firstName outer = .ok outerClosure ∧
        firstName nested = .ok nestedClosure ∧ outerClosure ≠ nestedClosure := by
  have markPlain : '$' ∉ Settings.standard.lineMarker.text.toList := by decide
  have namesApart := Settings.namesApart_of_plainMark markPlain
  have targetPlain : '$' ∉ BinaryName.runnable.simpleName.toList := by decide
  have differ : outer ≠ nested := by decide
  refine ⟨markPlain, namesApart, targetPlain, firstName_outer, firstName_nested, fun same => ?_⟩
  exact differ (namesApart.determines targetPlain targetPlain firstName_outer
    (same ▸ firstName_nested)).1

end ClosureConversion
