import ClosureConversion.ClassFile.Version
import ClosureConversion.Closure.ClassFilter
import ClosureConversion.Closure.Error

/-!
Contract: what users choose about the conversion of closures.

Owns:
- the annotations that mark factories and parameters, the version of converted classes,
  and which classes are converted;
- the names of closure classes.

Does not own: how annotations are looked up.
-/

namespace ClosureConversion

/-- Which version of the class file format converted classes follow. -/
inductive OutputVersion where
  /-- That of the class file that is converted. -/
  | keep
  | fixed (version : Version)
deriving DecidableEq, Repr

/-- What users choose. -/
structure Settings where
  factoryMark : BinaryName
  parameterMark : BinaryName
  /-- What precedes the number of the line in the name of a closure class. -/
  lineMarker : UnqualifiedName := .lineMarker
  outputVersion : OutputVersion := .keep
  filter : ClassFilter := {}
deriving DecidableEq, Repr

namespace Settings

/-- The settings for users who choose nothing. -/
def standard : Settings where
  factoryMark := ⟨"closureweave/Lambda", by decide⟩
  parameterMark := ⟨"closureweave/Param", by decide⟩

/-- Settings with two annotations, which have to differ. -/
def withMarks (factory parameter : String) : Except ClosureError Settings := do
  let factoryMark ← (BinaryName.ofString factory).mapError .settings
  let parameterMark ← (BinaryName.ofString parameter).mapError .settings
  if factoryMark = parameterMark then
    throw (.settings s!"factory and parameter annotations are both {factoryMark}")
  return { factoryMark, parameterMark }

/-- The version of a converted class. -/
def versionFor (settings : Settings) (input : Version) : Version :=
  match settings.outputVersion with
  | .keep => input
  | .fixed version => version

/-- The line as it stands in the name of a closure class. -/
def lineDigits (line : Option UInt16) : String :=
  toString (line.getD 0)

/-- The name of the class of a closure: the class that holds it, the simple name of the
type that it implements, its line and its number, with dollar signs between them. -/
def closureName (settings : Settings) (owner target : BinaryName) (line : Option UInt16)
    (number : Nat) : Except ClosureError BinaryName :=
  let name :=
    s!"{owner}${target.simpleName}${settings.lineMarker}{lineDigits line}${number}"
  (BinaryName.ofString name).mapError .settings

end Settings

end ClosureConversion
