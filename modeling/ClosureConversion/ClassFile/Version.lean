import ClosureConversion.Binary

/-!
Contract: the version of the class file format that a class file follows.

Owns: the order of versions, which of them carry stack maps, and their binary form.
-/

namespace ClosureConversion

/-- A version of the class file format. -/
structure Version where
  major : UInt16
  minor : UInt16
deriving DecidableEq, Repr

namespace Version

/-- The first version that carries stack maps. -/
def java6 : Version := ⟨50, 0⟩

def java8 : Version := ⟨52, 0⟩

def java11 : Version := ⟨55, 0⟩

/-- Versions are ordered by their major number, then by their minor one. -/
def isAtLeast (version bound : Version) : Bool :=
  bound.major < version.major || (bound.major == version.major && bound.minor ≤ version.minor)

/-- Whether methods carry stack maps. -/
def usesStackMaps (version : Version) : Bool :=
  version.isAtLeast java6

end Version

/-- The minor number comes first. -/
instance : Binary Version where
  write version := write version.minor ++ write version.major
  read := do
    let minor ← read
    let major ← read
    return ⟨major, minor⟩

end ClosureConversion
