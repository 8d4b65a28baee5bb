import ClosureConversion.Name

/-!
Contract: choosing classes by patterns for their names.

Owns: patterns with wildcards, what they match, and filters made of them.

Does not own: what happens to the classes chosen.
-/

namespace ClosureConversion

/-- Whether a test holds of the rest of a text after some of its first characters, which
may not hold a stopper. -/
def anySuffix (stopper : Char → Bool) (test : List Char → Bool) : List Char → Bool
  | [] => test []
  | character :: rest =>
      test (character :: rest) || (!stopper character && anySuffix stopper test rest)

/-- Whether a text matches a pattern. Two asterisks stand for any characters, a single
one for any characters but slashes, and every other character for itself. -/
def matchesPattern : List Char → List Char → Bool
  | [], text => text.isEmpty
  | '*' :: '*' :: pattern, text => anySuffix (fun _ => false) (matchesPattern pattern) text
  | '*' :: pattern, text => anySuffix (· = '/') (matchesPattern pattern) text
  | expected :: pattern, text =>
      match text with
      | [] => false
      | character :: rest => character = expected && matchesPattern pattern rest

/-- A filter for classes. -/
structure ClassFilter where
  includes : List String := []
  excludes : List String := []
deriving DecidableEq, Repr

namespace ClassFilter

/-- Whether a class name matches one of several patterns. -/
def matchesAny (patterns : List String) (name : BinaryName) : Bool :=
  patterns.any fun pattern => matchesPattern pattern.toList name.text.toList

/-- Whether the filter lets a class pass: it is excluded by no pattern, and included by
one if there are any to include it. -/
def accepts (filter : ClassFilter) (name : BinaryName) : Bool :=
  (filter.includes.isEmpty || matchesAny filter.includes name) &&
    !matchesAny filter.excludes name

end ClassFilter

end ClosureConversion
