import ClosureConversion.Closure.Session
import ClosureConversion.Listing.Class

/-!
Contract: closures in listings.

Owns: the listed form of places, sites, captures and bridges, and reading places and
filters.
-/

namespace ClosureConversion.Listing

/-! ## Places -/

instance : ToData Place :=
  ⟨fun place => .record
    [("class", toData place.owner), ("method", toData place.method),
      ("line", toData place.line)]⟩

instance : OfData Place where
  ofData data := do
    return {
      owner := ← data.read "class"
      method := ← data.read "method"
      line := ← data.read "line" }

instance : ToData Span := ⟨fun span => toData (span.start, span.stop)⟩

/-! ## Settings -/

instance : OfData ClassFilter where
  ofData data := do
    return { includes := ← data.read "includes", excludes := ← data.read "excludes" }

/-! ## Variables -/

/-- A field in one text. -/
def fieldText (field : FieldRef) : Data :=
  toData field.describe

instance : ToData VariableKey where
  toData
    | .this => toData ["this"]
    | .local slot start => toData [toData "local", toData slot, toData start]
    | .parameter site field => toData [toData "param", toData site, fieldText field]

instance : ToData VariableUse where
  toData
    | .this => toData "this"
    | .declared entry => toData ("declared", entry)
    | .parameter slot => toData ("parameter", slot)
    | .unknown => toData "unknown"

instance : ToData Origin where
  toData
    | .outerLocal => toData "OuterLocal"
    | .outerParameter => toData "OuterParameter"
    | .parentParameter => toData "ParentParameter"
    | .enclosingField => toData "EnclosingField"

instance : ToData Capture :=
  ⟨fun capture => .record
    [("key", toData capture.key), ("name", toData capture.name), ("type", toData capture.type),
      ("stored", toData capture.storedType), ("origin", toData capture.origin),
      ("mutable", toData capture.mutable)]⟩

instance : ToData SiteCaptures :=
  ⟨fun captures => .record
    [("captures", toData captures.captures),
      ("internal", toData captures.internal),
      ("boxed_parameters", .list (captures.boxedParameters.map fieldText))]⟩

instance : ToData BoxedLocal :=
  ⟨fun boxed => toData
    [toData boxed.key, toData boxed.slot, toData boxed.boxSlot, toData boxed.type,
      toData boxed.isParameter]⟩

instance : ToData MethodCaptures :=
  ⟨fun captures => .record
    [("sites", toData captures.sites), ("boxes", toData captures.boxes)]⟩

/-! ## Sites -/

instance : ToData SiteParameter :=
  ⟨fun parameter => .record
    [("field", toData (parameter.field.map fieldText)), ("range", toData parameter.span),
      ("default", toData parameter.default)]⟩

instance : ToData LambdaSite :=
  ⟨fun site => .record
    [("id", toData site.id), ("line", toData site.line),
      ("factory", toData site.factory.describe), ("target", toData site.target),
      ("parameters", toData site.parameters), ("body", toData site.body),
      ("call", toData site.call), ("range", toData site.span),
      ("arguments", toData site.arguments), ("parent", toData site.parent),
      ("required", toData site.requiredParameters), ("body_type", toData site.bodyType?)]⟩

instance : ToData SiteScope where
  toData
    | .outside => toData "outside"
    | .capture site parameter => toData [toData "capture", toData site, toData parameter]
    | .body site => toData ("body", site)

/-! ## Methods and classes -/

instance : ToData AbstractMethod :=
  ⟨fun method => toData
    [toData method.owner, toData method.name, toData method.type, toData method.ofInterface,
      toData method.arity]⟩

/-- The bridges of a class with their bodies. -/
def bridges (table : BridgeTable) : Data :=
  .list (table.bridges.map fun bridge => toData
    [toData bridge.name, toData (bridge.use.type table.owner),
      toData (bridge.body table.owner).instructions])

end ClosureConversion.Listing
