import ClosureConversion.Closure.Error

/-!
Contract: the sites in a method at which closures are made.

Owns:
- sites with their parameters and bodies, and how they nest;
- walking along a span of a method, stepping over the sites that nest in it.

Does not own: how the sites of a method are found.
-/

namespace ClosureConversion

/-- A parameter of a closure: the instructions that push the argument for it. An argument
binds the field that stands for the parameter, and may give it a default value. -/
structure SiteParameter where
  field : Option FieldRef
  span : Span
  default : Option Span
deriving DecidableEq, Repr

/-- A site: the arguments of a call of a factory, the last of which is the body of a
closure, then the call, and with some factories a cast of the closure. -/
structure LambdaSite where
  id : Nat
  line : Option UInt16
  factory : MethodRef
  /-- The type that the closure implements or extends. -/
  target : BinaryName
  parameters : List SiteParameter
  body : Span
  call : Nat
  stop : Nat
  /-- The innermost site around the site, by its position among the sites. -/
  parent : Option Nat
deriving DecidableEq, Repr

namespace LambdaSite

/-- The first instruction of the site. -/
def start (site : LambdaSite) : Nat :=
  match site.parameters with
  | [] => site.body.start
  | first :: _ => first.span.start

/-- The instructions of the site. -/
def span (site : LambdaSite) : Span :=
  ⟨site.start, site.stop⟩

/-- Whether an instruction belongs to the site. -/
def contains (site : LambdaSite) (index : Nat) : Bool :=
  site.span.contains index

/-- The arguments of the factory, the body last. -/
def arguments (site : LambdaSite) : List Span :=
  site.parameters.map SiteParameter.span ++ [site.body]

/-- The position of the parameter that a field stands for. -/
def binding? (site : LambdaSite) (field : FieldRef) : Option Nat :=
  site.parameters.findIdx? fun parameter => parameter.field = some field

/-- How many parameters there are up to the last one without a default value. -/
def requiredParameters (site : LambdaSite) : Nat :=
  (site.parameters.reverse.dropWhile fun parameter => parameter.default.isSome).length

/-- The type of the value of the body, if it has one. -/
def bodyType? (site : LambdaSite) : Option FieldType :=
  if site.body.isEmpty then none else site.factory.type.parameters.getLast?

/-- Whether a variable whose scope begins at an index is declared inside the site. -/
def declares (site : LambdaSite) (scopeStart : Nat) : Bool :=
  site.start < scopeStart && scopeStart ≤ site.call

end LambdaSite

/-! ## Nesting -/

/-- The site that nests directly in another one, or in none, and starts at an index. -/
def nestedAt? (sites : List LambdaSite) (parent : Option Nat) (index : Nat) : Option Nat :=
  sites.findIdx? fun site => site.parent = parent && site.start = index

/-- A site and the sites around it, innermost first. The parent of a site comes before
it. -/
def enclosing (sites : List LambdaSite) (number : Nat) : List Nat :=
  match sites[number]? with
  | none => []
  | some site =>
      match site.parent with
      | none => [number]
      | some parent =>
          if parent < number then number :: enclosing sites parent else [number]
termination_by number

/-- The innermost site around a site, itself included, that binds a field. -/
def binder? (sites : List LambdaSite) (number : Nat) (field : FieldRef) : Option Nat :=
  (enclosing sites number).find? fun other =>
    (sites[other]?.bind fun site => site.binding? field).isSome

/-- What an instruction belongs to. -/
inductive SiteScope where
  | outside
  /-- The argument for a parameter of a site. -/
  | capture (site parameter : Nat)
  | body (site : Nat)
deriving DecidableEq, Repr

/-- The innermost site that contains an instruction, for sites in the order of their
starts. -/
def innermost? (sites : List LambdaSite) (index : Nat) : Option (LambdaSite × Nat) :=
  (sites.zipIdx.filter fun (site, _) => site.contains index).getLast?

/-- What an instruction belongs to. -/
def scopeAt (sites : List LambdaSite) (index : Nat) : SiteScope :=
  match innermost? sites index with
  | none => .outside
  | some (site, number) =>
      match site.parameters.findIdx? fun parameter => parameter.span.contains index with
      | some parameter => .capture number parameter
      | none => .body number

/-! ## Stepping over sites -/

/-- A part of a span: one instruction, or a site that nests in the span. -/
inductive Piece where
  | instruction (index : Nat)
  | site (number : Nat) (span : Span)
deriving DecidableEq, Repr

/-- The instructions of a piece. -/
def Piece.span : Piece → Span
  | .instruction index => ⟨index, index + 1⟩
  | .site _ span => span

/-- The piece that begins at an index; a site has at least one instruction. -/
def pieceAt (sites : List LambdaSite) (parent : Option Nat) (index : Nat) : Piece :=
  match nestedAt? sites parent index with
  | some number =>
      match sites[number]? with
      | some site => .site number ⟨index, max site.stop (index + 1)⟩
      | none => .instruction index
  | none => .instruction index

theorem lt_stop_pieceAt
    (sites : List LambdaSite)
    (parent : Option Nat)
    (index : Nat) :
    index < (pieceAt sites parent index).span.stop := by
  unfold pieceAt
  split
  · split
    · simp only [Piece.span]
      omega
    · simp [Piece.span]
  · simp [Piece.span]

/-- The pieces from an index up to another one, in order, where sites nest directly in a
site or in none. -/
def piecesFrom (sites : List LambdaSite) (parent : Option Nat) (stop index : Nat) :
    List Piece :=
  if index < stop then
    pieceAt sites parent index ::
      piecesFrom sites parent stop (pieceAt sites parent index).span.stop
  else
    []
termination_by stop - index
decreasing_by
  have := lt_stop_pieceAt sites parent index
  omega

/-- The pieces of a span. -/
def piecesOf (sites : List LambdaSite) (parent : Option Nat) (span : Span) : List Piece :=
  piecesFrom sites parent span.stop span.start

end ClosureConversion
