import ClosureConversion.Closure.Settings

/-!
Contract: what users ask for on the command line.

Owns: reading the arguments, and the settings that they amount to.

Does not own: reading and writing files.
-/

namespace ClosureConversion

/-- What users ask for. -/
structure Request where
  /-- Directories of classes that the inputs refer to. -/
  classPath : List String := []
  /-- The directory under which converted classes are written. -/
  output : String := "."
  factoryMark : String := Settings.standard.factoryMark.text
  parameterMark : String := Settings.standard.parameterMark.text
  includes : List String := []
  excludes : List String := []
  /-- The class files to convert. -/
  inputs : List String := []
deriving DecidableEq, Repr

namespace Request

/-- The request with an option set; options that may be repeated add up. -/
def withOption? (request : Request) (name value : String) : Option Request :=
  match name with
  | "--classpath" => some { request with classPath := request.classPath ++ [value] }
  | "--output" => some { request with output := value }
  | "--factory-annotation" => some { request with factoryMark := value }
  | "--param-annotation" => some { request with parameterMark := value }
  | "--include" => some { request with includes := request.includes ++ [value] }
  | "--exclude" => some { request with excludes := request.excludes ++ [value] }
  | _ => none

/-- Whether an argument is meant to be the name of an option. -/
def isOption (argument : String) : Bool :=
  argument.toList.take 2 = ['-', '-']

/-- Reads arguments one after another. -/
def readFrom (request : Request) : List String → Except String Request
  | [] => .ok request
  | argument :: rest =>
      if isOption argument then
        match rest with
        | [] => .error s!"{argument} needs a value"
        | value :: rest =>
            match request.withOption? argument value with
            | some request => request.readFrom rest
            | none => .error s!"unknown option {argument}"
      else
        { request with inputs := request.inputs ++ [argument] }.readFrom rest

/-- Reads the arguments; there has to be something to convert. -/
def ofArguments (arguments : List String) : Except String Request := do
  let request ← readFrom {} arguments
  if request.inputs.isEmpty then throw "no class files to convert"
  return request

/-- The settings of a request. -/
def settings (request : Request) : Except ClosureError Settings := do
  let settings ← Settings.withMarks request.factoryMark request.parameterMark
  return { settings with filter := ⟨request.includes, request.excludes⟩ }

end Request

end ClosureConversion
