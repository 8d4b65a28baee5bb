import ClosureConversion.Closure.Session
import ClosureConversion.CommandLine

/-!
Contract: the program that converts the closures of class files.

Owns: reading the class files and the directories of a request, and writing the
converted classes.
-/

namespace ClosureConversion

/-- Reads a class file. -/
def readClassFile (path : String) : IO Bytes := do
  let bytes ← IO.FS.readBinFile path
  return bytes.toList

/-- Writes a class under a directory, where its package says. -/
def writeClassFile (directory : String) (name : BinaryName) (bytes : Bytes) : IO Unit := do
  IO.FS.createDirAll s!"{directory}/{name.package}"
  IO.FS.writeBinFile s!"{directory}/{name}.class" ⟨bytes.toArray⟩

/-- The class files in a directory, by the names of their classes. Files that hold no
class are left out. -/
def readDirectory (directory : String) : IO (List (BinaryName × Bytes)) := do
  let root ← IO.FS.realPath directory
  let paths ← root.walkDir
  let files := paths.toList.filter fun path => path.extension = some "class"
  files.filterMapM fun path => do
    let bytes ← readClassFile path.toString
    match ClassFile.ofBytes bytes >>= ClassFile.thisName with
    | .ok name => return some (name, bytes)
    | .error _ => return none

/-- Writes a converted class and the classes of its closures. -/
def writeConverted (output : String) (converted : ConvertedClass) : IO Unit := do
  writeClassFile output converted.name converted.bytes
  converted.closures.forM fun (name, bytes) => writeClassFile output name bytes

/-- Converts a class file and writes what it becomes. -/
def convertInput (session : Session) (output path : String) : IO (Session × Option String) := do
  let (result, session) := session.convert (← readClassFile path)
  match result with
  | .error error => return (session, some error.message)
  | .ok converted =>
      writeConverted output converted
      return (session, none)

/-- Converts class files one after another, and counts those that fail. -/
def convertInputs (output : String) : Session → List String → IO Nat
  | _, [] => return 0
  | session, path :: rest => do
      let (session, complaint) ←
        try convertInput session output path
        catch error => pure (session, some (toString error))
      match complaint with
      | none => convertInputs output session rest
      | some complaint =>
          IO.eprintln s!"cannot convert {path}: {complaint}"
          return 1 + (← convertInputs output session rest)

/-- Does what a request asks for. -/
def Request.run (request : Request) : IO UInt32 := do
  match request.settings with
  | .error error =>
      IO.eprintln error.message
      return 2
  | .ok settings =>
      let groups ← request.classPath.mapM readDirectory
      let session := Session.start settings (Hierarchy.ofClassFiles groups)
      let failures ← convertInputs request.output session request.inputs
      return if failures = 0 then 0 else 1

end ClosureConversion

/-- Converts the closures of the class files that the arguments name. -/
def main (arguments : List String) : IO UInt32 := do
  match ClosureConversion.Request.ofArguments arguments with
  | .error complaint =>
      IO.eprintln complaint
      return 2
  | .ok request => request.run
