import ClosureConversion.ClassDefinition
import ClosureConversion.Listing.Code

/-!
Contract: classes and their attributes in listings.

Owns: the listed form of declarations, members and attributes, and reading the
definition of a class.
-/

namespace ClosureConversion.Listing

instance : ToData Version := ⟨fun version => toData (version.major, version.minor)⟩

instance : OfData Version where
  ofData data := do
    let major ← data.readItem 0
    let minor ← data.readItem 1
    return ⟨major, minor⟩

/-! ## Attributes -/

instance : ToData Attribute := ⟨fun entry => toData (entry.name, hex entry.info)⟩

instance : ToData ExceptionEntry :=
  ⟨fun entry => toData [entry.start, entry.stop, entry.handler, entry.catchType]⟩

instance : ToData CodeAttribute :=
  ⟨fun code => .record
    [("max_stack", toData code.maxStack), ("max_locals", toData code.maxLocals),
      ("code", hex code.bytes), ("exceptions", toData code.exceptions),
      ("attributes", toData code.attributes)]⟩

instance : ToData BootstrapTable := ⟨fun table => toData table.bootstraps⟩
instance : ToData LineEntry := ⟨fun entry => toData (entry.start, entry.line)⟩
instance : ToData LineTable := ⟨fun table => toData table.entries⟩

instance : ToData VariableEntry :=
  ⟨fun entry => toData [entry.start, entry.length, entry.name, entry.descriptor, entry.slot]⟩

instance : ToData VariableTable := ⟨fun table => toData table.entries⟩
instance : ToData SourceFile := ⟨fun source => toData source.name⟩

instance : ToData InnerClass :=
  ⟨fun entry => toData [entry.inner, entry.outer, entry.name, entry.flags]⟩

instance : ToData InnerClassTable := ⟨fun table => toData table.entries⟩

/-- The value of an element of an annotation is listed with its tag first. -/
def elementValue : ElementValue → Data
  | .constant tag value => toData (String.singleton (Char.ofNat tag.toNat), value)
  | .enum type name => toData [toData "e", toData type, toData name]
  | .class_ descriptor => toData ("c", descriptor)
  | .nested type elements =>
      let elements := elements.attach.map fun ⟨element, _⟩ =>
        (element.1, elementValue element.2)
      toData ("@", type, elements)
  | .array values => toData ("[", values.attach.map fun ⟨value, _⟩ => elementValue value)
decreasing_by
  · rename_i member
    have smaller := List.sizeOf_lt_of_mem member
    cases element
    simp_wf
    simp at smaller
    omega
  · rename_i member
    have smaller := List.sizeOf_lt_of_mem member
    simp_wf
    omega

instance : ToData ElementValue := ⟨elementValue⟩
instance : ToData Annotation := ⟨fun entry => toData (entry.type, entry.elements)⟩
instance : ToData VisibleAnnotations := ⟨fun contents => toData contents.annotations⟩
instance : ToData InvisibleAnnotations := ⟨fun contents => toData contents.annotations⟩

/-! ## Classes -/

instance (declaration : Declaration) : ToData (Member declaration) :=
  ⟨fun member => toData
    [toData member.flags, toData member.name, toData member.descriptor,
      toData member.attributes]⟩

instance : ToData FieldDeclaration :=
  ⟨fun field => toData
    [toData field.name, toData field.type, toData field.flags, toData field.annotations]⟩

instance : ToData MethodDeclaration :=
  ⟨fun method => toData
    [toData method.name, toData method.type, toData method.flags, toData method.annotations]⟩

instance : ToData ClassDeclaration :=
  ⟨fun declaration => .record
    [("name", toData declaration.name), ("super", toData declaration.super),
      ("interfaces", toData declaration.interfaces), ("flags", toData declaration.flags),
      ("fields", toData declaration.fields), ("methods", toData declaration.methods),
      ("annotations", toData declaration.annotations)]⟩

/-- The parts of a class file that are there before any of them is looked up in its
pool. -/
def classFileFields (file : ClassFile) : List (String × Data) :=
  [("version", toData file.version), ("constants", toData file.pool.constants),
    ("bootstrap", toData file.pool.bootstraps), ("flags", toData file.flags),
    ("this", toData file.this), ("super", toData file.super),
    ("interfaces", toData file.interfaces), ("fields", toData file.fields),
    ("methods", toData file.methods), ("attributes", toData file.attributes)]

instance : OfData FieldDeclaration where
  ofData data := do
    return {
      name := ← data.read "name"
      type := ← data.read "desc"
      flags := ← data.readD "flags" (.ofBits 9)
      annotations := ← data.read "annotations" }

instance : OfData MethodDefinition where
  ofData data := do
    let declaration : MethodDeclaration := {
      name := ← data.read "name"
      type := ← data.read "desc"
      flags := ← data.readD "flags" (.ofBits 9)
      annotations := ← data.read "annotations" }
    let body ← data.read "code"
    return { declaration, body }

instance : OfData ClassDefinition where
  ofData data := do
    return {
      name := ← data.read "name"
      super := ← data.readD "super" .object
      flags := ← data.readD "flags" (.ofBits 33)
      version := ← data.readD "version" .java8
      interfaces := ← data.read "interfaces"
      fields := ← data.read "fields"
      methods := ← data.read "methods" }

end ClosureConversion.Listing
