import ClosureConversion.OffsetSeq
import ClosureConversion.Text.Quoted
import ClosureConversion.Text.ShortestDecimal

/-!
Contract: the entries of the constant pool of a class file.

Owns:
- every kind of constant, with the positions of the constants it refers to;
- the kinds of method handles, by what they do with their member;
- the form in which a message shows a constant.

Does not own: the pool, or how constants are written in a class file.
-/

namespace ClosureConversion

/-- The position of a constant in the pool. Positions start at one. -/
abbrev PoolIndex := UInt16

/-- What is done with a field. -/
inductive FieldAccess where
  | getField
  | getStatic
  | putField
  | putStatic
deriving DecidableEq, Hashable, Repr

/-- What a method handle does with a method. -/
inductive MethodUse where
  | invokeVirtual
  | invokeStatic
  | invokeSpecial
  | newInvokeSpecial
  | invokeInterface
deriving DecidableEq, Hashable, Repr

/-- The kinds of method handles. -/
inductive HandleKind where
  | field (access : FieldAccess)
  | method (use : MethodUse)
deriving DecidableEq, Hashable, Repr

namespace HandleKind

/-- The kinds in the order of their numbers, which start at one. -/
def all : List HandleKind :=
  [.field .getField, .field .getStatic, .field .putField, .field .putStatic,
    .method .invokeVirtual, .method .invokeStatic, .method .invokeSpecial,
    .method .newInvokeSpecial, .method .invokeInterface]

/-- The number of a kind. -/
def number : HandleKind → UInt8
  | .field .getField => 1
  | .field .getStatic => 2
  | .field .putField => 3
  | .field .putStatic => 4
  | .method .invokeVirtual => 5
  | .method .invokeStatic => 6
  | .method .invokeSpecial => 7
  | .method .newInvokeSpecial => 8
  | .method .invokeInterface => 9

/-- The kind of a number. -/
def ofNumber? (number : UInt8) : Option HandleKind :=
  all.find? fun kind => kind.number = number

/-- The name of a kind in messages. -/
def title : HandleKind → String
  | .field .getField => "GetField"
  | .field .getStatic => "GetStatic"
  | .field .putField => "PutField"
  | .field .putStatic => "PutStatic"
  | .method .invokeVirtual => "InvokeVirtual"
  | .method .invokeStatic => "InvokeStatic"
  | .method .invokeSpecial => "InvokeSpecial"
  | .method .newInvokeSpecial => "NewInvokeSpecial"
  | .method .invokeInterface => "InvokeInterface"

@[simp] theorem ofNumber?_number
    (kind : HandleKind) :
    ofNumber? kind.number = some kind := by
  cases kind with
  | field access => cases access <;> rfl
  | method use => cases use <;> rfl

end HandleKind

/-- An entry of the constant pool. Floating-point numbers are held by their bits. -/
inductive Constant where
  | classInfo (name : PoolIndex)
  | fieldRef (owner signature : PoolIndex)
  | methodRef (owner signature : PoolIndex) (ofInterface : Bool)
  | string (text : PoolIndex)
  | integer (value : Int32)
  | float (bits : UInt32)
  | long (value : Int64)
  | double (bits : UInt64)
  | nameAndType (name descriptor : PoolIndex)
  | utf8 (text : String)
  | methodHandle (kind : HandleKind) (member : PoolIndex)
  | methodType (descriptor : PoolIndex)
  | dynamic (bootstrap : UInt16) (signature : PoolIndex)
  | invokeDynamic (bootstrap : UInt16) (signature : PoolIndex)
  | moduleInfo (name : PoolIndex)
  | packageInfo (name : PoolIndex)
deriving DecidableEq, Hashable, Repr

namespace Constant

/-- Longs and doubles take two positions of the pool. -/
def isWide : Constant → Bool
  | .long _ => true
  | .double _ => true
  | _ => false

instance : Width Constant := ⟨fun constant => if constant.isWide then 2 else 1⟩

/-- The position of a constant in messages. -/
def describeIndex (index : PoolIndex) : String :=
  s!"ConstantIndex({index})"

/-- The position of a constant of a known kind in messages. -/
def describeIndexOf (kind : String) (index : PoolIndex) : String :=
  s!"{kind}ConstantIndex({describeIndex index})"

/-- A constant with named parts in messages. -/
def describeParts (name : String) (parts : List (String × String)) : String :=
  name ++ " \x7b " ++ ", ".intercalate (parts.map fun (label, part) => s!"{label}: {part}") ++
    " \x7d"

/-- The form in which messages show a constant. -/
def describe : Constant → String
  | .classInfo name => "Class(" ++ describeIndexOf "Utf8" name ++ ")"
  | .fieldRef owner signature =>
      "FieldRef(" ++ describeIndexOf "Class" owner ++ ", " ++
        describeIndexOf "NameAndType" signature ++ ")"
  | .methodRef owner signature ofInterface =>
      describeParts "MethodRef"
        [("class", describeIndexOf "Class" owner),
          ("name_and_type", describeIndexOf "NameAndType" signature),
          ("is_interface", toString ofInterface)]
  | .string text => "String(" ++ describeIndexOf "Utf8" text ++ ")"
  | .integer value => s!"Integer({value})"
  | .float bits => s!"Float({(Text.BinaryNumber.ofBits .single bits.toNat).render})"
  | .long value => s!"Long({value})"
  | .double bits => s!"Double({(Text.BinaryNumber.ofBits .double bits.toNat).render})"
  | .nameAndType name descriptor =>
      describeParts "NameAndType"
        [("name", describeIndexOf "Utf8" name), ("descriptor", describeIndexOf "Utf8" descriptor)]
  | .utf8 text => s!"Utf8({Text.quoted text})"
  | .methodHandle kind member =>
      describeParts "MethodHandle" [("handle_kind", kind.title), ("member", describeIndex member)]
  | .methodType descriptor =>
      describeParts "MethodType" [("descriptor", describeIndexOf "Utf8" descriptor)]
  | .dynamic bootstrap signature =>
      describeParts "Dynamic"
        [("bootstrap_method", toString bootstrap),
          ("name_and_type", describeIndexOf "NameAndType" signature)]
  | .invokeDynamic bootstrap signature =>
      describeParts "InvokeDynamic"
        [("bootstrap_method", toString bootstrap),
          ("method_descriptor", describeIndexOf "NameAndType" signature)]
  | .moduleInfo name => "Module(" ++ describeIndexOf "Utf8" name ++ ")"
  | .packageInfo name => "Package(" ++ describeIndexOf "Utf8" name ++ ")"

end Constant

end ClosureConversion
