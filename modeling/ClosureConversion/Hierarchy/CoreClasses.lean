import ClosureConversion.Hierarchy.Declaration

/-!
Contract: the classes of the platform that every hierarchy knows without a class file.

Owns: their declarations: the root class, strings, boxes, exceptions and the
functional interfaces.
-/

namespace ClosureConversion.CoreClass

/-- A public method. -/
def method (name : UnqualifiedName) (parameters : List FieldType) (result : Option FieldType) :
    MethodDeclaration where
  name := name
  type := ⟨parameters, result⟩
  flags := .ofBits 0x0001
  annotations := []

/-- A public method without a receiver. -/
def staticMethod (name : UnqualifiedName) (parameters : List FieldType)
    (result : Option FieldType) : MethodDeclaration :=
  { method name parameters result with flags := .ofBits 0x0009 }

/-- A public method without a body. -/
def abstractMethod (name : UnqualifiedName) (parameters : List FieldType)
    (result : Option FieldType) : MethodDeclaration :=
  { method name parameters result with flags := .ofBits 0x0401 }

/-- The constructor without parameters. -/
def constructor : MethodDeclaration :=
  method .init [] none

/-- A class below the root class. -/
def class_ (flags : UInt16) (name : BinaryName) (interfaces : List BinaryName)
    (methods : List MethodDeclaration) : ClassDeclaration where
  name := name
  super := some .object
  interfaces := interfaces
  flags := .ofBits flags
  fields := []
  methods := methods
  annotations := []

/-- A public class. -/
def publicClass : BinaryName → List BinaryName → List MethodDeclaration → ClassDeclaration :=
  class_ 0x0021

/-- A public class without subclasses. -/
def finalClass : BinaryName → List BinaryName → List MethodDeclaration → ClassDeclaration :=
  class_ 0x0031

/-- A public interface. -/
def interface : BinaryName → List BinaryName → List MethodDeclaration → ClassDeclaration :=
  class_ 0x0601

/-- A public interface with one method. -/
def functional (name : BinaryName) (method : UnqualifiedName) (parameters : List FieldType)
    (result : Option FieldType) : ClassDeclaration :=
  interface name [] [abstractMethod method parameters result]

/-- The class whose instances hold a value of a base type. -/
def box (type : BaseType) (unboxing : UnqualifiedName) : ClassDeclaration :=
  finalClass type.boxClass [.comparable, .serializable]
    [staticMethod .valueOf [.base type] (some (.object type.boxClass)),
      method unboxing [] (some (.base type))]

/-- The class whose instances hold a number. -/
def numberBox (type : BaseType) (unboxing : UnqualifiedName) : ClassDeclaration :=
  { box type unboxing with super := some .number }

/-- An exception class. -/
def throwable (super name : BinaryName) (interfaces : List BinaryName) : ClassDeclaration :=
  { publicClass name interfaces [constructor] with super := some super }

def object : FieldType := .object .object

def apply : UnqualifiedName := ⟨"apply", by decide⟩
def accept : UnqualifiedName := ⟨"accept", by decide⟩
def test : UnqualifiedName := ⟨"test", by decide⟩
def applyAsInt : UnqualifiedName := ⟨"applyAsInt", by decide⟩
def applyAsLong : UnqualifiedName := ⟨"applyAsLong", by decide⟩
def applyAsDouble : UnqualifiedName := ⟨"applyAsDouble", by decide⟩
def equals : UnqualifiedName := ⟨"equals", by decide⟩
def length : UnqualifiedName := ⟨"length", by decide⟩

def function : BinaryName := ⟨"java/util/function/Function", by decide⟩
def biFunction : BinaryName := ⟨"java/util/function/BiFunction", by decide⟩

/-- The root class. -/
def root : ClassDeclaration :=
  { publicClass .object []
      [constructor,
        method equals [object] (some .boolean),
        method ⟨"hashCode", by decide⟩ [] (some .int),
        method ⟨"toString", by decide⟩ [] (some (.object .string))] with
    super := none }

/-- The classes and interfaces of values that are no functions. -/
def dataClasses : List ClassDeclaration :=
  [root,
    interface .serializable [] [],
    interface .cloneable [] [],
    interface .charSequence []
      [abstractMethod length [] (some .int),
        abstractMethod ⟨"charAt", by decide⟩ [.int] (some .char)],
    finalClass .string [.serializable, .comparable, .charSequence]
      [method length [] (some .int),
        staticMethod .valueOf [object] (some (.object .string))],
    finalClass .class_ [.serializable] [],
    class_ 0x0421 .number [.serializable]
      [constructor,
        abstractMethod .intValue [] (some .int),
        abstractMethod .longValue [] (some .long),
        abstractMethod .floatValue [] (some .float),
        abstractMethod .doubleValue [] (some .double),
        method .byteValue [] (some .byte),
        method .shortValue [] (some .short)],
    numberBox .int .intValue,
    numberBox .long .longValue,
    numberBox .float .floatValue,
    numberBox .double .doubleValue,
    numberBox .short .shortValue,
    numberBox .byte .byteValue,
    box .boolean .booleanValue,
    box .char .charValue]

/-- The exception classes. -/
def exceptionClasses : List ClassDeclaration :=
  [throwable .object .throwable [.serializable],
    throwable .throwable .exception [],
    throwable .exception .runtimeException [],
    throwable .throwable .error []]

/-- The interfaces of functions on references. -/
def referenceFunctions : List ClassDeclaration :=
  [functional .runnable ⟨"run", by decide⟩ [] none,
    functional .comparable ⟨"compareTo", by decide⟩ [object] (some .int),
    functional .callable ⟨"call", by decide⟩ [] (some object),
    interface ⟨"java/util/Comparator", by decide⟩ []
      [abstractMethod ⟨"compare", by decide⟩ [object, object] (some .int),
        abstractMethod equals [object] (some .boolean)],
    functional function apply [object] (some object),
    functional biFunction apply [object, object] (some object),
    interface ⟨"java/util/function/UnaryOperator", by decide⟩ [function] [],
    interface ⟨"java/util/function/BinaryOperator", by decide⟩ [biFunction] [],
    functional ⟨"java/util/function/Supplier", by decide⟩ ⟨"get", by decide⟩ [] (some object),
    functional ⟨"java/util/function/Consumer", by decide⟩ accept [object] none,
    functional ⟨"java/util/function/BiConsumer", by decide⟩ accept [object, object] none,
    functional ⟨"java/util/function/Predicate", by decide⟩ test [object] (some .boolean),
    functional ⟨"java/util/function/BiPredicate", by decide⟩ test [object, object]
      (some .boolean)]

/-- The interfaces of functions on values that are no references. -/
def primitiveFunctions : List ClassDeclaration :=
  [functional ⟨"java/util/function/IntFunction", by decide⟩ apply [.int] (some object),
    functional ⟨"java/util/function/IntUnaryOperator", by decide⟩ applyAsInt [.int] (some .int),
    functional ⟨"java/util/function/IntBinaryOperator", by decide⟩ applyAsInt [.int, .int]
      (some .int),
    functional ⟨"java/util/function/IntPredicate", by decide⟩ test [.int] (some .boolean),
    functional ⟨"java/util/function/IntSupplier", by decide⟩ ⟨"getAsInt", by decide⟩ []
      (some .int),
    functional ⟨"java/util/function/IntConsumer", by decide⟩ accept [.int] none,
    functional ⟨"java/util/function/ToIntFunction", by decide⟩ applyAsInt [object] (some .int),
    functional ⟨"java/util/function/LongUnaryOperator", by decide⟩ applyAsLong [.long]
      (some .long),
    functional ⟨"java/util/function/LongBinaryOperator", by decide⟩ applyAsLong [.long, .long]
      (some .long),
    functional ⟨"java/util/function/LongSupplier", by decide⟩ ⟨"getAsLong", by decide⟩ []
      (some .long),
    functional ⟨"java/util/function/DoubleUnaryOperator", by decide⟩ applyAsDouble [.double]
      (some .double),
    functional ⟨"java/util/function/DoubleBinaryOperator", by decide⟩ applyAsDouble
      [.double, .double] (some .double),
    functional ⟨"java/util/function/DoubleSupplier", by decide⟩ ⟨"getAsDouble", by decide⟩ []
      (some .double),
    functional ⟨"java/util/function/BooleanSupplier", by decide⟩ ⟨"getAsBoolean", by decide⟩ []
      (some .boolean)]

/-- Every class that needs no class file. -/
def all : List ClassDeclaration :=
  [dataClasses, exceptionClasses, referenceFunctions, primitiveFunctions].flatten

/-- The class of a name, if it needs no class file. -/
def find? (name : BinaryName) : Option ClassDeclaration :=
  all.find? fun declaration => declaration.name = name

end ClosureConversion.CoreClass
