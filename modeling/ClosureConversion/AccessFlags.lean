/-!
Contract: the access flags of classes, methods and fields.

Owns:
- which flags exist for each kind of declaration, and dropping the others;
- the named flags, and the tests that the rest of the library asks for.

Does not own: how flags are written in a class file.
-/

namespace ClosureConversion

/-- The kinds of declaration that have access flags. -/
inductive Declaration where
  | class_
  | method
  | field
deriving DecidableEq, Repr

/-- The bits that are flags of a declaration of this kind. -/
def Declaration.knownFlags : Declaration → UInt16
  | .class_ => 0xF631
  | .method => 0x1DFF
  | .field => 0x50DF

/-- A set of access flags: no other bit is ever set. -/
structure AccessFlags (declaration : Declaration) where
  bits : UInt16
  known : bits &&& declaration.knownFlags = bits := by decide
deriving DecidableEq

instance (declaration : Declaration) : Repr (AccessFlags declaration) :=
  ⟨fun flags _ => repr flags.bits⟩

abbrev ClassFlags := AccessFlags .class_
abbrev MethodFlags := AccessFlags .method
abbrev FieldFlags := AccessFlags .field

namespace AccessFlags

variable {declaration : Declaration}

/-- The flags among the bits; the others are dropped. -/
def ofBits (bits : UInt16) : AccessFlags declaration where
  bits := bits &&& declaration.knownFlags
  known := by rw [UInt16.and_assoc, UInt16.and_self]

/-- The flags of both sets. -/
def union (left right : AccessFlags declaration) : AccessFlags declaration where
  bits := left.bits ||| right.bits
  known := by
    apply UInt16.toBitVec_inj.mp
    have leftKnown := congrArg UInt16.toBitVec left.known
    have rightKnown := congrArg UInt16.toBitVec right.known
    simp only [UInt16.toBitVec_and, UInt16.toBitVec_or] at leftKnown rightKnown ⊢
    apply BitVec.eq_of_getLsbD_eq
    intro index _
    have leftBit := congrArg (BitVec.getLsbD · index) leftKnown
    have rightBit := congrArg (BitVec.getLsbD · index) rightKnown
    simp only [BitVec.getLsbD_and, BitVec.getLsbD_or] at leftBit rightBit ⊢
    rw [Bool.and_or_distrib_right, leftBit, rightBit]

/-- Whether every flag of the second set is in the first. -/
def contains (flags others : AccessFlags declaration) : Bool :=
  flags.bits &&& others.bits == others.bits

/-- The flags of the first set that are not in the second. -/
def without (flags others : AccessFlags declaration) : AccessFlags declaration :=
  ofBits (flags.bits &&& ~~~ others.bits)

/-- Flags that are known already are all kept. -/
@[simp] theorem ofBits_bits
    (flags : AccessFlags declaration) :
    ofBits flags.bits = flags := by
  cases flags with
  | mk bits known => simp [ofBits, known]

end AccessFlags

namespace ClassFlags

def accPublic : ClassFlags := ⟨0x0001, by decide⟩
def accFinal : ClassFlags := ⟨0x0010, by decide⟩
def accSuper : ClassFlags := ⟨0x0020, by decide⟩
def accInterface : ClassFlags := ⟨0x0200, by decide⟩
def accAbstract : ClassFlags := ⟨0x0400, by decide⟩
def accSynthetic : ClassFlags := ⟨0x1000, by decide⟩
def accAnnotation : ClassFlags := ⟨0x2000, by decide⟩
def accEnum : ClassFlags := ⟨0x4000, by decide⟩

end ClassFlags

namespace MethodFlags

def accPublic : MethodFlags := ⟨0x0001, by decide⟩
def accPrivate : MethodFlags := ⟨0x0002, by decide⟩
def accProtected : MethodFlags := ⟨0x0004, by decide⟩
def accStatic : MethodFlags := ⟨0x0008, by decide⟩
def accFinal : MethodFlags := ⟨0x0010, by decide⟩
def accNative : MethodFlags := ⟨0x0100, by decide⟩
def accAbstract : MethodFlags := ⟨0x0400, by decide⟩
def accSynthetic : MethodFlags := ⟨0x1000, by decide⟩

end MethodFlags

namespace FieldFlags

def accPublic : FieldFlags := ⟨0x0001, by decide⟩
def accPrivate : FieldFlags := ⟨0x0002, by decide⟩
def accProtected : FieldFlags := ⟨0x0004, by decide⟩
def accStatic : FieldFlags := ⟨0x0008, by decide⟩
def accFinal : FieldFlags := ⟨0x0010, by decide⟩
def accSynthetic : FieldFlags := ⟨0x1000, by decide⟩

end FieldFlags

end ClosureConversion
