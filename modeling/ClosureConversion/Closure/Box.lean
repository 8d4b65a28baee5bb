import ClosureConversion.Code.Instruction

/-!
Contract: boxes, which are arrays of one element that closures share a variable through.

Owns: making a box, and loading, storing and incrementing what it holds.

Does not own: which variables are kept in boxes.
-/

namespace ClosureConversion

/-- What is done with the value in a box. -/
inductive BoxOperation where
  | load
  | store
  | increment (amount : Int16)
deriving DecidableEq, Repr

variable {Label : Type}

/-- Puts the index of the only element under a value on top of a box. -/
def insertIndex (type : FieldType) : List (Instruction Label) :=
  if type.isWide then
    [.op (.stack .dupX2), .op (.stack .pop), .pushInt 0, .op (.stack .dupX2),
      .op (.stack .pop)]
  else
    [.op (.stack .swap), .pushInt 0, .op (.stack .swap)]

/-- What is done once the box is on the operand stack. A value to store is under it. -/
def BoxOperation.body (type : FieldType) : BoxOperation → List (Instruction Label)
  | .load => [.pushInt 0, .op (.arrayLoad (.ofElement type))]
  | .store => insertIndex type ++ [.op (.arrayStore (.ofElement type))]
  | .increment amount =>
      [.pushInt 0, .op (.stack .dup2), .op (.arrayLoad (.ofElement type)),
        .pushInt amount.toInt32, .op (.arithmetic .add .int),
        .op (.arrayStore (.ofElement type))]

/-- The code of an operation on a box with an element of a type, given the code that
pushes the box. -/
def BoxOperation.code (push : List (Instruction Label)) (type : FieldType)
    (operation : BoxOperation) : List (Instruction Label) :=
  push ++ operation.body type

/-- Makes an array with elements of a type. -/
def newArrayOf : FieldType → Instruction Label
  | .base type => .newArray type
  | .ref type => .newRefArray type

/-- Makes a box that holds a value of a type, given the code that pushes the value. -/
def newBox (type : FieldType) (value : List (Instruction Label)) : List (Instruction Label) :=
  [.pushInt 1, newArrayOf type, .op (.stack .dup), .pushInt 0] ++ value ++
    [.op (.arrayStore (.ofElement type))]

end ClosureConversion
