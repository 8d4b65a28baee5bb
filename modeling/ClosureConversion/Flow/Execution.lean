import ClosureConversion.Flow.Frame

/-!
Contract: what each instruction does to a frame, and what is wrong with one that cannot
be executed there.

Owns: the effect of every instruction on the types of the slots and the operand stack.

Does not own: where control goes after an instruction.
-/

namespace ClosureConversion

namespace ArrayKind

/-- The kind of the arrays with elements of a base type. -/
def ofBase (type : BaseType) : ArrayKind :=
  ofElement (.base type)

/-- What an array instruction of a kind finds in an array of a type. A null array has no
elements, so any type will do. -/
def elementOf (kind : ArrayKind) (array : VType) : Except FlowError VType :=
  match array, kind with
  | .null, kind => .ok kind.toLocal.type
  | .object (.objectArray nesting name), .reference =>
      match nesting with
      | 0 => .ok (.object (.object name))
      | inner + 1 => .ok (.object (.objectArray inner name))
  | .object (.primitiveArray (inner + 1) type), .reference =>
      .ok (.object (.primitiveArray inner type))
  | .object (.primitiveArray 0 type), kind =>
      if ofBase type = kind then .ok kind.toLocal.type else .error .invalidType
  | _, _ => .error .notArrayType

end ArrayKind

namespace OperandStack

/-- The stack after an element of an array is pushed. -/
def loadElement (stack : OperandStack) (kind : ArrayKind) : Except FlowError OperandStack := do
  let stack ← stack.popType .int
  let (array, stack) ← stack.pop
  let element ← kind.elementOf array
  return element :: stack

/-- The stack after an element of an array is assigned. -/
def storeElement (stack : OperandStack) (kind : ArrayKind) : Except FlowError OperandStack := do
  let (value, stack) ← stack.pop
  let stack ← stack.popType .int
  let (array, stack) ← stack.pop
  let _ ← kind.elementOf array
  if value.isOfKind kind.toLocal then return stack else throw .invalidType

/-- The stack after the length of an array is pushed. -/
def arrayLength (stack : OperandStack) : Except FlowError OperandStack := do
  let (array, stack) ← stack.pop
  match array with
  | .null => return .int :: stack
  | .object (.objectArray _ _) => return .int :: stack
  | .object (.primitiveArray _ _) => return .int :: stack
  | _ => throw .notArrayType

end OperandStack

/-- The stack after an instruction without operands. -/
def Operation.apply (operation : Operation) (stack : OperandStack) :
    Except FlowError OperandStack :=
  match operation with
  | .nop => .ok stack
  | .pushNull => .ok (.null :: stack)
  | .arrayLoad kind => stack.loadElement kind
  | .arrayStore kind => stack.storeElement kind
  | .stack operation => operation.apply stack
  | .arithmetic _ kind => stack.replaceTypes [kind.type, kind.type] kind.type
  | .negate kind => stack.replaceTypes [kind.type] kind.type
  | .shift _ kind => stack.replaceTypes [.int, kind.type] kind.type
  | .bitwise _ kind => stack.replaceTypes [kind.type, kind.type] kind.type
  | .convert conversion =>
      stack.replaceTypes [conversion.source.type] conversion.target.type
  | .compareLong => stack.replaceTypes [.long, .long] .int
  | .compareFloat _ => stack.replaceTypes [.float, .float] .int
  | .compareDouble _ => stack.replaceTypes [.double, .double] .int
  | .leave none => .ok stack
  | .leave (some kind) => Prod.snd <$> stack.popKind kind
  | .throw => stack.popReference
  | .arrayLength => stack.arrayLength
  | .monitorEnter => stack.popReference
  | .monitorExit => stack.popReference

/-- The stack after a conditional jump, taken or not. -/
def Condition.apply (condition : Condition) (stack : OperandStack) :
    Except FlowError OperandStack :=
  match condition with
  | .zero _ => stack.popType .int
  | .ints _ => stack.popTypes [.int, .int]
  | .references _ => do
      let stack ← stack.popReference
      stack.popReference
  | .null _ => stack.popReference

/-- The stack after an access to a field. A field of the receiver may be assigned before
the constructor of its superclass is called. -/
def FieldAccess.apply (access : FieldAccess) (type : FieldType) (stack : OperandStack) :
    Except FlowError OperandStack :=
  match access with
  | .getStatic => .ok (.ofField type :: stack)
  | .putStatic => stack.popFitting type
  | .getField => do
      let stack ← stack.popReference
      return .ofField type :: stack
  | .putField => do
      let stack ← stack.popFitting type
      stack.popReference

/-- The type of a literal. -/
def Literal.type : Literal → VType
  | .integer _ => .int
  | .float _ => .float
  | .long _ => .long
  | .double _ => .double
  | .string _ => .object (.object .string)
  | .class_ _ => .object (.object .class_)
  | .methodType _ => .object (.object .methodType)
  | .methodHandle _ => .object (.object .methodHandle)

namespace Frame

/-- The frame with every copy of one value replaced by another value. -/
def replaceAll (frame : Frame) (original replacement : VType) : Frame :=
  let replace (type : VType) := if type = original then replacement else type
  ⟨frame.locals.map replace, frame.stack.map replace⟩

/-- What an object is once its constructor has run. -/
def initialized (owner : BinaryName) (code : Array (Instruction Nat)) (receiver : VType) :
    Except FlowError VType :=
  match receiver with
  | .uninitializedThis => .ok (.object (.object owner))
  | .uninitialized site =>
      match code[site]? with
      | some (.new name) => .ok (.object (.object name))
      | _ => .error .invalidType
  | _ => .error .invalidType

/-- The frame after a constructor is called: every copy of the object is initialised. -/
def construct (frame : Frame) (owner : BinaryName) (code : Array (Instruction Nat))
    (type : MethodType) : Except FlowError Frame := do
  let stack ← frame.stack.popArguments type.parameters
  let (receiver, stack) ← stack.pop
  let object ← initialized owner code receiver
  if type.result.isSome then throw .invalidType
  return replaceAll ⟨frame.locals, stack⟩ receiver object

/-- The stack after a method is called that is no constructor. -/
def call (stack : OperandStack) (hasReceiver : Bool) (type : MethodType) :
    Except FlowError OperandStack := do
  let stack ← stack.popArguments type.parameters
  let stack ← if hasReceiver then stack.popReference else pure stack
  return stack.pushResult type.result

/-- The frame after the instruction of an index in the code of a method. -/
def execute (frame : Frame) (owner : BinaryName) (code : Array (Instruction Nat)) (index : Nat)
    (instruction : Instruction Nat) : Except FlowError Frame :=
  let push (type : VType) : Except FlowError Frame := .ok ⟨frame.locals, type :: frame.stack⟩
  let withStack (result : Except FlowError OperandStack) : Except FlowError Frame :=
    match result with
    | .ok stack => .ok ⟨frame.locals, stack⟩
    | .error error => .error error
  match instruction with
  | .op operation => withStack (operation.apply frame.stack)
  | .pushInt _ => push .int
  | .pushLong _ => push .long
  | .pushFloat _ => push .float
  | .pushDouble _ => push .double
  | .pushLiteral literal => push literal.type
  | .load kind slot => do
      let type ← Locals.get frame.locals slot
      if type.isOfKind kind then push type else throw .invalidType
  | .store kind slot => do
      let (type, stack) ← frame.stack.popKind kind
      return ⟨Locals.assign frame.locals slot type, stack⟩
  | .increment slot _ => do
      let type ← Locals.get frame.locals slot
      if type = .int then return frame else throw .invalidType
  | .branch condition _ => withStack (condition.apply frame.stack)
  | .goto _ => .ok frame
  | .tableSwitch _ _ _ => withStack (frame.stack.popType .int)
  | .lookupSwitch _ _ => withStack (frame.stack.popType .int)
  | .field access member => withStack (access.apply member.type frame.stack)
  | .invoke kind method =>
      if kind = .special && method.isInit then frame.construct owner code method.type
      else withStack (call frame.stack kind.hasReceiver method.type)
  | .invokeDynamic dynamic => withStack (call frame.stack false dynamic.type)
  | .new _ => push (.uninitialized index)
  | .newArray element =>
      withStack (frame.stack.replaceTypes [.int] (.object (RefType.arrayOf (.base element))))
  | .newRefArray element =>
      withStack (frame.stack.replaceTypes [.int] (.object (RefType.arrayOf (.ref element))))
  | .checkCast type => withStack do
      let stack ← frame.stack.popReference
      return .object type :: stack
  | .instanceOf _ => withStack do
      let stack ← frame.stack.popReference
      return .int :: stack
  | .newMultiArray type dimensions =>
      withStack
        (frame.stack.replaceTypes (List.replicate dimensions.toNat .int) (.object type))

end Frame

end ClosureConversion
