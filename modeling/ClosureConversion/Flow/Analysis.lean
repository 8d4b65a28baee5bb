import ClosureConversion.Flow.Execution
import ClosureConversion.Flow.Merging
import ClosureConversion.Method.Basic

/-!
Contract: the frame before every instruction of a method that control can reach.

Owns:
- following control from the entry of a method along its instructions, jumps and
  exception handlers, merging frames until none of them changes;
- the number of slots that the operand stack and the local variables need;
- which instructions are never reached.

Does not own: what becomes of them.
-/

namespace ClosureConversion

/-- The frames found so far, and the instructions whose successors have to be looked at
again, the next one first. -/
structure FlowState where
  frames : Array (Option Frame)
  worklist : List Nat
  maxStack : Nat
  maxLocals : Nat
deriving DecidableEq, Repr

/-- The frames of a method. An instruction without a frame is never reached. -/
structure FlowAnalysis where
  frames : Array (Option Frame)
  maxStack : Nat
  maxLocals : Nat
deriving DecidableEq, Repr

namespace Method

/-- The frame with which the method begins. -/
def entryFrame (method : Method) : Frame :=
  Frame.methodEntry method.owner method.isStatic method.isConstructor method.type.parameters

/-- The mnemonic of the instruction of an index. -/
def mnemonicAt (method : Method) (index : Nat) : String :=
  match method.instructions[index]? with
  | some instruction => instruction.mnemonic
  | none => ""

/-- What is wrong with an instruction of the method. -/
def flowError (method : Method) (index : Nat) (cause : FlowError) : BytecodeError :=
  .flow index (method.mnemonicAt index) cause

/-- The position of an exception handler that is out of place. -/
def misplaced? (length : Nat) (range : ExceptionRange Nat) : Option Nat :=
  if range.stop < range.start || length < range.stop then some range.stop
  else if length ≤ range.handler then some range.handler
  else none

/-- The first jump target or position of an exception handler that is out of place. -/
def badTarget? (method : Method) : Option Nat :=
  let length := method.instructions.size
  let targets := method.instructions.toList.flatMap Instruction.targets
  match targets.find? fun target => length ≤ target with
  | some target => some target
  | none => method.handlers.toList.findSome? (misplaced? length)

end Method

namespace FlowState

/-- The start of the analysis: only the frame of the first instruction is known. -/
def start (method : Method) : FlowState where
  frames := (Array.replicate method.instructions.size none).setIfInBounds 0
    (some method.entryFrame)
  worklist := [0]
  maxStack := 0
  maxLocals := method.entryFrame.localSlots

/-- The frame of an instruction. -/
def frame? (state : FlowState) (index : Nat) : Option Frame :=
  state.frames.getD index none

/-- Sets the frame of an instruction, whose successors have to be looked at again. -/
def record (state : FlowState) (target : Nat) (frame : Frame) : FlowState :=
  { state with
    frames := state.frames.setIfInBounds target (some frame)
    worklist :=
      if state.worklist.contains target then state.worklist else target :: state.worklist }

/-- Control goes on to an instruction with a frame. -/
def flowInto (method : Method) (hierarchy : Hierarchy) (state : FlowState) (target : Nat)
    (incoming : Frame) : Except BytecodeError FlowState :=
  match state.frame? target with
  | none => .ok (state.record target incoming)
  | some existing =>
      match existing.merge hierarchy incoming with
      | .error (.flow cause) => .error (method.flowError target cause)
      | .error (.classes error) => .error error
      | .ok (merged, changed) =>
          if changed then .ok (state.record target merged)
          else .ok { state with frames := state.frames.setIfInBounds target (some merged) }

/-- Accounts for the slots of a frame. -/
def measure (state : FlowState) (frame : Frame) : FlowState :=
  { state with
    maxStack := max state.maxStack frame.stackSlots
    maxLocals := max state.maxLocals frame.localSlots }

/-- The frames with which exceptions may reach a handler from an instruction: they are
thrown before it changes the slots, or after. -/
def handlerEntries (range : ExceptionRange Nat) (before after : Frame) : List Frame :=
  [Frame.handlerEntry before.locals range.catchType,
    Frame.handlerEntry after.locals range.catchType]

/-- Exceptions go from an instruction to the handlers that cover it. -/
def flowIntoHandlers (method : Method) (hierarchy : Hierarchy) (state : FlowState) (index : Nat)
    (before after : Frame) : Except BytecodeError FlowState :=
  (method.handlers.toList.filter (·.covers index)).foldlM
    (fun state range =>
      (handlerEntries range before after).foldlM
        (fun state entry =>
          (state.measure entry).flowInto method hierarchy range.handler entry)
        state)
    state

/-- Control goes from an instruction to its successors. -/
def flowOn (method : Method) (hierarchy : Hierarchy) (state : FlowState) (index : Nat)
    (instruction : Instruction Nat) (after : Frame) : Except BytecodeError FlowState := do
  let state ← instruction.targets.foldlM
    (fun state target => state.flowInto method hierarchy target after) state
  if instruction.fallsThrough then
    if index + 1 < method.instructions.size then
      state.flowInto method hierarchy (index + 1) after
    else
      throw (method.flowError index .fallsOffEnd)
  else
    return state

/-- Executes the instruction of an index and goes on to all its successors. -/
def visit (method : Method) (hierarchy : Hierarchy) (state : FlowState) (index : Nat) :
    Except BytecodeError FlowState :=
  match state.frame? index, method.instructions[index]? with
  | some before, some instruction =>
      match before.execute method.owner method.instructions index instruction with
      | .error cause => .error (method.flowError index cause)
      | .ok after => do
          let state := state.measure after
          let state ← flowIntoHandlers method hierarchy state index before after
          flowOn method hierarchy state index instruction after
  | _, _ => .ok state

/-- Visits instructions until there is none left to visit. -/
def run (method : Method) (hierarchy : Hierarchy) :
    Nat → FlowState → Except BytecodeError FlowState
  | 0, _ => .error .unsettledFrames
  | fuel + 1, state =>
      match state.worklist with
      | [] => .ok state
      | index :: rest =>
          match visit method hierarchy { state with worklist := rest } index with
          | .ok state => run method hierarchy fuel state
          | .error error => .error error

/-- A bound on the number of visits: an instruction is visited again only after its frame
rose, the type of a value can rise no more often than there are classes and a few
times, and no frame holds more values than slots can be named and instructions can
push. -/
def visitBound (method : Method) (hierarchy : Hierarchy) : Nat :=
  let length := method.instructions.size
  let values := method.entryFrame.localSlots + 65537 + 2 * length + 1
  2 + length * (1 + values * (hierarchy.names.length + 4))

end FlowState

namespace FlowAnalysis

/-- The frame of an instruction. -/
def frame? (analysis : FlowAnalysis) (index : Nat) : Option Frame :=
  analysis.frames.getD index none

/-- Whether control can reach an instruction. -/
def isReachable (analysis : FlowAnalysis) (index : Nat) : Bool :=
  (analysis.frame? index).isSome

/-- The frame of an instruction that has to be reachable. -/
def requireReachable (analysis : FlowAnalysis) (index : Nat) : Except BytecodeError Frame :=
  match analysis.frames[index]? with
  | some (some frame) => .ok frame
  | some none => .error (.flow index "(dead code)" (.unreachableCode index))
  | none => .error (.invalidJumpTarget index)

/-- How many values are on the operand stack before an instruction. -/
def stackDepth? (analysis : FlowAnalysis) (index : Nat) : Option Nat :=
  (analysis.frame? index).map fun frame => frame.stack.length

end FlowAnalysis

/-- Finds the frames of a method. -/
def Method.analyze (method : Method) (hierarchy : Hierarchy) :
    Except BytecodeError FlowAnalysis := do
  if method.instructions.isEmpty then throw (.malformedCode 0 "method body is empty")
  match method.badTarget? with
  | some target => throw (.invalidJumpTarget target)
  | none =>
      let state ← FlowState.run method hierarchy (FlowState.visitBound method hierarchy)
        (FlowState.start method)
      return ⟨state.frames, state.maxStack, state.maxLocals⟩

end ClosureConversion
