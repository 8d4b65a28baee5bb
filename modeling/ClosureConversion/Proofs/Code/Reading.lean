import Mathlib.Algebra.Group.Int.Defs
import ClosureConversion.Code.Decoding
import ClosureConversion.Proofs.Binary

/-!
Contract: what the readers of code take off.

Owns:
- readers that take exactly given bytes and give a value, and how they are put together;
- the reading of operands, jump targets and padding;
- which opcodes lead to which reader.

Does not own: which bytes an instruction is written as.
-/

namespace ClosureConversion

/-- Whatever follows them, the reader takes these bytes and gives this value. -/
def Reads {α : Type} (reader : CodeReader α) (bytes : Bytes) (value : α) : Prop :=
  ∀ offset rest, reader ⟨offset, bytes ++ rest⟩ = .ok (value, ⟨offset + bytes.length, rest⟩)

section Reads

variable {α β : Type}

theorem reads_pure
    (value : α) :
    Reads (pure value) [] value :=
  fun _ _ => rfl

/-- What needs no bytes is computed. -/
theorem reads_lift
    {computation : Except BytecodeError α}
    {value : α}
    (computed : computation = .ok value) :
    Reads (liftM computation) [] value := by
  subst computed
  intro offset rest
  rfl

theorem Reads.bind
    {first : CodeReader α}
    {next : α → CodeReader β}
    {front back : Bytes}
    {value : α}
    {result : β}
    (reads : Reads first front value)
    (readsNext : Reads (next value) back result) :
    Reads (first >>= next) (front ++ back) result := by
  intro offset rest
  rw [List.append_assoc, read_bind_of_eq_ok (reads offset (back ++ rest)),
    readsNext (offset + front.length) rest, List.length_append, Nat.add_assoc]

/-- A reader that is followed by no other reading. -/
theorem Reads.last
    {first : CodeReader α}
    {next : α → CodeReader β}
    {front : Bytes}
    {value : α}
    {result : β}
    (reads : Reads first front value)
    (readsNext : Reads (next value) [] result) :
    Reads (first >>= next) front result := by
  have both := reads.bind readsNext
  rw [List.append_nil] at both
  exact both

end Reads

namespace InstructionContext

variable {context : InstructionContext}

section Operands

variable {α β : Type}

/-! ## Operands -/

theorem reads_operand
    [Binary α]
    [LawfulBinary α]
    {size : Nat}
    {value : α}
    (sized : (write value).length = size) :
    Reads (context.operand size) (write value) value := by
  intro offset rest
  unfold operand
  simp only [read_write, sized]

theorem reads_byte
    (value : UInt8) :
    Reads context.byte [value] value :=
  reads_operand rfl

theorem reads_signedByte
    (value : Int8) :
    Reads context.signedByte (write value) value :=
  reads_operand rfl

theorem reads_short
    (value : UInt16) :
    Reads context.short (write value) value :=
  reads_operand rfl

theorem reads_signedShort
    (value : Int16) :
    Reads context.signedShort (write value) value :=
  reads_operand rfl

theorem reads_signedWord
    (value : Int32) :
    Reads context.signedWord (write value) value :=
  reads_operand rfl

theorem reads_timesFrom
    {reader : CodeReader α}
    {chunks : List Bytes}
    {values : List α}
    (reads : List.Forall₂ (Reads reader) chunks values)
    (before : List α) :
    Reads (timesFrom reader values.length before) chunks.flatten (values.reverse ++ before) := by
  induction reads generalizing before with
  | nil =>
      intro offset rest
      rfl
  | @cons chunk value chunks values readsFirst _ inductionHypothesis =>
      intro offset rest
      rw [List.flatten_cons, List.append_assoc, List.length_cons]
      simp only [timesFrom, readsFirst offset (chunks.flatten ++ rest)]
      rw [inductionHypothesis (value :: before) (offset + chunk.length) rest,
        List.reverse_cons, List.append_assoc, List.length_append, Nat.add_assoc]
      rfl

theorem reads_times
    {reader : CodeReader α}
    {chunks : List Bytes}
    {values : List α}
    (reads : List.Forall₂ (Reads reader) chunks values) :
    Reads (times values.length reader) chunks.flatten values := by
  apply (reads_timesFrom reads []).last
  rw [List.append_nil, List.reverse_reverse]
  exact reads_pure values

theorem reads_padding :
    Reads context.padding (paddingBytes context.start) () := by
  have zeros : ∀ count, List.Forall₂ (Reads context.byte) (List.replicate count [0])
      (List.replicate count 0) := by
    intro count
    induction count with
    | zero => exact .nil
    | succ count inductionHypothesis => exact .cons (reads_byte 0) inductionHypothesis
  have taken := reads_times (zeros (switchPadding context.start))
  rw [List.length_replicate] at taken
  have flat : (List.replicate (switchPadding context.start) [(0 : UInt8)]).flatten =
      paddingBytes context.start := by
    rw [paddingBytes]
    induction switchPadding context.start with
    | zero => rfl
    | succ count inductionHypothesis =>
        rw [List.replicate_succ, List.flatten_cons, inductionHypothesis]
        rfl
  rw [flat] at taken
  exact taken.last (reads_pure ())

end Operands

/-! ## Jump targets -/

theorem target_eq_ok
    {target : Nat}
    (inside : target < context.codeLength) :
    context.target ((target : Int) - context.start) = .ok target := by
  have absolute : (context.start : Int) + ((target : Int) - context.start) = target := by omega
  have isInside : (decide ((target : Int) < 0) || decide ((context.codeLength : Int) ≤ target)) =
      false := by
    rw [Bool.or_eq_false_iff, decide_eq_false_iff_not, decide_eq_false_iff_not]
    omega
  unfold InstructionContext.target
  dsimp only
  rw [absolute, isInside]
  rfl

/-- A jump over a distance that fits sixteen bits. -/
theorem reads_shortTarget
    {target : Nat}
    (inside : target < context.codeLength)
    (near : fitsShort ((target : Int) - context.start) = true) :
    Reads context.shortTarget (write (Int16.ofInt ((target : Int) - context.start))) target := by
  apply (reads_signedShort _).last
  apply reads_lift
  rw [fitsShort, Bool.and_eq_true, decide_eq_true_iff, decide_eq_true_iff] at near
  rw [Int16.toInt_ofInt_of_le (by omega) (by omega)]
  exact target_eq_ok inside

/-- Any jump inside of code that is not too long. -/
theorem reads_wideTarget
    {target : Nat}
    (inside : target < context.codeLength)
    (starts : context.start ≤ context.codeLength)
    (notLong : context.codeLength ≤ maxCodeLength) :
    Reads context.wideTarget (write (Int32.ofInt ((target : Int) - context.start))) target := by
  have limit : maxCodeLength = 65535 := rfl
  apply (reads_signedWord _).last
  apply reads_lift
  rw [Int32.toInt_ofInt_of_le (by omega) (by omega)]
  exact target_eq_ok inside

/-! ## Opcodes -/

theorem reads_instruction
    {opcode : UInt8}
    {bytes : Bytes}
    {instruction : Instruction Nat}
    (reads : Reads (context.afterOpcode opcode) bytes instruction) :
    Reads context.instruction (opcode :: bytes) instruction :=
  (reads_byte opcode).bind reads

/-- The opcode belongs to no family of opcodes. -/
def isSingle (opcode : UInt8) : Bool :=
  (shortConstant? opcode : Option (Instruction Nat)).isNone && (localAccess? opcode).isNone &&
    !(0x15 ≤ opcode && opcode ≤ 0x19) && !(0x36 ≤ opcode && opcode ≤ 0x3a) &&
    (Condition.ofOpcode? opcode).isNone && (Operation.ofOpcode? opcode).isNone

theorem reads_single
    {opcode : UInt8}
    (single : isSingle opcode = true)
    {bytes : Bytes}
    {instruction : Instruction Nat}
    (reads : Reads (context.single opcode) bytes instruction) :
    Reads context.instruction (opcode :: bytes) instruction := by
  apply reads_instruction
  unfold isSingle at single
  simp only [Bool.and_eq_true, Option.isNone_iff_eq_none, Bool.not_eq_true'] at single
  obtain ⟨⟨⟨⟨⟨noConstant, noAccess⟩, noLoad⟩, noStore⟩, noCondition⟩, noOperation⟩ := single
  unfold afterOpcode
  rw [noConstant, noAccess]
  simp only [noLoad, noStore, noCondition, noOperation]
  exact reads

end InstructionContext

end ClosureConversion
