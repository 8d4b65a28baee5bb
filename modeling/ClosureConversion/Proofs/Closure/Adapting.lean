import Mathlib.Data.Int.ModEq
import ClosureConversion.Closure.Adaptation
import ClosureConversion.Flow.Execution
import ClosureConversion.Proofs.Running.Activation

/-!
Contract: what the code does that turns a value into one of another type.

Owns:
- the frame after instructions that are executed in order, and which values code takes from the top
  of the operand stack and leaves there, in every frame;
- the code for any two types can be executed wherever a value of the first one is on top, leaves one
  that fits the second one, and touches nothing else;
- between integers, the code keeps as many of the lowest bits as the second type has.

Does not own: where values of other types are needed, and conversions of numbers with a fraction.
-/

namespace ClosureConversion

/-! ## Frames along code without jumps -/

/-- The frame after instructions that stand in the code of a method from an index on. -/
def Frame.executeAll (frame : Frame) (owner : BinaryName) (method : Array (Instruction Nat))
    (index : Nat) : List (Instruction Nat) → Except FlowError Frame
  | [] => .ok frame
  | instruction :: rest => do
      let next ← frame.execute owner method index instruction
      next.executeAll owner method (index + 1) rest

theorem Frame.executeAll_append
    {frame middle : Frame}
    {owner : BinaryName}
    {method : Array (Instruction Nat)}
    {index : Nat}
    {first second : List (Instruction Nat)}
    (executed : frame.executeAll owner method index first = .ok middle) :
    frame.executeAll owner method index (first ++ second) =
      middle.executeAll owner method (index + first.length) second := by
  induction first generalizing frame index with
  | nil =>
      cases executed
      rfl
  | cons instruction first inductionHypothesis =>
      obtain ⟨next, isNext, executed⟩ := bind_eq_ok.mp executed
      rw [List.cons_append, executeAll, isNext, List.length_cons, Nat.add_comm first.length,
        ← Nat.add_assoc]
      exact inductionHypothesis executed

/-- In every frame with some values on top, the code can be executed. Others are there afterwards,
and nothing else has changed. -/
def ReplacesTop (code : List (Instruction Nat)) (before after : OperandStack) : Prop :=
  ∀ owner method index locals rest,
    Frame.executeAll ⟨locals, before ++ rest⟩ owner method index code =
      .ok ⟨locals, after ++ rest⟩

namespace ReplacesTop

variable {first second code : List (Instruction Nat)} {before between after : OperandStack}

theorem nil :
    ReplacesTop [] before before :=
  fun _ _ _ _ _ => rfl

theorem cons
    {instruction : Instruction Nat}
    (executes : ∀ owner method index locals rest,
      Frame.execute ⟨locals, before ++ rest⟩ owner method index instruction =
        .ok ⟨locals, between ++ rest⟩)
    (replaces : ReplacesTop code between after) :
    ReplacesTop (instruction :: code) before after := by
  intro owner method index locals rest
  rw [Frame.executeAll, executes]
  exact replaces owner method (index + 1) locals rest

theorem append
    (replacesFirst : ReplacesTop first before between)
    (replacesSecond : ReplacesTop second between after) :
    ReplacesTop (first ++ second) before after := by
  intro owner method index locals rest
  rw [Frame.executeAll_append (replacesFirst owner method index locals rest)]
  exact replacesSecond owner method (index + first.length) locals rest

end ReplacesTop

/-- What has to be on the operand stack where a value of a type is needed, if any is. -/
inductive IsAdapted (hierarchy : Hierarchy) : Option FieldType → OperandStack → Prop where
  | nothing : IsAdapted hierarchy none []
  | base (type : BaseType) : IsAdapted hierarchy (some (.base type)) [.ofField (.base type)]
  | null (type : RefType) : IsAdapted hierarchy (some (.ref type)) [.null]
  | reference {actual type : RefType} :
      hierarchy.isAssignable actual type = .ok true →
      IsAdapted hierarchy (some (.ref type)) [.object actual]

theorem Hierarchy.isAssignable_self
    (hierarchy : Hierarchy)
    (type : RefType) :
    hierarchy.isAssignable type type = .ok true :=
  if_pos rfl

theorem Hierarchy.isAssignable_root
    (hierarchy : Hierarchy)
    (type : RefType) :
    hierarchy.isAssignable type (.object .object) = .ok true := by
  cases type with
  | object name =>
      unfold isAssignable
      split
      · rfl
      · rfl
  | objectArray nesting name => rfl
  | primitiveArray nesting element => rfl

theorem isAdapted_self
    (hierarchy : Hierarchy)
    (type : FieldType) :
    IsAdapted hierarchy (some type) [.ofField type] := by
  cases type with
  | base type => exact .base type
  | ref type => exact .reference (hierarchy.isAssignable_self type)

/-! ## Conversions between base types -/

theorem ofField_base_eq
    (type : BaseType) :
    (.ofField (.base type) : VType) = type.numericKind.type := by
  cases type <;> rfl

theorem replacesTop_convert
    (conversion : Conversion) :
    ReplacesTop [.op (.convert conversion)] [conversion.source.type] [conversion.target.type] := by
  refine .cons (fun owner method index locals rest => ?_) .nil
  cases conversion <;> rfl

/-- The conversion between two kinds of numbers, if there is one, is from one to the other. -/
theorem Conversion.between?_cases
    (first second : NumericKind) :
    (Conversion.between? first second = none ∧ first = second) ∨
      ∃ conversion, Conversion.between? first second = some conversion ∧
        conversion.source = first ∧ conversion.target = second := by
  cases first <;> cases second <;>
    first
    | exact .inl ⟨rfl, rfl⟩
    | exact .inr ⟨_, rfl, rfl, rfl⟩

theorem Conversion.numericKind_of_narrowing?_eq_some
    {type : BaseType}
    {conversion : Conversion}
    (narrows : Conversion.narrowing? type = some conversion) :
    conversion.source = type.numericKind ∧ conversion.target = type.numericKind := by
  cases type <;> cases narrows <;> exact ⟨rfl, rfl⟩

theorem replacesTop_kinds
    (first second : NumericKind) :
    ReplacesTop ((Conversion.between? first second).toList.map fun conversion =>
      .op (.convert conversion)) [first.type] [second.type] := by
  rcases Conversion.between?_cases first second with
    ⟨isNone, rfl⟩ | ⟨conversion, isSome, rfl, rfl⟩
  · rw [isNone]
    exact .nil
  · rw [isSome]
    exact replacesTop_convert conversion

theorem replacesTop_narrowing
    (source target : BaseType) :
    ReplacesTop
      ((if source = .boolean then none else Conversion.narrowing? target).toList.map
        fun conversion => .op (.convert conversion))
      [target.numericKind.type] [target.numericKind.type] := by
  split
  · exact .nil
  · cases narrowing : Conversion.narrowing? target with
    | none => exact .nil
    | some conversion =>
        obtain ⟨isSource, isTarget⟩ := Conversion.numericKind_of_narrowing?_eq_some narrowing
        have replaces := replacesTop_convert conversion
        rwa [isSource, isTarget] at replaces

theorem replacesTop_adaptBase
    (source target : BaseType) :
    ReplacesTop (adaptBase source target) [.ofField (.base source)]
      [.ofField (.base target)] := by
  unfold adaptBase
  split
  · rename_i same
    subst same
    exact .nil
  · rw [List.map_append, ofField_base_eq, ofField_base_eq]
    exact (replacesTop_kinds source.numericKind target.numericKind).append
      (replacesTop_narrowing source target)

/-! ## Conversions of references -/

theorem replacesTop_boxValue
    (type : BaseType) :
    ReplacesTop [boxValue type] [.ofField (.base type)] [.object (.object type.boxClass)] := by
  refine .cons (fun owner method index locals rest => ?_) .nil
  cases type <;> rfl

theorem replacesTop_unboxValue
    (actual : RefType)
    (type : BaseType) :
    ReplacesTop [unboxValue type] [.object actual] [.ofField (.base type)] :=
  .cons (fun _ _ _ _ _ => rfl) .nil

theorem replacesTop_checkCast
    (actual target : RefType) :
    ReplacesTop [.checkCast target] [.object actual] [.object target] :=
  .cons (fun _ _ _ _ _ => rfl) .nil

theorem replacesTop_dropValue
    (type : FieldType) :
    ReplacesTop [dropValue type] [.ofField type] [] := by
  refine .cons (fun owner method index locals rest => ?_) .nil
  cases type with
  | base type => cases type <;> rfl
  | ref type => rfl

/-- The first value of a variable fits its type. -/
theorem exists_replacesTop_firstValue
    (hierarchy : Hierarchy)
    (type : FieldType) :
    ∃ after, IsAdapted hierarchy (some type) after ∧ ReplacesTop [firstValue type] [] after := by
  cases type with
  | base type =>
      refine ⟨_, .base type, .cons (fun owner method index locals rest => ?_) .nil⟩
      cases type <;> rfl
  | ref type => exact ⟨_, .null type, .cons (fun _ _ _ _ _ => rfl) .nil⟩

theorem exists_replacesTop_adaptToObject
    {hierarchy : Hierarchy}
    {source : BaseType}
    {target : BinaryName}
    {code : List (Instruction Nat)}
    (adapted : adaptToObject hierarchy source target = .ok code) :
    ∃ after, IsAdapted hierarchy (some (.object target)) after ∧
      ReplacesTop code [.ofField (.base source)] after := by
  obtain ⟨assignable, isAssignable, adapted⟩ := bind_eq_ok.mp adapted
  split at adapted
  · rename_i isTrue
    cases adapted
    rw [mapError_eq_ok, isTrue] at isAssignable
    exact ⟨_, .reference isAssignable,
      (replacesTop_adaptBase source _).append (replacesTop_boxValue _)⟩
  · cases adapted

theorem replacesTop_adaptFromObject
    (source : BinaryName)
    (target : BaseType) :
    ReplacesTop (adaptFromObject source target) [.object (.object source)]
      [.ofField (.base target)] := by
  unfold adaptFromObject
  split
  · rename_i boxed _
    exact (replacesTop_unboxValue (.object source) boxed).append
      (replacesTop_adaptBase boxed target)
  · exact (replacesTop_checkCast (.object source) (.object target.boxClass)).append
      (replacesTop_unboxValue (.object target.boxClass) target)

theorem exists_replacesTop_adaptReference
    {hierarchy : Hierarchy}
    {source target : RefType}
    {code : List (Instruction Nat)}
    (adapted : adaptReference hierarchy source target = .ok code) :
    ∃ after, IsAdapted hierarchy (some (.ref target)) after ∧
      ReplacesTop code [.object source] after := by
  unfold adaptReference at adapted
  split at adapted
  · rename_i isRoot
    cases adapted
    subst isRoot
    exact ⟨_, .reference (hierarchy.isAssignable_root source), .nil⟩
  · obtain ⟨assignable, isAssignable, adapted⟩ := bind_eq_ok.mp adapted
    cases adapted
    rw [mapError_eq_ok] at isAssignable
    cases assignable with
    | true => exact ⟨_, .reference isAssignable, .nil⟩
    | false =>
        exact ⟨_, .reference (hierarchy.isAssignable_self target),
          replacesTop_checkCast source target⟩

/-- The code for any two types leaves what is needed in place of what it finds. -/
theorem exists_replacesTop_of_adapt_eq_ok
    {hierarchy : Hierarchy}
    {source target : Option FieldType}
    {code : List (Instruction Nat)}
    (adapted : adapt hierarchy source target = .ok code) :
    ∃ after, IsAdapted hierarchy target after ∧
      ReplacesTop code (source.toList.map .ofField) after := by
  cases source with
  | none =>
      cases target with
      | none =>
          cases adapted
          exact ⟨[], .nothing, .nil⟩
      | some target =>
          cases adapted
          exact exists_replacesTop_firstValue hierarchy target
  | some source =>
      cases target with
      | none =>
          cases adapted
          exact ⟨[], .nothing, replacesTop_dropValue source⟩
      | some target =>
          change adaptValue hierarchy source target = .ok code at adapted
          unfold adaptValue at adapted
          split at adapted
          · rename_i same
            cases adapted
            subst same
            exact ⟨_, isAdapted_self hierarchy source, .nil⟩
          · split at adapted
            · rename_i sourceType targetType _
              cases adapted
              exact ⟨_, .base targetType, replacesTop_adaptBase sourceType targetType⟩
            · exact exists_replacesTop_adaptToObject adapted
            · rename_i className targetType _
              cases adapted
              exact ⟨_, .base targetType, replacesTop_adaptFromObject className targetType⟩
            · exact exists_replacesTop_adaptReference adapted
            · cases adapted

/-! ## Integers -/

/-- The integers that a type has: how many bits they take, and which is the lowest one. -/
structure IntegerRange where
  bits : Nat
  lowest : Int
deriving DecidableEq, Repr

namespace IntegerRange

/-- A number is one of as many as the bits can tell apart, from the lowest one on. -/
structure Contains (range : IntegerRange) (number : Int) : Prop where
  fromLowest : range.lowest ≤ number
  below : number < range.lowest + 2 ^ range.bits

/-- The number of a range that has the same lowest bits as another number. -/
structure Keeps (range : IntegerRange) (number result : Int) : Prop where
  contains : range.Contains result
  congruent : result ≡ number [ZMOD 2 ^ range.bits]

variable {range narrower : IntegerRange} {number between result : Int}

theorem Contains.keeps
    (contains : range.Contains number) :
    range.Keeps number number :=
  ⟨contains, rfl⟩

theorem Keeps.trans
    (keepsFirst : range.Keeps number between)
    (fewer : narrower.bits ≤ range.bits)
    (keepsSecond : narrower.Keeps between result) :
    narrower.Keeps number result where
  contains := keepsSecond.contains
  congruent := keepsSecond.congruent.trans
    (keepsFirst.congruent.of_dvd (pow_dvd_pow 2 fewer))

/-- In a range with as many numbers below zero as from zero on. -/
theorem keeps_bmod
    (number : Int)
    (count : Nat) :
    Keeps ⟨count + 1, -2 ^ count⟩ number (number.bmod (2 ^ (count + 1))) := by
  have positive : 0 < 2 ^ (count + 1) := Nat.two_pow_pos _
  have lower := Int.le_bmod (x := number) positive
  have upper := Int.bmod_lt (x := number) positive
  have double : (2 : Int) ^ (count + 1) = 2 * 2 ^ count := by rw [pow_succ, mul_comm]
  push_cast at lower upper
  refine ⟨⟨?_, ?_⟩, ?_⟩
  · dsimp only
    omega
  · dsimp only
    omega
  · have sameBits := Int.bmod_emod (x := number) (m := 2 ^ (count + 1))
    push_cast at sameBits
    exact sameBits

end IntegerRange

/-- The integers of a type. -/
def BaseType.integers? : BaseType → Option IntegerRange
  | .byte => some ⟨8, -2 ^ 7⟩
  | .char => some ⟨16, 0⟩
  | .short => some ⟨16, -2 ^ 15⟩
  | .int => some ⟨32, -2 ^ 31⟩
  | .long => some ⟨64, -2 ^ 63⟩
  | _ => none

/-- An integer as a value of a type. -/
def Value.ofInteger (type : BaseType) (number : Int) : Value :=
  if type = .long then .long (Int64.ofInt number) else .int (Int32.ofInt number)

/-- The lowest 16 bits of an integer as one without a sign. -/
theorem toInt_truncated (value : Int32) :
    value.toUInt32.toUInt16.toUInt32.toInt32.toInt = value.toInt % 2 ^ 16 := by
  have bits : value.toUInt32.toUInt16.toUInt32.toInt32.toBitVec =
      (value.toBitVec.setWidth 16).setWidth 32 := rfl
  have isInt : value.toInt = (value.toBitVec.toNat : Int).bmod (2 ^ 32) :=
    BitVec.toInt_eq_toNat_bmod _
  rw [← Int32.toInt_toBitVec, bits, BitVec.toInt_setWidth, BitVec.toNat_setWidth, isInt]
  have := value.toBitVec.isLt
  rw [Int.bmod_def, Int.bmod_def]
  omega

/-- The numbers that narrowing gives. -/
theorem exists_keeps_convert?
    {type : BaseType}
    {conversion : Conversion}
    {range : IntegerRange}
    (narrows : Conversion.narrowing? type = some conversion)
    (isRange : type.integers? = some range)
    {number : Int}
    (contained : IntegerRange.Contains ⟨32, -2 ^ 31⟩ number) :
    ∃ result, range.Keeps number result ∧
      (Value.int (Int32.ofInt number)).convert? conversion =
        some (.int (Int32.ofInt result)) := by
  have isNumber : (Int32.ofInt number).toInt = number := by
    obtain ⟨fromLowest, below⟩ := contained
    rw [Int32.toInt_ofInt]
    exact Int.bmod_eq_of_le (by simpa using fromLowest) (by simpa using below)
  suffices narrowed : ∃ narrow : Int32, range.Keeps number narrow.toInt ∧
      (Value.int (Int32.ofInt number)).convert? conversion = some (.int narrow) by
    obtain ⟨narrow, keeps, converted⟩ := narrowed
    exact ⟨narrow.toInt, keeps, by rw [converted, Int32.ofInt_toInt]⟩
  cases type with
  | byte =>
      cases narrows
      cases isRange
      refine ⟨_, ?_, rfl⟩
      rw [Int8.toInt_toInt32, Int32.toInt_toInt8, isNumber]
      exact IntegerRange.keeps_bmod number 7
  | short =>
      cases narrows
      cases isRange
      refine ⟨_, ?_, rfl⟩
      rw [Int16.toInt_toInt32, Int32.toInt_toInt16, isNumber]
      exact IntegerRange.keeps_bmod number 15
  | char =>
      cases narrows
      cases isRange
      refine ⟨_, ?_, rfl⟩
      rw [toInt_truncated, isNumber]
      exact ⟨⟨Int.emod_nonneg _ (by decide), Int.emod_lt_of_pos _ (by decide)⟩,
        Int.mod_modEq number (2 ^ 16)⟩
  | _ => cases narrows

/-- The integers of a type that is not the widest one are also those of `int`. -/
theorem isInt_of_integers?_eq_some
    {type : BaseType}
    {range : IntegerRange}
    (isRange : type.integers? = some range)
    (notLong : type ≠ .long) :
    type.numericKind = .int ∧ type ≠ .boolean ∧
      ∀ number, range.Contains number → IntegerRange.Contains ⟨32, -2 ^ 31⟩ number := by
  cases type with
  | long => exact absurd rfl notLong
  | byte | char | short | int =>
      cases isRange
      refine ⟨rfl, nofun, fun number contained => ?_⟩
      obtain ⟨fromLowest, below⟩ := contained
      dsimp only at fromLowest below
      constructor <;> dsimp only <;> omega
  | float | double | boolean => cases isRange

theorem run_narrowing
    {source target : BaseType}
    {range : IntegerRange}
    (notBoolean : source ≠ .boolean)
    (isRange : target.integers? = some range)
    (notLong : target ≠ .long)
    {number : Int}
    (contained : IntegerRange.Contains ⟨32, -2 ^ 31⟩ number) :
    ∃ result, range.Keeps number result ∧ ∀ (runtime : Runtime) (activation : Activation),
      (activation.push (.int (Int32.ofInt number))).run runtime
        ((if source = .boolean then none else Conversion.narrowing? target).toList.map
          fun conversion => .op (.convert conversion)) =
        some (activation.push (.int (Int32.ofInt result))) := by
  rw [if_neg notBoolean]
  cases narrows : Conversion.narrowing? target with
  | none =>
      have isInt : range = ⟨32, -2 ^ 31⟩ := by
        cases target with
        | int => exact (Option.some.inj isRange).symm
        | long => exact absurd rfl notLong
        | byte | char | short => cases narrows
        | float | double | boolean => cases isRange
      subst isInt
      exact ⟨number, contained.keeps, fun _ _ => rfl⟩
  | some conversion =>
      obtain ⟨result, keeps, converted⟩ := exists_keeps_convert? narrows isRange contained
      refine ⟨result, keeps, fun runtime activation => ?_⟩
      simp only [Option.toList_some, List.map_cons, List.map_nil, Activation.run_cons,
        Activation.step_convert, converted, Option.map_some, Option.bind_some, Activation.run_nil]

/-- The code for two integer types turns a number into one that keeps its lowest bits. -/
def KeepsBits (source target : BaseType) (range : IntegerRange) (number : Int) : Prop :=
  ∃ result, range.Keeps number result ∧ ∀ (runtime : Runtime) (activation : Activation),
    (activation.push (.ofInteger source number)).run runtime (adaptBase source target) =
      some (activation.push (.ofInteger target result))

section Kinds

variable {source target : BaseType} {first last : IntegerRange} {number : Int}

/-- Of a `long` the lower half is narrowed. -/
theorem keepsBits_fromLong
    (isLast : target.integers? = some last)
    (notLong : target ≠ .long)
    (number : Int) :
    KeepsBits .long target last number := by
  have keepsHalf := IntegerRange.keeps_bmod number 31
  obtain ⟨kind, -, -⟩ := isInt_of_integers?_eq_some isLast notLong
  obtain ⟨result, keeps, runs⟩ := run_narrowing (by decide : BaseType.long ≠ .boolean) isLast
    notLong keepsHalf.contains
  have fewer : last.bits ≤ 32 := by
    cases target <;> cases isLast <;> first | decide | exact absurd rfl notLong
  have halved : (Int64.ofInt number).toInt32 = Int32.ofInt (number.bmod (2 ^ 32)) := by
    rw [Int64.toInt32_ofInt, ← Int32.toInt_inj, Int32.toInt_ofInt, Int32.toInt_ofInt]
    exact Int.bmod_bmod.symm
  refine ⟨result, keepsHalf.trans fewer keeps, fun runtime activation => ?_⟩
  unfold adaptBase Value.ofInteger
  rw [if_neg (Ne.symm notLong), List.map_append, kind, if_pos rfl, if_neg notLong,
    ← runs runtime activation, ← halved]
  rfl

/-- Every other integer is one of a `long` as well. -/
theorem keepsBits_toLong
    (isFirst : source.integers? = some first)
    (notLong : source ≠ .long)
    (contained : first.Contains number) :
    KeepsBits source .long ⟨64, -2 ^ 63⟩ number := by
  obtain ⟨kind, notBoolean, isInt⟩ := isInt_of_integers?_eq_some isFirst notLong
  obtain ⟨fromLowest, below⟩ := isInt number contained
  have widened : (Int32.ofInt number).toInt64 = Int64.ofInt number :=
    Int32.toInt64_ofInt fromLowest (Int.le_of_lt_add_one below)
  refine ⟨number, IntegerRange.Contains.keeps ?_, fun runtime activation => ?_⟩
  · dsimp only at fromLowest below
    constructor <;> dsimp only <;> omega
  · unfold adaptBase Value.ofInteger
    simp only [if_neg notLong, if_neg notBoolean, kind, if_true]
    rw [← widened]
    rfl

/-- Between the other types only narrowing is left to do. -/
theorem keepsBits_ofInts
    (different : source ≠ target)
    (isFirst : source.integers? = some first)
    (notLong : source ≠ .long)
    (isLast : target.integers? = some last)
    (targetNotLong : target ≠ .long)
    (contained : first.Contains number) :
    KeepsBits source target last number := by
  obtain ⟨kind, notBoolean, isInt⟩ := isInt_of_integers?_eq_some isFirst notLong
  obtain ⟨targetKind, -, -⟩ := isInt_of_integers?_eq_some isLast targetNotLong
  obtain ⟨result, keeps, runs⟩ :=
    run_narrowing notBoolean isLast targetNotLong (isInt number contained)
  refine ⟨result, keeps, fun runtime activation => ?_⟩
  unfold adaptBase Value.ofInteger
  rw [if_neg different, List.map_append, kind, targetKind, if_neg notLong, if_neg targetNotLong]
  exact runs runtime activation

/-- Between integers, the code keeps the lowest bits. -/
theorem keepsBits_adaptBase
    (isFirst : source.integers? = some first)
    (isLast : target.integers? = some last)
    (contained : first.Contains number) :
    KeepsBits source target last number := by
  by_cases same : source = target
  · subst same
    obtain rfl : first = last := Option.some.inj (isFirst.symm.trans isLast)
    refine ⟨number, contained.keeps, fun runtime activation => ?_⟩
    rw [adaptBase, if_pos rfl, Activation.run_nil]
  · by_cases isLong : source = .long
    · subst isLong
      exact keepsBits_fromLong isLast (Ne.symm same) number
    · by_cases targetLong : target = .long
      · subst targetLong
        cases isLast
        exact keepsBits_toLong isFirst isLong contained
      · exact keepsBits_ofInts same isFirst isLong isLast targetLong contained

end Kinds

/-! ## Any two types -/

/-- The code turns what is on the operand stack for one type into what is needed for another one,
and integers into those with the same lowest bits. No type means no value. -/
structure AdaptsTop (hierarchy : Hierarchy) (source target : Option FieldType)
    (code : List (Instruction Nat)) : Prop where
  replaces : ∃ after, IsAdapted hierarchy target after ∧
    ReplacesTop code (source.toList.map .ofField) after
  integers : ∀ sourceBase targetBase sourceRange targetRange number,
    source = some (.base sourceBase) → target = some (.base targetBase) →
    sourceBase.integers? = some sourceRange → targetBase.integers? = some targetRange →
    sourceRange.Contains number →
    ∃ result, targetRange.Keeps number result ∧
      ∀ (runtime : Runtime) (activation : Activation),
        (activation.push (.ofInteger sourceBase number)).run runtime code =
          some (activation.push (.ofInteger targetBase result))

theorem adaptsTop_of_adapt_eq_ok
    {hierarchy : Hierarchy}
    {source target : Option FieldType}
    {code : List (Instruction Nat)}
    (adapted : adapt hierarchy source target = .ok code) :
    AdaptsTop hierarchy source target code where
  replaces := exists_replacesTop_of_adapt_eq_ok adapted
  integers := by
    rintro sourceBase targetBase sourceRange targetRange number rfl rfl isSource isTarget contained
    have isCode : code = adaptBase sourceBase targetBase := by
      change adaptValue hierarchy (.base sourceBase) (.base targetBase) = .ok code at adapted
      unfold adaptValue at adapted
      split at adapted
      · rename_i same
        cases adapted
        cases same
        exact (if_pos rfl).symm
      · cases adapted
        rfl
    rw [isCode]
    exact keepsBits_adaptBase isSource isTarget contained

/-- A long becomes a character in two steps, whatever classes there are. -/
theorem adaptsTop_longToChar :
    adapt .core (some .long) (some .char) =
        .ok ([.op (.convert .longToInt), .op (.convert .intToChar)] : List (Instruction Nat)) ∧
      AdaptsTop .core (some .long) (some .char)
        [.op (.convert .longToInt), .op (.convert .intToChar)] :=
  ⟨rfl, adaptsTop_of_adapt_eq_ok rfl⟩

end ClosureConversion
