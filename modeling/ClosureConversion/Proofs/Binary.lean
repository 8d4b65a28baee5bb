import Mathlib.Algebra.Group.Nat.Defs
import ClosureConversion.Binary
import ClosureConversion.Proofs.Computation

/-!
Contract: what is written is read back.

Owns:
- the law of a binary form: reading takes off exactly what writing put there, whatever
  follows it;
- readers that take exactly given bytes, and how they are put together;
- the law for fixed-width numbers and pairs, and for lists whose length can be written;
- the converse law, for fixed-width numbers: reading a value takes off what is written for it.

Does not own: the law for the parts of a class file.
-/

namespace ClosureConversion

/-- The types whose values are read back from what was written. -/
class LawfulBinary (α : Type) [Binary α] : Prop where
  read_write : ∀ (value : α) (rest : Bytes),
    (read : Reader α) (write value ++ rest) = .ok (value, rest)

export LawfulBinary (read_write)

/-! ## Numbers -/

/-- A number is made of its two halves. -/
theorem or_halves
    {width number : Nat}
    (small : number < 2 ^ (width + width)) :
    (number >>> width % 2 ^ width) <<< width % 2 ^ (width + width) ||| number % 2 ^ width =
      number := by
  have high : number / 2 ^ width < 2 ^ width := by
    rw [Nat.pow_add] at small
    exact Nat.div_lt_of_lt_mul small
  have whole : number / 2 ^ width * 2 ^ width < 2 ^ (width + width) :=
    Nat.lt_of_le_of_lt (Nat.div_mul_le_self number (2 ^ width)) small
  rw [Nat.shiftRight_eq_div_pow, Nat.mod_eq_of_lt high, Nat.shiftLeft_eq, Nat.mod_eq_of_lt whole,
    ← Nat.shiftLeft_eq, ← Nat.shiftLeft_add_eq_or_of_lt (Nat.mod_lt _ (Nat.two_pow_pos width)),
    Nat.shiftLeft_eq]
  exact Nat.div_add_mod' number (2 ^ width)

instance : LawfulBinary UInt8 where
  read_write _ _ := rfl

instance : LawfulBinary UInt16 where
  read_write number rest := by
    have joined : (number >>> 8).toUInt8.toUInt16 <<< 8 ||| number.toUInt8.toUInt16 = number := by
      apply UInt16.toNat_inj.mp
      simpa using or_halves (show number.toNat < 2 ^ (8 + 8) from number.toNat_lt)
    exact congrArg (fun value => Except.ok (value, rest)) joined

/-- A pair is read back if its two parts are. -/
theorem read_bind_write
    {α β γ : Type}
    [Binary α]
    [LawfulBinary α]
    [Binary β]
    [LawfulBinary β]
    (join : α → β → γ)
    (first : α)
    (second : β)
    (rest : Bytes) :
    (do let first ← read; let second ← read; return join first second : Reader γ)
      (write first ++ write second ++ rest) = .ok (join first second, rest) := by
  rw [List.append_assoc, read_bind_of_eq_ok (read_write first _),
    read_bind_of_eq_ok (read_write second rest)]
  rfl

instance : LawfulBinary UInt32 where
  read_write number rest := by
    have joined : (number >>> 16).toUInt16.toUInt32 <<< 16 ||| number.toUInt16.toUInt32 =
        number := by
      apply UInt32.toNat_inj.mp
      simpa using or_halves (show number.toNat < 2 ^ (16 + 16) from number.toNat_lt)
    have readBack := read_bind_write (fun (high low : UInt16) =>
      high.toUInt32 <<< 16 ||| low.toUInt32) (number >>> 16).toUInt16 number.toUInt16 rest
    rw [joined] at readBack
    exact readBack

instance : LawfulBinary UInt64 where
  read_write number rest := by
    have joined : (number >>> 32).toUInt32.toUInt64 <<< 32 ||| number.toUInt32.toUInt64 =
        number := by
      apply UInt64.toNat_inj.mp
      simpa using or_halves (show number.toNat < 2 ^ (32 + 32) from number.toNat_lt)
    have readBack := read_bind_write (fun (high low : UInt32) =>
      high.toUInt64 <<< 32 ||| low.toUInt64) (number >>> 32).toUInt32 number.toUInt32 rest
    rw [joined] at readBack
    exact readBack

/-- Values in another type's form are read back if that type's values are. -/
theorem read_map_write
    {α β : Type}
    [Binary α]
    [LawfulBinary α]
    (convert : α → β)
    (value : α)
    (rest : Bytes) :
    (do let bits ← read; return convert bits : Reader β) (write value ++ rest) =
      .ok (convert value, rest) := by
  rw [read_bind_of_eq_ok (read_write value rest)]
  rfl

instance : LawfulBinary Int8 where
  read_write number rest := read_map_write UInt8.toInt8 number.toUInt8 rest

instance : LawfulBinary Int16 where
  read_write number rest := read_map_write UInt16.toInt16 number.toUInt16 rest

instance : LawfulBinary Int32 where
  read_write number rest := read_map_write UInt32.toInt32 number.toUInt32 rest

instance : LawfulBinary Int64 where
  read_write number rest := read_map_write UInt64.toInt64 number.toUInt64 rest

/-! ## Pairs and lists -/

instance {α β : Type} [Binary α] [Binary β] [LawfulBinary α] [LawfulBinary β] :
    LawfulBinary (α × β) where
  read_write pair rest := read_bind_write Prod.mk pair.1 pair.2 rest

/-- A reading that succeeds is followed by the conversion of its value. -/
theorem read_map_of_eq_ok
    {α β : Type}
    {first : Reader α}
    {before between : Bytes}
    {value : α}
    (taken : first before = .ok (value, between))
    (convert : α → β) :
    (convert <$> first) before = .ok (convert value, between) := by
  rw [map_eq_pure_bind, read_bind_of_eq_ok taken]
  rfl

namespace Reader

section Taking

variable {α β : Type}

/-- Whatever follows them, the reader takes these bytes off and gives this value. -/
def Takes (reader : Reader α) (bytes : Bytes) (value : α) : Prop :=
  ∀ rest, reader (bytes ++ rest) = .ok (value, rest)

theorem takes_pure
    (value : α) :
    Takes (pure value) [] value :=
  fun _ => rfl

theorem takes_write
    [Binary α]
    [LawfulBinary α]
    (value : α) :
    Takes read (write value) value :=
  read_write value

theorem Takes.bind
    {first : Reader α}
    {next : α → Reader β}
    {front back : Bytes}
    {value : α}
    {result : β}
    (takes : Takes first front value)
    (takesNext : Takes (next value) back result) :
    Takes (first >>= next) (front ++ back) result := by
  intro rest
  rw [List.append_assoc, read_bind_of_eq_ok (takes (back ++ rest)), takesNext rest]

/-- A reader that is followed by no other reading. -/
theorem Takes.last
    {first : Reader α}
    {next : α → Reader β}
    {front : Bytes}
    {value : α}
    {result : β}
    (takes : Takes first front value)
    (takesNext : Takes (next value) [] result) :
    Takes (first >>= next) front result := by
  have both := takes.bind takesNext
  rwa [List.append_nil] at both

theorem Takes.map
    {reader : Reader α}
    {bytes : Bytes}
    {value : α}
    (takes : Takes reader bytes value)
    (convert : α → β) :
    Takes (convert <$> reader) bytes (convert value) :=
  fun rest => read_map_of_eq_ok (takes rest) convert

/-- Bytes that hold nothing else are decoded. -/
theorem Takes.decode_eq_ok
    [Binary α]
    {bytes : Bytes}
    {value : α}
    (takes : Takes read bytes value) :
    decode bytes = .ok value := by
  have whole := takes []
  rw [List.append_nil] at whole
  rw [decode, whole]
  rfl

variable {reader : Reader α} {chunks : List Bytes} {values : List α}

theorem takes_timesFrom
    (each : List.Forall₂ (Takes reader) chunks values)
    (before : List α) :
    Takes (timesFrom reader values.length before) chunks.flatten (values.reverse ++ before) := by
  induction each generalizing before with
  | nil => exact fun _ => rfl
  | @cons chunk value chunks values takesFirst _ inductionHypothesis =>
      intro rest
      rw [List.flatten_cons, List.append_assoc, List.length_cons]
      simp only [timesFrom, takesFirst (chunks.flatten ++ rest)]
      rw [inductionHypothesis (value :: before) rest, List.reverse_cons, List.append_assoc]
      rfl

/-- Values are taken off one after another. -/
theorem takes_times
    (each : List.Forall₂ (Takes reader) chunks values) :
    Takes (times values.length reader) chunks.flatten values := by
  apply (takes_timesFrom each []).last
  rw [List.append_nil, List.reverse_reverse]
  exact takes_pure values

/-- A list is how many elements there are, and each of them. -/
theorem takes_list
    [Binary α]
    (each : List.Forall₂ (Takes read) chunks values)
    (few : values.length < 2 ^ 16) :
    Takes read (write values.length.toUInt16 ++ chunks.flatten) values := by
  have count : values.length.toUInt16.toNat = values.length := UInt16.toNat_ofNat_of_lt' few
  apply (takes_write values.length.toUInt16).bind
  rw [count]
  exact takes_times each

end Taking

/-- Values one after another are read back if each of them is. -/
theorem times_append
    {α : Type}
    [Binary α]
    {values : List α}
    (readBack : ∀ value ∈ values, ∀ rest, read (write value ++ rest) = .ok (value, rest))
    (rest : Bytes) :
    times values.length read (values.flatMap write ++ rest) = .ok (values, rest) :=
  takes_times (List.forall₂_map_left_iff.mpr (List.forall₂_same.mpr readBack)) rest

end Reader

/-- A list is read back if its elements are and its length can be written. -/
theorem read_write_list
    {α : Type}
    [Binary α]
    {values : List α}
    (readBack : ∀ value ∈ values, ∀ rest, read (write value ++ rest) = .ok (value, rest))
    (short : values.length < 2 ^ 16)
    (rest : Bytes) :
    (read : Reader (List α)) (write values ++ rest) = .ok (values, rest) :=
  Reader.takes_list (List.forall₂_map_left_iff.mpr (List.forall₂_same.mpr readBack)) short rest

/-! ## Reading what was written only -/

/-- The two halves of a number are found in it again. -/
theorem halves_or
    (width : Nat)
    {high low : Nat}
    (highSmall : high < 2 ^ width)
    (lowSmall : low < 2 ^ width) :
    (high <<< width % 2 ^ (width + width) ||| low) >>> width % 2 ^ width = high ∧
      high <<< width % 2 ^ width ||| low = low := by
  have whole : high <<< width < 2 ^ (width + width) := by
    rw [Nat.shiftLeft_eq, Nat.pow_add]
    exact Nat.mul_lt_mul_of_pos_right highSmall (Nat.two_pow_pos width)
  constructor
  · rw [Nat.mod_eq_of_lt whole, ← Nat.shiftLeft_add_eq_or_of_lt lowSmall, Nat.shiftLeft_eq,
      Nat.shiftRight_eq_div_pow, Nat.mul_comm, Nat.mul_add_div (Nat.two_pow_pos width),
      Nat.div_eq_of_lt lowSmall, Nat.add_zero, Nat.mod_eq_of_lt highSmall]
  · rw [Nat.shiftLeft_eq, Nat.mul_mod_left, Nat.zero_or]

/-- The types whose values are read from nothing but what is written for them. -/
class ExactBinary (α : Type) [Binary α] : Prop where
  eq_write_append : ∀ {bytes rest : Bytes} {value : α},
    (read : Reader α) bytes = .ok (value, rest) → bytes = write value ++ rest

export ExactBinary (eq_write_append)

instance : ExactBinary UInt8 where
  eq_write_append {bytes rest value} isRead := by
    cases bytes with
    | nil => cases isRead
    | cons first bytes =>
        cases isRead
        rfl

/-- A number that is joined from two halves is read from what is written for the halves. -/
theorem eq_write_append_of_halves
    {α β : Type}
    [Binary α]
    [ExactBinary α]
    {join : α → α → β}
    {bytes rest : Bytes}
    {value : β}
    (isRead : (do let high ← read; let low ← read; return join high low : Reader β) bytes =
      .ok (value, rest)) :
    ∃ high low, value = join high low ∧ bytes = write high ++ write low ++ rest := by
  obtain ⟨high, between, isHigh, isRead⟩ := thread_bind_eq_ok.mp isRead
  obtain ⟨low, after, isLow, isRead⟩ := thread_bind_eq_ok.mp isRead
  cases thread_pure_eq_ok.mp isRead
  refine ⟨high, low, rfl, ?_⟩
  rw [eq_write_append isHigh, eq_write_append isLow, List.append_assoc]

instance : ExactBinary UInt16 where
  eq_write_append {bytes rest value} isRead := by
    obtain ⟨high, low, rfl, rfl⟩ := eq_write_append_of_halves (α := UInt8) isRead
    obtain ⟨isHigh, isLow⟩ := halves_or 8 high.toNat_lt low.toNat_lt
    have first : ((high.toUInt16 <<< 8 ||| low.toUInt16) >>> 8).toUInt8 = high := by
      apply UInt8.toNat_inj.mp
      simpa using isHigh
    have second : (high.toUInt16 <<< 8 ||| low.toUInt16).toUInt8 = low := by
      apply UInt8.toNat_inj.mp
      simpa using isLow
    change _ = [((high.toUInt16 <<< 8 ||| low.toUInt16) >>> 8).toUInt8,
      (high.toUInt16 <<< 8 ||| low.toUInt16).toUInt8] ++ rest
    rw [first, second]
    rfl

instance : ExactBinary UInt32 where
  eq_write_append {bytes rest value} isRead := by
    obtain ⟨high, low, rfl, rfl⟩ := eq_write_append_of_halves (α := UInt16) isRead
    obtain ⟨isHigh, isLow⟩ := halves_or 16 high.toNat_lt low.toNat_lt
    have first : ((high.toUInt32 <<< 16 ||| low.toUInt32) >>> 16).toUInt16 = high := by
      apply UInt16.toNat_inj.mp
      simpa using isHigh
    have second : (high.toUInt32 <<< 16 ||| low.toUInt32).toUInt16 = low := by
      apply UInt16.toNat_inj.mp
      simpa using isLow
    change _ = write ((high.toUInt32 <<< 16 ||| low.toUInt32) >>> 16).toUInt16 ++
      write (high.toUInt32 <<< 16 ||| low.toUInt32).toUInt16 ++ rest
    rw [first, second]

instance : ExactBinary UInt64 where
  eq_write_append {bytes rest value} isRead := by
    obtain ⟨high, low, rfl, rfl⟩ := eq_write_append_of_halves (α := UInt32) isRead
    obtain ⟨isHigh, isLow⟩ := halves_or 32 high.toNat_lt low.toNat_lt
    have first : ((high.toUInt64 <<< 32 ||| low.toUInt64) >>> 32).toUInt32 = high := by
      apply UInt32.toNat_inj.mp
      simpa using isHigh
    have second : (high.toUInt64 <<< 32 ||| low.toUInt64).toUInt32 = low := by
      apply UInt32.toNat_inj.mp
      simpa using isLow
    change _ = write ((high.toUInt64 <<< 32 ||| low.toUInt64) >>> 32).toUInt32 ++
      write (high.toUInt64 <<< 32 ||| low.toUInt64).toUInt32 ++ rest
    rw [first, second]

instance : ExactBinary Int8 where
  eq_write_append {bytes rest value} isRead := by
    obtain ⟨bits, between, isBits, isRead⟩ := thread_bind_eq_ok.mp isRead
    cases thread_pure_eq_ok.mp isRead
    exact eq_write_append (α := UInt8) isBits

instance : ExactBinary Int16 where
  eq_write_append {bytes rest value} isRead := by
    obtain ⟨bits, between, isBits, isRead⟩ := thread_bind_eq_ok.mp isRead
    cases thread_pure_eq_ok.mp isRead
    exact eq_write_append (α := UInt16) isBits

instance : ExactBinary Int32 where
  eq_write_append {bytes rest value} isRead := by
    obtain ⟨bits, between, isBits, isRead⟩ := thread_bind_eq_ok.mp isRead
    cases thread_pure_eq_ok.mp isRead
    exact eq_write_append (α := UInt32) isBits

instance : ExactBinary Int64 where
  eq_write_append {bytes rest value} isRead := by
    obtain ⟨bits, between, isBits, isRead⟩ := thread_bind_eq_ok.mp isRead
    cases thread_pure_eq_ok.mp isRead
    exact eq_write_append (α := UInt64) isBits

end ClosureConversion
