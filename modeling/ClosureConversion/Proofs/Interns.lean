import ClosureConversion.Proofs.Pool

/-!
Contract: work on a pool that interns constants and bootstrap methods and does nothing else.

Owns:
- such work, put together in sequences and along lists;
- that it gives the same again on later pools;
- that references of every kind are interned by it.

Does not own: what the work adds to a pool, or what the constants mean.
-/

namespace ClosureConversion

/-- Work that does nothing to a pool but intern constants and bootstrap methods, one after
another. -/
inductive Interns : {α : Type} → PoolM α → Prop where
  | pure {α : Type} (value : α) : Interns (pure value : PoolM α)
  | bind {α β : Type} {first : PoolM α} {next : α → PoolM β} (isFirst : Interns first)
      (isNext : ∀ value, Interns (next value)) : Interns (first >>= next)
  | constant (constant : Constant) : Interns (ConstantPool.intern constant)
  | bootstrap (entry : BootstrapMethod) : Interns (ConstantPool.internBootstrap entry)

namespace Interns

variable {α β : Type}

theorem map
    {work : PoolM α}
    (interns : Interns work)
    (f : α → β) :
    Interns (f <$> work) := by
  rw [map_eq_pure_bind]
  exact interns.bind fun value => .pure (f value)

theorem mapM
    {work : α → PoolM β}
    (interns : ∀ value, Interns (work value))
    (values : List α) :
    Interns (values.mapM work) := by
  induction values with
  | nil =>
      rw [List.mapM_nil]
      exact .pure []
  | cons value values inductionHypothesis =>
      rw [List.mapM_cons]
      exact (interns value).bind fun result =>
        inductionHypothesis.bind fun results => .pure (result :: results)

/-- What the work gives is given again by every pool that extends the one after it. -/
theorem repeats
    {work : PoolM α}
    (interns : Interns work) :
    Repeats work := by
  induction interns with
  | pure value => exact repeats_pure value
  | bind _ _ firstHypothesis nextHypothesis => exact firstHypothesis.bind nextHypothesis
  | constant constant => exact ConstantPool.repeats_intern constant
  | bootstrap entry => exact ConstantPool.repeats_internBootstrap entry

end Interns

theorem ConstantPool.interns_internNameAndType
    (name descriptor : String) :
    Interns (internNameAndType name descriptor) :=
  (Interns.constant (.utf8 name)).bind fun _ =>
    (Interns.constant (.utf8 descriptor)).bind fun _ => .constant _

open ConstantPool (interns_internNameAndType)

/-! ## References -/

theorem RefType.interns_intern
    (type : RefType) :
    Interns type.intern :=
  (Interns.constant _).bind fun _ => .constant _

theorem FieldRef.interns_intern
    (field : FieldRef) :
    Interns field.intern :=
  (RefType.object field.owner).interns_intern.bind fun _ =>
    (interns_internNameAndType _ _).bind fun _ => .constant _

theorem MethodRef.interns_intern
    (method : MethodRef) :
    Interns method.intern :=
  method.owner.interns_intern.bind fun _ =>
    (interns_internNameAndType _ _).bind fun _ => .constant _

theorem Handle.interns_intern
    (handle : Handle) :
    Interns handle.intern := by
  cases handle with
  | field access member => exact member.interns_intern.bind fun _ => .constant _
  | method use member => exact member.interns_intern.bind fun _ => .constant _

theorem Literal.interns_intern
    (literal : Literal) :
    Interns literal.intern := by
  cases literal with
  | string text => exact (Interns.constant (.utf8 text)).bind fun _ => .constant _
  | class_ type => exact type.interns_intern
  | methodType type => exact (Interns.constant (.utf8 type.descriptor)).bind fun _ => .constant _
  | methodHandle handle => exact handle.interns_intern
  | _ => exact .constant _

theorem DynamicCall.interns_intern
    (call : DynamicCall) :
    Interns call.intern :=
  call.bootstrap.interns_intern.bind fun _ =>
    (Interns.mapM Literal.interns_intern call.arguments).bind fun _ =>
      (Interns.bootstrap _).bind fun _ =>
        (interns_internNameAndType _ _).bind fun _ => .constant _

end ClosureConversion
