import ClosureConversion.Closure.ClosureClass
import ClosureConversion.Proofs.Closure.Construction
import ClosureConversion.Proofs.Closure.Distinctness
import ClosureConversion.Proofs.Flow.Worklist
import ClosureConversion.Proofs.Running.Activation
import ClosureConversion.Proofs.StackMap.Assembly

/-!
Contract: a closure that is made holds what it captures.

Owns:
- calls, and where a called method finds its arguments;
- what the constructor of the class of a closure does to the fields of the object;
- the code that makes a closure leaves one that holds every value which was pushed for it.

Does not own: which variables a closure captures, and what its methods do.
-/

namespace ClosureConversion

/-! ## Arguments -/

namespace Value

/-- The second slot of a wide value holds nothing. -/
theorem slotsOf_cons
    {value : Value}
    {type : FieldType}
    (isKind : value.kind = .ofType type)
    (rest : List Value) :
    slotsOf (value :: rest) =
      some value :: (List.replicate (width type - 1) none ++ slotsOf rest) := by
  change _ = some value :: (List.replicate ((if type.isWide then 2 else 1) - 1) none ++ _)
  rw [slotsOf, Machine.isWide_eq_of_kind isKind]
  cases type.isWide <;> rfl

theorem width_pos
    (type : FieldType) :
    0 < width type := by
  change 0 < if type.isWide then 2 else 1
  split <;> decide

theorem length_slotsOf_cons
    {value : Value}
    {type : FieldType}
    (isKind : value.kind = .ofType type)
    (rest : List Value) :
    (slotsOf (value :: rest)).length = width type + (slotsOf rest).length := by
  have positive := width_pos type
  rw [slotsOf_cons isKind, List.length_cons, List.length_append, List.length_replicate]
  omega

theorem length_slotsOf
    {values : List Value}
    {types : List FieldType}
    (kinds : List.Forall₂ (fun value type => value.kind = .ofType type) values types) :
    (slotsOf values).length = totalWidth types := by
  induction kinds with
  | nil => rfl
  | @cons value type values types isKind _ inductionHypothesis =>
      rw [length_slotsOf_cons isKind, inductionHypothesis]
      rfl

/-- The slots of the next value come after those of the first one. -/
theorem getElem?_slotsOf_cons
    {value : Value}
    {type : FieldType}
    (isKind : value.kind = .ofType type)
    (rest : List Value)
    (position : Nat) :
    (slotsOf (value :: rest))[width type + position]? = (slotsOf rest)[position]? := by
  have positive := width_pos type
  have isNext : width type + position = width type - 1 + position + 1 := by omega
  rw [slotsOf_cons isKind, isNext, List.getElem?_cons_succ, List.getElem?_append_right (by simp),
    List.length_replicate, Nat.add_sub_cancel_left]

end Value

namespace Activation

section Calls

variable {runtime : Runtime} {slots : Nat → Option Value} {heap : Heap} {rest : List Value}
  {method : MethodRef} {kind : CallKind}

/-- The receiver of a call is below the arguments, which are in order from there on. -/
theorem step_invoke
    {receiver : Value}
    {arguments : List Value}
    {later : Heap}
    {result : Option Value}
    (called : runtime.call kind method (receiver :: arguments) heap = some (later, result))
    (sameLength : arguments.length = method.type.parameters.length)
    (hasReceiver : kind.hasReceiver = true)
    (notNull : receiver ≠ .null) :
    step runtime ⟨arguments.reverse ++ receiver :: rest, slots, heap⟩ (.invoke kind method) =
      some ⟨result.toList ++ rest, slots, later⟩ := by
  have count : (arguments.reverse ++ [receiver]).length = method.type.parameters.length + 1 := by
    rw [List.length_append, List.length_reverse, sameLength, List.length_singleton]
  have split : arguments.reverse ++ receiver :: rest = arguments.reverse ++ [receiver] ++ rest := by
    rw [List.append_assoc, List.singleton_append]
  unfold step invoke
  simp only [hasReceiver, if_true, split, ← count, List.take_left, List.drop_left]
  simp only [List.length_append, Nat.le_add_right, guard_true, pure_bind, List.reverse_append,
    List.reverse_reverse, List.reverse_singleton, List.singleton_append, List.head?_cons,
    ne_eq, Option.some.injEq, notNull, not_false_eq_true, implies_true, called]
  rfl

/-- A body begins with what its first instructions do, if they do not leave the method. -/
theorem runBody_append
    {activation : Activation}
    {code rest : List (Instruction Nat)}
    (goesOn : ∀ instruction ∈ code, ∀ kind, instruction ≠ .op (.leave kind)) :
    activation.runBody runtime (code ++ rest) =
      (activation.run runtime code).bind fun next => next.runBody runtime rest := by
  induction code generalizing activation with
  | nil => rfl
  | cons instruction code inductionHypothesis =>
      have stepped : activation.runBody runtime (instruction :: (code ++ rest)) =
          (activation.step runtime instruction).bind fun next =>
            next.runBody runtime (code ++ rest) := by
        have isNot := goesOn instruction List.mem_cons_self
        cases instruction with
        | op operation =>
            cases operation with
            | leave kind => exact absurd rfl (isNot kind)
            | _ => rfl
        | _ => rfl
      rw [List.cons_append, stepped, run_cons]
      cases activation.step runtime instruction with
      | none => rfl
      | some next =>
          exact inductionHypothesis fun other member =>
            goesOn other (List.mem_cons_of_mem _ member)

/-- A body that leaves the method at its end does what its code does. -/
theorem runBody_leave
    {activation : Activation}
    {code : List (Instruction Nat)}
    (goesOn : ∀ instruction ∈ code, ∀ kind, instruction ≠ .op (.leave kind)) :
    activation.runBody runtime (code ++ [.op (.leave none)]) =
      (activation.run runtime code).map fun last => (last.heap, none) := by
  rw [runBody_append goesOn]
  cases activation.run runtime code <;> rfl

/-- What code does depends on what its instructions do. -/
theorem runBody_congr
    {runtime other : Runtime}
    {code : List (Instruction Nat)}
    (same : ∀ instruction ∈ code, ∀ activation : Activation,
      activation.step runtime instruction = activation.step other instruction)
    (activation : Activation) :
    activation.runBody runtime code = activation.runBody other code := by
  induction code generalizing activation with
  | nil => rfl
  | cons instruction code inductionHypothesis =>
      have sameRest := inductionHypothesis fun later member =>
        same later (List.mem_cons_of_mem _ member)
      have stepped : (activation.step runtime instruction).bind (·.runBody runtime code) =
          (activation.step other instruction).bind (·.runBody other code) := by
        rw [same instruction List.mem_cons_self]
        exact congrArg _ (funext sameRest)
      cases instruction with
      | op operation =>
          cases operation with
          | leave kind => cases kind <;> rfl
          | _ => exact stepped
      | _ => exact stepped

end Calls

section Fields

variable {runtime : Runtime} {number : Nat} {slots : Nat → Option Value} {heap : Heap}
  {object : Instance} {field : FieldRef} {value : Value} {rest : List Value}

theorem step_putField
    (isObject : heap.objects[number]? = some object)
    (isKind : value.kind = .ofType field.type) :
    step runtime ⟨value :: .object number :: rest, slots, heap⟩ (.field .putField field) =
      some ⟨rest, slots, heap.setField number field value⟩ := by
  simp [step, accessField, isObject, isKind]

theorem step_getField
    (isObject : heap.objects[number]? = some object) :
    step runtime ⟨.object number :: rest, slots, heap⟩ (.field .getField field) =
      some ⟨object.fields field :: rest, slots, heap⟩ := by
  simp [step, accessField, isObject]

/-- A value in a slot is assigned to a field of the receiver. -/
theorem run_storeField
    (runtime : Runtime)
    (rest : List Value)
    (field : FieldRef)
    (slot : UInt16)
    (isReceiver : slots 0 = some (.object number))
    (inSlot : slots slot.toNat = some value)
    (isObject : heap.objects[number]? = some object)
    (isKind : value.kind = .ofType field.type) :
    run runtime ⟨rest, slots, heap⟩
        [.load .reference 0, .load (.ofType field.type) slot, .field .putField field] =
      some ⟨rest, slots, heap.setField number field value⟩ := by
  have loadsReceiver : step runtime ⟨rest, slots, heap⟩ (.load .reference 0) =
      some ⟨.object number :: rest, slots, heap⟩ := step_load isReceiver rfl
  have loadsValue : step runtime ⟨.object number :: rest, slots, heap⟩
      (.load (.ofType field.type) slot) = some ⟨value :: .object number :: rest, slots, heap⟩ :=
    step_load inSlot isKind
  rw [run_cons, loadsReceiver, Option.bind_some, run_cons, loadsValue, Option.bind_some, run_cons,
    step_putField isObject isKind]
  rfl

/-- A field of the receiver is pushed. -/
theorem run_loadField
    (isReceiver : slots 0 = some (.object number))
    (isObject : heap.objects[number]? = some object) :
    run runtime ⟨rest, slots, heap⟩ [.load .reference 0, .field .getField field] =
      some ⟨object.fields field :: rest, slots, heap⟩ := by
  have loadsReceiver : step runtime ⟨rest, slots, heap⟩ (.load .reference 0) =
      some ⟨.object number :: rest, slots, heap⟩ := step_load isReceiver rfl
  rw [run_cons, loadsReceiver, Option.bind_some, run_cons, step_getField isObject]
  rfl

end Fields

/-- Code pushes a value, and does nothing else. -/
def Pushes (runtime : Runtime) (slots : Nat → Option Value) (heap : Heap)
    (code : List (Instruction Nat)) (value : Value) : Prop :=
  ∀ stack, run runtime ⟨stack, slots, heap⟩ code = some ⟨value :: stack, slots, heap⟩

/-- What is pushed last is on top. -/
theorem run_flatten
    {runtime : Runtime}
    {slots : Nat → Option Value}
    {heap : Heap}
    {codes : List (List (Instruction Nat))}
    {values : List Value}
    (pushed : List.Forall₂ (Pushes runtime slots heap) codes values)
    (stack : List Value) :
    run runtime ⟨stack, slots, heap⟩ codes.flatten =
      some ⟨values.reverse ++ stack, slots, heap⟩ := by
  induction pushed generalizing stack with
  | nil => rfl
  | @cons code value codes values pushes _ inductionHypothesis =>
      rw [List.flatten_cons, run_append, pushes, Option.bind_some, inductionHypothesis,
        List.reverse_cons, List.append_assoc, List.singleton_append]

end Activation

theorem Heap.getElem?_setField
    {heap : Heap}
    {number : Nat}
    {object : Instance}
    (isObject : heap.objects[number]? = some object)
    (field : FieldRef)
    (value : Value) :
    (heap.setField number field value).objects[number]? = some { object with
      fields := Function.update object.fields field (value.narrow field.type) } := by
  simp [setField, isObject]

/-! ## The constructor -/

/-- The field of a class that holds a capture. -/
def captureRef (className : BinaryName) (entry : Capture × UnqualifiedName) : FieldRef :=
  ⟨className, entry.2, entry.1.storedType⟩

/-- The object that a constructor leaves of another one: the named fields hold values, the others
hold what they did. -/
structure Instance.Receives (before after : Instance) (className : BinaryName)
    (entries : List (Capture × UnqualifiedName)) (values : List Value) : Prop where
  sameClass : after.className = before.className
  others : ∀ field, field.name ∉ entries.map Prod.snd → after.fields field = before.fields field
  captures : List.Forall₂ (fun entry value => after.fields (captureRef className entry) = value)
    entries values

theorem storeCaptures_cons
    {className : BinaryName}
    {slot : UInt16}
    {entry : Capture × UnqualifiedName}
    {entries : List (Capture × UnqualifiedName)} :
    storeCaptures className slot (entry :: entries) =
      [.load .reference 0, .load (.ofType (captureRef className entry).type) slot,
        .field .putField (captureRef className entry)] ++
      storeCaptures className (slot + (width entry.1.storedType).toUInt16) entries :=
  rfl

theorem eq_of_mem_storeCaptures
    {className : BinaryName}
    {slot : UInt16}
    {entries : List (Capture × UnqualifiedName)}
    {instruction : Instruction Nat}
    (member : instruction ∈ storeCaptures className slot entries) :
    (∃ kind slot, instruction = .load kind slot) ∨
      ∃ field, instruction = .field .putField field := by
  induction entries generalizing slot with
  | nil => cases member
  | cons entry entries inductionHypothesis =>
      rw [storeCaptures_cons] at member
      rcases List.mem_append.mp member with isFirst | isLater
      · simp only [List.mem_cons, List.not_mem_nil, or_false] at isFirst
        rcases isFirst with rfl | rfl | rfl
        · exact .inl ⟨_, _, rfl⟩
        · exact .inl ⟨_, _, rfl⟩
        · exact .inr ⟨_, rfl⟩
      · exact inductionHypothesis isLater

/-- Each argument of the constructor is stored in its field. -/
theorem run_storeCaptures
    (runtime : Runtime)
    (className : BinaryName)
    {number : Nat}
    {slots : Nat → Option Value}
    (isReceiver : slots 0 = some (.object number))
    {entries : List (Capture × UnqualifiedName)}
    {values : List Value}
    (fits : List.Forall₂ (fun entry value => Value.Fits value entry.1.storedType) entries values)
    (apart : (entries.map Prod.snd).Nodup)
    {slot : UInt16}
    (inSlots : ∀ position,
      slots (slot.toNat + position) = (Value.slotsOf values)[position]?.join)
    (room : slot.toNat + (Value.slotsOf values).length < 65536)
    {heap : Heap}
    {object : Instance}
    (isObject : heap.objects[number]? = some object) :
    ∃ later after,
      Activation.run runtime ⟨[], slots, heap⟩ (storeCaptures className slot entries) =
        some ⟨[], slots, later⟩ ∧
      later.objects[number]? = some after ∧ object.Receives after className entries values := by
  induction fits generalizing slot heap object with
  | nil => exact ⟨heap, object, rfl, isObject, rfl, fun _ _ => rfl, .nil⟩
  | @cons entry value entries values valueFits _ inductionHypothesis =>
      obtain ⟨capture, name⟩ := entry
      have isKind : value.kind = .ofType capture.storedType := valueFits.kind
      obtain ⟨isFree, apartRest⟩ := List.nodup_cons.mp apart
      rw [Value.length_slotsOf_cons isKind] at room
      have inSlot : slots slot.toNat = some value := by
        have first := inSlots 0
        rw [Value.slotsOf_cons isKind] at first
        exact first
      have nextSlot : (slot + (width capture.storedType).toUInt16).toNat =
          slot.toNat + width capture.storedType := toNat_nextSlot (by omega)
      obtain ⟨later, after, ran, isAfter, receives⟩ := inductionHypothesis apartRest
        (fun position => by
          rw [nextSlot, Nat.add_assoc, inSlots, Value.getElem?_slotsOf_cons isKind])
        (by omega)
        (Heap.getElem?_setField isObject (captureRef className (capture, name)) value)
      refine ⟨later, after, ?_, isAfter, receives.sameClass, ?_, .cons ?_ receives.captures⟩
      · have stored := Activation.run_storeField runtime []
          (captureRef className (capture, name)) slot isReceiver inSlot isObject isKind
        rw [storeCaptures_cons, Activation.run_append, stored, Option.bind_some]
        exact ran
      · intro field notNamed
        rw [List.map_cons, List.mem_cons, not_or] at notNamed
        rw [receives.others field notNamed.2]
        exact Function.update_of_ne (fun same => notNamed.1 (congrArg FieldRef.name same)) _ _
      · rw [receives.others _ isFree]
        exact (Function.update_self ..).trans valueFits.narrow

/-! ## The class -/

theorem Frame.length_parameterLocals
    (parameters : List FieldType) :
    (parameterLocals parameters).length = totalWidth parameters := by
  induction parameters with
  | nil => rfl
  | cons type parameters inductionHypothesis =>
      change _ = (if type.isWide then 2 else 1) + totalWidth parameters
      rw [parameterLocals, List.flatMap_cons, List.length_append]
      split
      · exact congrArg (2 + ·) inductionHypothesis
      · exact congrArg (1 + ·) inductionHypothesis

/-- A method can be written only if instructions can name the slots with which it begins. -/
theorem Method.localSlots_entryFrame_lt
    {method : Method}
    {hierarchy : Hierarchy}
    {version : Version}
    {before after : ConstantPool}
    {code : CodeAttribute}
    (assembled : method.assemble hierarchy version before = .ok code after) :
    method.entryFrame.localSlots < 65536 := by
  obtain ⟨steps⟩ := exists_steps_of_assemble_eq_ok assembled
  obtain ⟨state, consistent, _, isAnalysis⟩ :=
    isConsistent_of_analyze_eq_ok Frame.mergeOrder_trivial steps.accepted
  have slots := consistent.entrySlots
  have maximum : state.maxLocals = steps.analysis.maxLocals := by rw [← isAnalysis]; rfl
  have few := steps.fewLocals
  unfold localsNeeded at few
  omega

namespace SitePlan

/-- The constructor of the class of the closure of a site. -/
def constructorMethod (self : SitePlan) (super : BinaryName) : Method :=
  .ofBody self.className (.ofBits 0) .init self.constructorType
    (constructorBody self super (fieldNames self.captures.captures))

/-- The captures with the names of their fields. -/
def entries (self : SitePlan) : List (Capture × UnqualifiedName) :=
  self.captures.captures.zip (fieldNames self.captures.captures)

/-- The class of the closure can be used: its constructor can be written, a call of the
constructor runs it, and the constructor of the superclass leaves an object of the class. -/
structure IsLinked (plan : SitePlan) (runtime : Runtime) (super : BinaryName) : Prop where
  written : ∃ hierarchy version before code after,
    (plan.constructorMethod super).assemble hierarchy version before = .ok code after
  runs : ∀ arguments heap, runtime.call .special plan.constructor arguments heap =
    (Activation.entering arguments heap).runBody runtime
      (plan.constructorMethod super).instructions.toList
  initialises : ∀ heap number object, heap.objects[number]? = some object →
    ∃ later after,
      runtime.call .special ⟨.object super, .init, plainType, false⟩ [.object number] heap =
        some (later, none) ∧
      later.objects[number]? = some after ∧ after.className = object.className

/-- An object is a closure that holds values for its captures: code of the class that looks for a
variable finds the field that holds the value of its capture. -/
def Holds (plan : SitePlan) (heap : Heap) (number : Nat) (values : List Value) : Prop :=
  ∃ object, heap.objects[number]? = some object ∧ object.className = plan.className ∧
    ∀ scope : ClosureScope, scope.self = plan →
      scope.fields = fieldNames plan.captures.captures →
      List.Forall₂ (fun capture value => ∃ field,
        scope.captureField capture.key =
          .ok ([.load .reference 0, .field .getField field], capture) ∧
        object.fields field = value)
      plan.captures.captures values

variable {self : SitePlan} {runtime : Runtime} {super : BinaryName}

theorem fst_entries
    (self : SitePlan) :
    self.entries.map Prod.fst = self.captures.captures :=
  List.map_fst_zip (Nat.le_of_eq (length_fieldNamesAfter [] _).symm)

theorem snd_entries
    (self : SitePlan) :
    self.entries.map Prod.snd = fieldNames self.captures.captures :=
  List.map_snd_zip (Nat.le_of_eq (length_fieldNamesAfter [] _))

/-- The constructor can be written only if instructions can name the slots of its arguments. -/
theorem IsLinked.totalWidth_lt
    (linked : self.IsLinked runtime super) :
    1 + totalWidth self.constructorType.parameters < 65536 := by
  obtain ⟨hierarchy, version, before, code, after, assembled⟩ := linked.written
  have isEntry : (self.constructorMethod super).entryFrame.localSlots =
      1 + totalWidth self.constructorType.parameters := by
    have receiver : (self.constructorMethod super).isStatic = false := by
      change (AccessFlags.ofBits 0).contains MethodFlags.accStatic = false
      decide
    rw [Method.entryFrame, Frame.methodEntry, receiver, Frame.localSlots, List.length_append,
      ← Frame.length_parameterLocals]
    congr 1
    split
    · contradiction
    · split <;> rfl
  exact isEntry ▸ Method.localSlots_entryFrame_lt assembled

/-- The constructor calls that of the superclass, stores its arguments, and is done. -/
theorem toList_instructions_constructorMethod
    (self : SitePlan)
    (super : BinaryName) :
    (self.constructorMethod super).instructions.toList =
      [.load .reference 0, .invoke .special ⟨.object super, .init, plainType, false⟩] ++
        storeCaptures self.className 1 self.entries ++ [.op (.leave none)] :=
  rfl

section Constructor

variable {slots : Nat → Option Value} {heap : Heap} {number : Nat} {object : Instance}
  {values : List Value}

theorem IsLinked.run_callSuper
    (linked : self.IsLinked runtime super)
    (isReceiver : slots 0 = some (.object number))
    (isObject : heap.objects[number]? = some object) :
    ∃ later after,
      Activation.run runtime ⟨[], slots, heap⟩
          [.load .reference 0, .invoke .special ⟨.object super, .init, plainType, false⟩] =
        some ⟨[], slots, later⟩ ∧
      later.objects[number]? = some after ∧ after.className = object.className := by
  obtain ⟨later, after, called, isAfter, sameClass⟩ :=
    linked.initialises heap number object isObject
  have loaded : Activation.step runtime ⟨[], slots, heap⟩ (.load .reference 0) =
      some ⟨[.object number], slots, heap⟩ := Activation.step_load isReceiver rfl
  have invoked : Activation.step runtime ⟨[.object number], slots, heap⟩
      (.invoke .special ⟨.object super, .init, plainType, false⟩) = some ⟨[], slots, later⟩ :=
    Activation.step_invoke called rfl rfl Value.noConfusion
  refine ⟨later, after, ?_, isAfter, sameClass⟩
  rw [Activation.run_cons, loaded, Option.bind_some, Activation.run_cons, invoked]
  rfl

/-- The constructor that is called with an object stores its other arguments in the fields. -/
theorem IsLinked.call_constructor
    (linked : self.IsLinked runtime super)
    (isObject : heap.objects[number]? = some object)
    (fits : List.Forall₂ (fun capture value => Value.Fits value capture.storedType)
      self.captures.captures values) :
    ∃ later after,
      runtime.call .special self.constructor (.object number :: values) heap =
        some (later, none) ∧
      later.objects[number]? = some after ∧ after.className = object.className ∧
      List.Forall₂ (fun entry value => after.fields (captureRef self.className entry) = value)
        self.entries values := by
  have fitEntries : List.Forall₂ (fun entry value => Value.Fits value entry.1.storedType)
      self.entries values := by
    rw [← fst_entries, List.forall₂_map_left_iff] at fits
    exact fits
  have length : (Value.slotsOf values).length = totalWidth self.constructorType.parameters :=
    Value.length_slotsOf (List.forall₂_map_right_iff.mpr (fits.flip.imp fun _ _ fits => fits.kind))
  have apart : (self.entries.map Prod.snd).Nodup := by
    rw [snd_entries]
    exact (nodup_fieldNamesAfter [] _).1
  -- The object is in the first slot, and the other arguments are in those after it.
  let slots := (Activation.entering (.object number :: values) heap).slots
  have isReceiver : slots 0 = some (.object number) := rfl
  have inSlots : ∀ position, slots (UInt16.toNat 1 + position) =
      (Value.slotsOf values)[position]?.join := by
    intro position
    rw [Nat.add_comm]
    rfl
  obtain ⟨initialised, plain, ranSuper, isPlain, sameClass⟩ :=
    linked.run_callSuper isReceiver isObject
  obtain ⟨later, after, stored, isAfter, receives⟩ :=
    run_storeCaptures runtime self.className isReceiver fitEntries apart
      inSlots (by rw [length]; exact linked.totalWidth_lt) isPlain
  refine ⟨later, after, ?_, isAfter, receives.sameClass.trans sameClass, receives.captures⟩
  rw [linked.runs, toList_instructions_constructorMethod, Activation.runBody_leave]
  · change Option.map _ (Activation.run runtime ⟨[], slots, heap⟩ _) = _
    rw [Activation.run_append, ranSuper, Option.bind_some, stored]
    rfl
  · intro instruction member kind
    rcases List.mem_append.mp member with isCall | isStore
    · rintro rfl
      simp at isCall
    · rcases eq_of_mem_storeCaptures isStore with ⟨_, _, rfl⟩ | ⟨_, rfl⟩ <;> simp

end Constructor

section Making

variable {slots : Nat → Option Value} {heap : Heap} {values : List Value}

/-- The field of a capture is found by its variable. -/
theorem captureField_eq_ok
    (apart : (self.captures.captures.map Capture.key).Nodup)
    {scope : ClosureScope}
    (isSelf : scope.self = self)
    (areFields : scope.fields = fieldNames self.captures.captures)
    {entry : Capture × UnqualifiedName}
    (member : entry ∈ self.entries) :
    scope.captureField entry.1.key =
      .ok ([.load .reference 0, .field .getField (captureRef self.className entry)], entry.1) := by
  have distinct : (self.entries.map fun entry => entry.1.key).Nodup := by
    rw [← fst_entries, List.map_map] at apart
    exact apart
  obtain ⟨found, isFound⟩ : ∃ found,
      self.entries.find? (fun other => other.1.key = entry.1.key) = some found := by
    rw [← Option.isSome_iff_exists, List.find?_isSome]
    exact ⟨entry, member, decide_eq_true rfl⟩
  have sameKey : found.1.key = entry.1.key := by simpa using List.find?_some isFound
  have isEntry : found = entry :=
    List.inj_on_of_nodup_map distinct (List.mem_of_find?_eq_some isFound) member sameKey
  subst isSelf isEntry
  unfold entries at isFound
  unfold ClosureScope.captureField
  rw [areFields, isFound]
  rfl

/-- Captures of different variables are in different fields. -/
theorem captureRef_injective
    {entry other : Capture × UnqualifiedName}
    (member : entry ∈ self.entries)
    (isOther : other ∈ self.entries)
    (sameName : (captureRef self.className entry).name = (captureRef self.className other).name) :
    entry = other := by
  have distinct : (self.entries.map Prod.snd).Nodup := by
    rw [snd_entries]
    exact (nodup_fieldNamesAfter [] _).1
  exact List.inj_on_of_nodup_map distinct member isOther sameName

/-- The fields of an object hold values if code that looks for the captures finds them there. -/
theorem holds_of_entries
    (apart : (self.captures.captures.map Capture.key).Nodup)
    {number : Nat}
    {object : Instance}
    (isObject : heap.objects[number]? = some object)
    (sameClass : object.className = self.className)
    (inFields : List.Forall₂
      (fun entry value => object.fields (captureRef self.className entry) = value)
      self.entries values) :
    self.Holds heap number values := by
  refine ⟨object, isObject, sameClass, fun scope isSelf areFields => ?_⟩
  rw [← fst_entries, List.forall₂_map_left_iff]
  have found := (List.forall₂_and_left _ _).mpr ⟨fun _ member => member, inFields⟩
  exact found.imp fun entry value ⟨member, inField⟩ =>
    ⟨captureRef self.className entry, captureField_eq_ok apart isSelf areFields member, inField⟩

/-- The code that makes a closure leaves one that holds the values that its parts push. -/
theorem IsLinked.run_construct
    (linked : self.IsLinked runtime super)
    (apart : (self.captures.captures.map Capture.key).Nodup)
    {ε : Type}
    {load : Capture → Except ε (List (Instruction Nat))}
    (pushed : List.Forall₂ (fun capture value => Value.Fits value capture.storedType ∧
        ∃ code, load capture = .ok code ∧
          Activation.Pushes runtime slots (heap.addObject self.className) code value)
      self.captures.captures values) :
    ∃ code later, self.construct load = .ok code ∧
      (∀ stack, Activation.run runtime ⟨stack, slots, heap⟩ code =
        some ⟨.object heap.objects.length :: stack, slots, later⟩) ∧
      self.Holds later heap.objects.length values := by
  have fits := pushed.imp fun _ _ pushes => pushes.1
  obtain ⟨codes, loaded, pushes⟩ :=
    exists_between_of_forall₂ (pushed.imp fun _ _ pushes => pushes.2)
  have isMade : (heap.addObject self.className).objects[heap.objects.length]? =
      some ⟨self.className, fun field => .first field.type⟩ := List.getElem?_concat_length
  obtain ⟨later, after, called, isAfter, sameClass, inFields⟩ :=
    linked.call_constructor isMade fits
  refine ⟨_, later, bind_eq_ok.mpr ⟨codes, mapM_eq_ok_of_forall₂ loaded, rfl⟩, fun stack => ?_,
    holds_of_entries apart isAfter sameClass inFields⟩
  have made : Activation.run runtime ⟨stack, slots, heap⟩
      [.new self.className, .op (.stack .dup)] =
      some ⟨.object heap.objects.length :: .object heap.objects.length :: stack, slots,
        heap.addObject self.className⟩ := rfl
  have sameLength : values.length = self.constructor.type.parameters.length := by
    rw [← fits.length_eq]
    exact (List.length_map _).symm
  rw [Activation.run_append, Activation.run_append, made, Option.bind_some,
    Activation.run_flatten pushes, Option.bind_some, Activation.run_cons,
    Activation.step_invoke called sameLength rfl Value.noConfusion]
  rfl

end Making

/-! ## Loading the class -/

/-- The constructor of the class is called, and no other method does anything. -/
def constructing (self : SitePlan) (super : BinaryName) : Runtime where
  hierarchy := .core
  call := fun _ called arguments heap =>
    if called = self.constructor then
      (Activation.entering arguments heap).runBody ⟨.core, fun _ _ _ heap => some (heap, none)⟩
        (self.constructorMethod super).instructions.toList
    else some (heap, none)

/-- A class whose constructor can be written can be loaded. -/
theorem isLinked_constructing
    (different : self.className ≠ super)
    (written : ∃ hierarchy version before code after,
      (self.constructorMethod super).assemble hierarchy version before = .ok code after) :
    self.IsLinked (self.constructing super) super := by
  have superIsOther :
      (⟨.object super, .init, plainType, false⟩ : MethodRef) ≠ self.constructor := by
    intro same
    cases congrArg MethodRef.owner same
    exact different rfl
  refine ⟨written, fun arguments heap => ?_, fun heap number object isObject => ?_⟩
  · refine (if_pos rfl).trans (Activation.runBody_congr (fun instruction member activation => ?_) _)
    rw [toList_instructions_constructorMethod, List.mem_append, List.mem_append] at member
    rcases member with (isCall | isStore) | isLeave
    · simp only [List.mem_cons, List.not_mem_nil, or_false] at isCall
      rcases isCall with rfl | rfl
      · rfl
      · simp only [Activation.step, Activation.invoke, constructing, if_neg superIsOther]
    · rcases eq_of_mem_storeCaptures isStore with ⟨_, _, rfl⟩ | ⟨_, rfl⟩ <;> rfl
    · rw [List.mem_singleton.mp isLeave]
      rfl
  · exact ⟨heap, object, if_neg superIsOther, isObject, rfl⟩

end SitePlan

end ClosureConversion
