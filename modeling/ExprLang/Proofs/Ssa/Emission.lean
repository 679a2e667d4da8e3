import ExprLang.Proofs.Ssa.Request

/-!
# Appending instructions

All commands that append an instruction do the same: they check that the current block is not
terminated, that the operands exist and that the operation fits, and then append it.
-/

namespace ExprLang.Ssa

structure Accepts (builder : Builder) (operation : Operation) (types : List MachineType)
    (label : Label) : Prop where
  current : builder.current = some label
  unfinished : (builder.function.block label).isTerminated = false
  operands : ∀ value ∈ operation.operands, (builder.function.value? value).isSome = true
  fits : operation.Fits builder types

/-- A step of building appends an operation if it is accepted, and is a misuse otherwise. -/
structure Realizes (step : Build α) (operation : Operation)
    (types : Builder → List MachineType) (result : Builder → α) : Prop where
  run : ∀ {builder : Builder} {label : Label},
    Accepts builder operation (types builder) label →
      step.run builder =
        (result builder, builder.withInstruction label operation (types builder))
  inv : ∀ {builder : Builder}, (step.run builder).2.misuse = none →
    builder.misuse = none ∧ ∃ label, Accepts builder operation (types builder) label

namespace Build

theorem emit_realizes {operation : Operation} (types : List MachineType)
    (plain : operation.destinations = [])
    (fits : ∀ builder : Builder, operation.Fits builder types) :
    Realizes (emit operation types) operation (fun _ => types)
      fun builder => builder.nextValues types.length where
  run accepts := by
    rw [emit_run types accepts.current accepts.unfinished accepts.operands,
      Builder.withInstruction, plain]
    rfl
  inv good := by
    obtain ⟨before, label, current, unfinished, operands⟩ := emit_inv good
    exact ⟨before, label, current, unfinished, operands, fits _⟩

end Build

namespace Realizes

variable {step : Build α} {operation : Operation} {types : Builder → List MachineType}
  {result : Builder → α}

theorem map (realizes : Realizes step operation types result) (change : α → β) :
    Realizes (change <$> step) operation types (change ∘ result) where
  run accepts := by
    rw [StateT.run_map, realizes.run accepts]
    rfl
  inv good := by
    rw [StateT.run_map] at good
    exact realizes.inv good

theorem discard (realizes : Realizes step operation types result) :
    Realizes (discard step) operation types fun _ => () :=
  realizes.map fun _ => ()

end Realizes

namespace Build

theorem emitOne_realizes {operation : Operation} (type : MachineType)
    (plain : operation.destinations = [])
    (fits : ∀ builder : Builder, operation.Fits builder [type]) :
    Realizes (emitOne operation type) operation (fun _ => [type]) Builder.nextValue :=
  (emit_realizes [type] plain fits).map fun values => values.headD ⟨0⟩

theorem constant_realizes (type : MachineType) (word : Int64) :
    Realizes (constant type word) (.constant type word) (fun _ => [type]) Builder.nextValue :=
  emitOne_realizes type rfl fun _ => rfl

theorem signExtend_realizes (type : MachineType) (operand : Value) :
    Realizes (signExtend type operand) (.signExtend type operand) (fun _ => [type])
      Builder.nextValue :=
  emitOne_realizes type rfl fun _ => rfl

theorem load_realizes (type : MachineType) (address : Value) (offset : Int32) :
    Realizes (load type address offset) (.load type address offset.toInt64) (fun _ => [type])
      Builder.nextValue :=
  emitOne_realizes type rfl fun _ => rfl

theorem store_realizes (value address : Value) (offset : Int32) :
    Realizes (store value address offset) (.store value address offset.toInt64) (fun _ => [])
      fun _ => () :=
  (@emit_realizes (.store value address offset.toInt64) [] rfl fun _ => rfl).discard

theorem ret_realizes (values : List Value) :
    Realizes (ret values) (.ret values) (fun _ => []) fun _ => () :=
  (@emit_realizes (.ret values) [] rfl fun _ => rfl).discard

/-! ## Operations that are checked -/

/-- A step of building that does nothing if a condition holds, and is a misuse otherwise. -/
structure Checks (check : Build Unit) (condition : Builder → Prop) : Prop where
  run : ∀ {builder : Builder}, condition builder → check.run builder = ((), builder)
  inv : ∀ {builder : Builder}, (check.run builder).2.misuse = none →
    builder.misuse = none ∧ condition builder

/-- Checking a condition before an operation is appended. -/
theorem Checks.realizes {check : Build Unit} {condition : Builder → Prop}
    {operation : Operation} {types : Builder → List MachineType}
    {step : Build α} (checks : Checks check condition) (rest : Build α)
    (finish : List Value → α)
    (whole : ∀ builder : Builder, step.run builder = rest.run (check.run builder).2)
    (plain : operation.destinations = [])
    (fits : ∀ builder : Builder, operation.Fits builder (types builder) ↔ condition builder)
    (emits : ∀ builder : Builder, rest.run builder =
      let results := (emit operation (types builder)).run builder
      (finish results.1, results.2)) :
    Realizes step operation types
      fun builder => finish (builder.nextValues (types builder).length) where
  run {builder label} accepts := by
    rw [whole, checks.run ((fits builder).mp accepts.fits), emits,
      emit_run (types builder) accepts.current accepts.unfinished accepts.operands,
      Builder.withInstruction, plain]
    rfl
  inv {builder} good := by
    rw [whole, emits] at good
    obtain ⟨checked, label, current, unfinished, operands⟩ := emit_inv good
    obtain ⟨before, holds⟩ := checks.inv checked
    rw [checks.run holds] at current unfinished operands
    exact ⟨before, label, current, unfinished, operands, (fits builder).mpr holds⟩

theorem compareTypes_checks (opcode : Opcode) (left right : Value) :
    Checks (compareTypes opcode left right) fun builder =>
      builder.function.type left = builder.function.type right where
  run {builder} equal := by
    simp only [compareTypes, function, StateT.run_bind, StateT.run_get, pure_bind,
      StateT.run_pure, equal, ne_eq, not_true_eq_false, if_false]
    rfl
  inv {builder} good := by
    by_cases equal : builder.function.type left = builder.function.type right
    · simp only [compareTypes, function, StateT.run_bind, StateT.run_get, pure_bind,
        StateT.run_pure, equal, ne_eq, not_true_eq_false, if_false] at good
      exact ⟨good, equal⟩
    · exfalso
      simp only [compareTypes, function, StateT.run_bind, StateT.run_get, pure_bind,
        StateT.run_pure, ne_eq, equal, not_false_eq_true, if_true] at good
      exact builder.misuse_blame_ne _ good

theorem arithmetic_realizes (operation : Arithmetic) (left right : Value) :
    Realizes (arithmetic operation left right) (.arithmetic operation left right)
      (fun builder => [builder.function.type left]) Builder.nextValue :=
  (compareTypes_checks (.arithmetic operation) left right).realizes
    (do emitOne (.arithmetic operation left right) ((← function).type left))
    (fun values => values.headD ⟨0⟩) (fun _ => rfl) rfl (by simp [Operation.Fits]) fun _ => rfl

theorem compare_realizes (condition : Condition) (left right : Value) :
    Realizes (compare condition left right) (.compare condition left right) (fun _ => [.i1])
      Builder.nextValue :=
  (compareTypes_checks .compare left right).realizes
    (emitOne (.compare condition left right) .i1)
    (fun values => values.headD ⟨0⟩) (fun _ => rfl) rfl (by simp [Operation.Fits]) fun _ => rfl

theorem slotAddress_realizes (slot : Slot) (offset : Int32) :
    Realizes (slotAddress slot offset) (.slotAddress .i64 slot offset.toInt64) (fun _ => [.i64])
      Builder.nextValue := by
  have checks : Checks
      (do if (← function).slots[slot.index]?.isNone then blame (.unknownSlot slot))
      fun builder => slot.index < builder.function.slots.size := by
    constructor
    · intro builder inside
      simp only [function, StateT.run_bind, StateT.run_get, pure_bind, StateT.run_pure,
        Option.isNone_iff_eq_none, Array.getElem?_eq_none_iff, Nat.not_le.mpr inside, if_false]
      rfl
    · intro builder good
      by_cases inside : slot.index < builder.function.slots.size
      · simp only [function, StateT.run_bind, StateT.run_get, pure_bind, StateT.run_pure,
          Option.isNone_iff_eq_none, Array.getElem?_eq_none_iff, Nat.not_le.mpr inside,
          if_false] at good
        exact ⟨good, inside⟩
      · exfalso
        simp only [function, StateT.run_bind, StateT.run_get, pure_bind, StateT.run_pure,
          Option.isNone_iff_eq_none, Array.getElem?_eq_none_iff, Nat.not_lt.mp inside,
          if_true] at good
        exact builder.misuse_blame_ne _ good
  refine checks.realizes (emitOne (.slotAddress .i64 slot offset.toInt64) .i64)
    (fun values => values.headD ⟨0⟩) ?_ rfl (by simp [Operation.Fits]) fun _ => rfl
  intro builder
  simp only [slotAddress, function, StateT.run_bind, StateT.run_get, pure_bind, StateT.run_pure]
  split <;> rfl

def checkRoom (value : Value) (slot : Slot) (offset : Int32) : Build Unit := do
  let body ← function
  match body.slots[slot.index]? with
  | none => blame (.unknownSlot slot)
  | some size =>
    if offset.toInt + (body.type value).size > size.toNat then
      blame (.slotOverflow slot offset.toInt64)

theorem checkRoom_checks (value : Value) (slot : Slot) (offset : Int32) :
    Checks (checkRoom value slot offset) fun builder =>
      ∃ size, builder.function.slots[slot.index]? = some size ∧
        offset.toInt + (builder.function.type value).size ≤ size.toNat where
  run {builder} := by
    rintro ⟨size, found, short⟩
    simp only [checkRoom, function, StateT.run_bind, StateT.run_get, pure_bind, StateT.run_pure,
      found, gt_iff_lt, Int.not_lt.mpr short, if_false]
    rfl
  inv {builder} good := by
    cases found : builder.function.slots[slot.index]? with
    | none =>
        exfalso
        simp only [checkRoom, function, StateT.run_bind, StateT.run_get, pure_bind,
          StateT.run_pure, found] at good
        exact builder.misuse_blame_ne _ good
    | some size =>
        by_cases short : offset.toInt + (builder.function.type value).size ≤ size.toNat
        · simp only [checkRoom, function, StateT.run_bind, StateT.run_get, pure_bind,
            StateT.run_pure, found, gt_iff_lt, Int.not_lt.mpr short, if_false] at good
          exact ⟨good, size, rfl, short⟩
        · exfalso
          simp only [checkRoom, function, StateT.run_bind, StateT.run_get, pure_bind,
            StateT.run_pure, found, gt_iff_lt, Int.not_le.mp short, if_true] at good
          exact builder.misuse_blame_ne _ good

theorem slotStore_eq (builder : Builder) (value : Value) (slot : Slot) (offset : Int32) :
    (slotStore value slot offset).run builder = (checkRoom value slot offset >>= fun _ =>
      discard (emit (.slotStore value slot offset.toInt64) [])).run builder := by
  simp only [checkRoom, slotStore, function, StateT.run_bind, StateT.run_get, pure_bind,
    StateT.run_pure]
  cases builder.function.slots[slot.index]? with
  | none => rfl
  | some size =>
      by_cases long : offset.toInt + (builder.function.type value).size > size.toNat
      · simp only [long, if_true]
        rfl
      · simp only [long, if_false]
        rfl

theorem slotStore_realizes (value : Value) (slot : Slot) (offset : Int32) :
    Realizes (slotStore value slot offset) (.slotStore value slot offset.toInt64) (fun _ => [])
      fun _ => () := by
  refine (checkRoom_checks value slot offset).realizes
    (discard (emit (.slotStore value slot offset.toInt64) [])) (fun _ => ()) ?_ rfl ?_
    fun _ => rfl
  · exact fun builder => slotStore_eq builder value slot offset
  · intro builder
    have same : offset.toInt64.toInt = offset.toInt := Int32.toInt_toInt64 offset
    simp [Operation.Fits, same]

/-! ## Calls -/

def resultTypes (reference : Reference) (builder : Builder) : List MachineType :=
  (builder.function.references[reference.index]?.map
    fun external => external.prototype.results).getD []

theorem call_realizes (reference : Reference) (arguments : List Value) :
    Realizes (call reference arguments) (.call reference arguments) (resultTypes reference)
      fun builder => builder.nextValues (resultTypes reference builder).length := by
  constructor
  · intro builder label accepts
    obtain ⟨external, found, length, types⟩ := accepts.fits
    have emitted := emit_run (resultTypes reference builder) accepts.current accepts.unfinished
      accepts.operands
    rw [types] at emitted ⊢
    simp only [call, function, StateT.run_bind, StateT.run_get, pure_bind, StateT.run_pure,
      found, length, ne_eq, not_true_eq_false, if_false]
    exact emitted
  · intro builder good
    cases found : builder.function.references[reference.index]? with
    | none =>
        exfalso
        simp only [call, function, StateT.run_bind, StateT.run_get, pure_bind, StateT.run_pure,
          found] at good
        exact builder.misuse_blame_ne _ good
    | some external =>
        by_cases length : arguments.length = external.prototype.parameters.length
        · simp only [call, function, StateT.run_bind, StateT.run_get, pure_bind,
            StateT.run_pure, found, length, ne_eq, not_true_eq_false, if_false] at good
          obtain ⟨before, label, current, unfinished, operands⟩ := emit_inv good
          exact ⟨before, label, current, unfinished, operands, external, found, length,
            by simp [resultTypes, found]⟩
        · exfalso
          simp only [call, function, StateT.run_bind, StateT.run_get, pure_bind,
            StateT.run_pure, found, length, ne_eq, not_false_eq_true, if_true] at good
          have blamed := (emit_inv good).1
          exact builder.misuse_blame_ne _ blamed

/-! ## Branches -/

theorem destinationMisuse?_eq_none {builder : Builder} {destinations : List Destination} :
    destinationMisuse? builder destinations = none ↔
      ∀ destination ∈ destinations, builder.hasBlock destination.block = true ∧
        (builder.state destination.block).isSealed = false := by
  induction destinations with
  | nil => simp [destinationMisuse?]
  | cons destination rest induction =>
      cases inside : builder.hasBlock destination.block with
      | false => simp [destinationMisuse?, inside]
      | true =>
          cases closed : (builder.state destination.block).isSealed with
          | true => simp [destinationMisuse?, inside, closed]
          | false => simp [destinationMisuse?, inside, closed, induction]

theorem addEdges_run (builder : Builder) (source : Label) (side : Nat)
    (destinations : List Destination) :
    (addEdges source side destinations).run builder =
      ((), builder.withEdges source side destinations) := by
  induction destinations generalizing builder side with
  | nil => rfl
  | cons destination rest induction => exact induction _ (side + 1)

theorem branchWith_realizes {operation : Operation}
    (fits : ∀ builder : Builder, operation.Fits builder [] ↔
      ∀ destination ∈ operation.destinations, builder.hasBlock destination.block = true ∧
        (builder.state destination.block).isSealed = false) :
    Realizes (branchWith operation) operation (fun _ => []) fun _ => () := by
  constructor
  · intro builder label accepts
    have targets := destinationMisuse?_eq_none.mpr ((fits builder).mp accepts.fits)
    have emitted := emit_run [] accepts.current accepts.unfinished accepts.operands
    simp only [branchWith, StateT.run_bind, StateT.run_get, pure_bind, accepts.current, targets,
      accepts.unfinished]
    have added := addEdges_run ((emit operation []).run builder).2 label 0
      operation.destinations
    rw [emitted] at added
    have same : ((emit operation []).run builder).2 = appended builder label operation [] := by
      rw [emitted]
    have whole : (addEdges label 0 operation.destinations).run
        ((emit operation []).run builder).2 =
        ((), builder.withInstruction label operation []) := by
      rw [same]
      exact added
    exact whole
  · intro builder good
    cases current : builder.current with
    | none =>
        exfalso
        simp only [branchWith, StateT.run_bind, StateT.run_get, pure_bind, current] at good
        exact builder.misuse_blame_ne _ good
    | some label =>
        cases targets : destinationMisuse? builder operation.destinations with
        | some misuse =>
            exfalso
            simp only [branchWith, StateT.run_bind, StateT.run_get, pure_bind, current,
              targets] at good
            exact builder.misuse_blame_ne _ good
        | none =>
            have emittedGood : ((emit operation []).run builder).2.misuse = none := by
              simp only [branchWith, StateT.run_bind, StateT.run_get, pure_bind, current,
                targets] at good
              cases unfinished : (builder.function.block label).isTerminated with
              | true =>
                  simp only [unfinished] at good
                  exact good
              | false =>
                  simp only [unfinished] at good
                  have added := addEdges_run ((emit operation []).run builder).2 label 0
                    operation.destinations
                  have last : ((addEdges label 0 operation.destinations).run
                      ((emit operation []).run builder).2).2.misuse = none := good
                  rw [added, Builder.misuse_withEdges] at last
                  exact last
            obtain ⟨before, other, now, unfinished, operands⟩ := emit_inv emittedGood
            exact ⟨before, other, now, unfinished, operands,
              (fits builder).mpr (destinationMisuse?_eq_none.mp targets)⟩

theorem branch_realizes (condition : Value) (onTrue onFalse : Destination) :
    Realizes (branch condition onTrue onFalse) (.branch condition onTrue onFalse)
      (fun _ => []) fun _ => () :=
  branchWith_realizes fun builder => by simp [Operation.Fits, Operation.destinations]

theorem jump_realizes (target : Destination) :
    Realizes (jump target) (.jump target) (fun _ => []) fun _ => () :=
  branchWith_realizes fun builder => by simp [Operation.Fits, Operation.destinations]

end Build

/-! ## Whatever was done wrong -/

/-- The builder allows an operation: what it leads to exists and is not sealed, and what it calls is
known. -/
def Operation.Able (builder : Builder) : Operation → Prop
  | call reference _ => reference.index < builder.function.references.size
  | operation => ∀ destination ∈ operation.destinations,
    builder.hasBlock destination.block = true ∧
      (builder.state destination.block).isSealed = false

theorem Operation.Able.destinations {builder : Builder} {operation : Operation}
    (able : operation.Able builder) : ∀ destination ∈ operation.destinations,
      builder.hasBlock destination.block = true ∧
        (builder.state destination.block).isSealed = false := by
  cases operation with
  | call => exact nofun
  | _ => exact able

/-- What a command to append an operation can come to, however much was done wrong before. If
there is no block that it could be appended to, or the operation is not possible, nothing happens
except that someone may be blamed; otherwise it is appended, whether its operands fit or not. -/
inductive Builder.Appends (operation : Operation) (builder : Builder) : Builder → Prop
  | refused {misuse : Option Misuse}
      (reason : operation.Able builder → ∀ label, builder.current = some label →
        (builder.function.block label).isTerminated = true) :
      Appends operation builder { builder with misuse }
  | appended {misuse : Option Misuse} {types : List MachineType} {label : Label}
      (able : operation.Able builder) (current : builder.current = some label)
      (unfinished : (builder.function.block label).isTerminated = false) :
      Appends operation builder
        (({ builder with misuse } : Builder).withInstruction label operation types)

theorem Builder.Appends.of_blamed {operation : Operation} {builder later : Builder}
    {misuse : Option Misuse}
    (appends : ({ builder with misuse } : Builder).Appends operation later) :
    builder.Appends operation later := by
  have same : operation.Able { builder with misuse } ↔ operation.Able builder := by
    cases operation <;> rfl
  cases appends with
  | refused reason => exact .refused fun able => reason (same.mpr able)
  | appended able current unfinished => exact .appended (same.mp able) current unfinished

namespace Build

variable {builder : Builder}

def OnlyNotes (check : Build Unit) : Prop :=
  ∀ builder : Builder, ∃ misuse, (check.run builder).2 = { builder with misuse }

theorem OnlyNotes.pure : OnlyNotes (return) :=
  fun builder => ⟨builder.misuse, rfl⟩

theorem OnlyNotes.blame (misuse : Misuse) : OnlyNotes (blame misuse) :=
  fun _ => ⟨_, rfl⟩

theorem OnlyNotes.ite {condition : Prop} [Decidable condition] {check other : Build Unit}
    (first : OnlyNotes check) (second : OnlyNotes other) :
    OnlyNotes (if condition then check else other) := by
  split
  · exact first
  · exact second

theorem OnlyNotes.checkOperands {values : List Value} {missing : Value → Bool}
    {misuse : Value → Misuse} :
    OnlyNotes (values.forM fun value =>
      if missing value then Build.blame (misuse value) else return) := by
  intro builder
  induction values generalizing builder with
  | nil => exact ⟨builder.misuse, rfl⟩
  | cons value rest induction =>
      have notes : OnlyNotes (if missing value then Build.blame (misuse value) else return) :=
        .ite (.blame _) .pure
      obtain ⟨first, same⟩ := notes builder
      rw [forM_cons_run, same]
      exact induction _

theorem emit_outside {operation : Operation} (types : List MachineType)
    (outside : builder.current = none) :
    ((emit operation types).run builder).2 =
      builder.blame (.outsideBlock operation.opcode) := by
  simp only [emit, StateT.run_bind, StateT.run_get, pure_bind, outside]
  rfl

theorem emit_terminated {operation : Operation} (types : List MachineType) {label : Label}
    (current : builder.current = some label)
    (finished : (builder.function.block label).isTerminated = true) :
    ((emit operation types).run builder).2 =
      builder.blame (.afterTerminator operation.opcode label) := by
  simp only [emit, StateT.run_bind, StateT.run_get, pure_bind, current, finished]
  rfl

theorem emit_unfinished {operation : Operation} (types : List MachineType) {label : Label}
    (current : builder.current = some label)
    (unfinished : (builder.function.block label).isTerminated = false) :
    ∃ misuse : Option Misuse, ((emit operation types).run builder).2 =
      appended { builder with misuse } label operation types := by
  obtain ⟨misuse, checked⟩ := @OnlyNotes.checkOperands operation.operands
    (fun value => (builder.function.value? value).isNone) (.unknownOperand operation.opcode)
    builder
  refine ⟨misuse, ?_⟩
  rw [emit_eq types current unfinished, checked]

theorem emit_appends (operation : Operation) (types : List MachineType)
    (plain : operation.destinations = []) (able : operation.Able builder) :
    builder.Appends operation ((emit operation types).run builder).2 := by
  cases current : builder.current with
  | none =>
      rw [emit_outside types current]
      exact .refused (by simp [current])
  | some label =>
      cases unfinished : (builder.function.block label).isTerminated with
      | true =>
          rw [emit_terminated types current unfinished]
          refine .refused fun _ other same => ?_
          cases current.symm.trans same
          exact unfinished
      | false =>
          obtain ⟨misuse, same⟩ := @emit_unfinished _ operation types _ current unfinished
          have appended := @Builder.Appends.appended operation builder misuse types label able
            current unfinished
          rw [Builder.withInstruction, plain] at appended
          rw [same]
          exact appended

theorem OnlyNotes.appends {check : Build Unit} (notes : OnlyNotes check) {operation : Operation}
    {rest : Build α} (appends : ∀ misuse : Option Misuse,
      ({ builder with misuse } : Builder).Appends operation
        (rest.run { builder with misuse }).2) :
    builder.Appends operation ((check >>= fun _ => rest).run builder).2 := by
  obtain ⟨misuse, checked⟩ := notes builder
  rw [StateT.run_bind]
  change builder.Appends operation (rest.run (check.run builder).2).2
  rw [checked]
  exact (appends misuse).of_blamed

theorem compareTypes_notes (opcode : Opcode) (left right : Value) :
    OnlyNotes (compareTypes opcode left right) := by
  intro builder
  simp only [compareTypes, function, StateT.run_bind, StateT.run_get, pure_bind, StateT.run_pure]
  split
  · exact OnlyNotes.blame _ builder
  · exact OnlyNotes.pure builder

theorem checkRoom_notes (value : Value) (slot : Slot) (offset : Int32) :
    OnlyNotes (checkRoom value slot offset) := by
  intro builder
  simp only [checkRoom, function, StateT.run_bind, StateT.run_get, pure_bind, StateT.run_pure]
  split
  · exact OnlyNotes.blame _ builder
  · split
    · exact OnlyNotes.blame _ builder
    · exact OnlyNotes.pure builder

theorem branchWith_appends (operation : Operation)
    (able : operation.Able builder ↔
      destinationMisuse? builder operation.destinations = none) :
    builder.Appends operation ((branchWith operation).run builder).2 := by
  cases current : builder.current with
  | none =>
      have refused : ((branchWith operation).run builder).2 =
          builder.blame (.outsideBlock operation.opcode) := by
        simp only [branchWith, StateT.run_bind, StateT.run_get, pure_bind, current]
        rfl
      rw [refused]
      exact .refused (by simp [current])
  | some label =>
      cases targets : destinationMisuse? builder operation.destinations with
      | some misuse =>
          have refused : ((branchWith operation).run builder).2 = builder.blame misuse := by
            simp only [branchWith, StateT.run_bind, StateT.run_get, pure_bind, current, targets]
            rfl
          rw [refused]
          refine .refused fun possible => ?_
          rw [able, targets] at possible
          cases possible
      | none =>
          cases unfinished : (builder.function.block label).isTerminated with
          | true =>
              have run : ((branchWith operation).run builder).2 =
                  ((emit operation []).run builder).2 := by
                simp only [branchWith, StateT.run_bind, StateT.run_get, pure_bind, current,
                  targets, unfinished]
                rfl
              rw [run, emit_terminated [] current unfinished]
              refine .refused fun _ other same => ?_
              cases current.symm.trans same
              exact unfinished
          | false =>
              have run : ((branchWith operation).run builder).2 =
                  ((addEdges label 0 operation.destinations).run
                    ((emit operation []).run builder).2).2 := by
                simp only [branchWith, StateT.run_bind, StateT.run_get, pure_bind, current,
                  targets, unfinished]
                rfl
              obtain ⟨misuse, same⟩ := @emit_unfinished _ operation [] _ current unfinished
              rw [run, addEdges_run, same]
              exact .appended (able.mpr targets) current unfinished

theorem arithmetic_appends (operation : Arithmetic) (left right : Value) :
    builder.Appends (.arithmetic operation left right)
      ((arithmetic operation left right).run builder).2 := by
  rw [arithmetic]
  exact (compareTypes_notes _ left right).appends fun _ =>
    emit_appends (.arithmetic operation left right) _ rfl nofun

theorem compare_appends (condition : Condition) (left right : Value) :
    builder.Appends (.compare condition left right)
      ((compare condition left right).run builder).2 := by
  rw [compare]
  exact (compareTypes_notes _ left right).appends fun _ =>
    emit_appends (.compare condition left right) [.i1] rfl nofun

theorem slotAddress_appends (slot : Slot) (offset : Int32) :
    builder.Appends (.slotAddress .i64 slot offset.toInt64)
      ((slotAddress slot offset).run builder).2 := by
  have run : (slotAddress slot offset).run builder =
      ((if builder.function.slots[slot.index]?.isNone then blame (.unknownSlot slot)
        else return) >>= fun _ =>
      emitOne (.slotAddress .i64 slot offset.toInt64) .i64).run builder := by
    simp only [slotAddress, function, StateT.run_bind, StateT.run_get, pure_bind,
      StateT.run_pure]
    split <;> rfl
  rw [run]
  exact (OnlyNotes.ite (.blame _) .pure).appends fun _ =>
    emit_appends (.slotAddress .i64 slot offset.toInt64) [.i64] rfl nofun

theorem slotStore_appends (value : Value) (slot : Slot) (offset : Int32) :
    builder.Appends (.slotStore value slot offset.toInt64)
      ((slotStore value slot offset).run builder).2 := by
  rw [slotStore_eq]
  exact (checkRoom_notes value slot offset).appends fun _ =>
    emit_appends (.slotStore value slot offset.toInt64) [] rfl nofun

theorem call_appends (reference : Reference) (arguments : List Value) :
    builder.Appends (.call reference arguments)
      ((call reference arguments).run builder).2 := by
  cases found : builder.function.references[reference.index]? with
  | none =>
      have refused : ((call reference arguments).run builder).2 =
          builder.blame (.unknownReference reference) := by
        simp only [call, function, StateT.run_bind, StateT.run_get, pure_bind, StateT.run_pure,
          found]
        rfl
      rw [refused]
      refine .refused fun possible => ?_
      rw [Array.getElem?_eq_none_iff] at found
      exact absurd possible (Nat.not_lt.mpr found)
  | some external =>
      have run : (call reference arguments).run builder =
          ((if arguments.length ≠ external.prototype.parameters.length then
              blame (.callArguments external.name arguments.length
                external.prototype.parameters.length)
            else return) >>= fun _ =>
          emit (.call reference arguments) external.prototype.results).run builder := by
        simp only [call, function, StateT.run_bind, StateT.run_get, pure_bind, StateT.run_pure,
          found]
        split <;> rfl
      rw [run]
      refine (OnlyNotes.ite (.blame _) .pure).appends fun misuse => emit_appends _ _ rfl ?_
      exact (Array.getElem?_eq_some_iff.mp found).1

end Build

/-! ## All commands -/

namespace Emission

def operation : Emission → Operation
  | constant type word => .constant type word
  | arithmetic operation left right => .arithmetic operation left right
  | compare condition left right => .compare condition left right
  | signExtend type operand => .signExtend type operand
  | load type address offset => .load type address offset.toInt64
  | store value address offset => .store value address offset.toInt64
  | slotAddress slot offset => .slotAddress .i64 slot offset.toInt64
  | slotStore value slot offset => .slotStore value slot offset.toInt64
  | call reference arguments => .call reference arguments
  | branch condition onTrue onFalse => .branch condition onTrue onFalse
  | jump target => .jump target
  | ret values => .ret values

def types (builder : Builder) : Emission → List MachineType
  | constant type _ => [type]
  | arithmetic _ left _ => [builder.function.type left]
  | compare _ _ _ => [.i1]
  | signExtend type _ => [type]
  | load type _ _ => [type]
  | slotAddress _ _ => [.i64]
  | call reference _ => Build.resultTypes reference builder
  | _ => []

theorem realizes (emission : Emission) :
    Realizes emission.build emission.operation (fun builder => emission.types builder)
      fun _ => () := by
  cases emission with
  | constant type word => exact (Build.constant_realizes type word).discard
  | arithmetic operation left right =>
      exact (Build.arithmetic_realizes operation left right).discard
  | compare condition left right => exact (Build.compare_realizes condition left right).discard
  | signExtend type operand => exact (Build.signExtend_realizes type operand).discard
  | load type address offset => exact (Build.load_realizes type address offset).discard
  | store value address offset => exact Build.store_realizes value address offset
  | slotAddress slot offset => exact (Build.slotAddress_realizes slot offset).discard
  | slotStore value slot offset => exact Build.slotStore_realizes value slot offset
  | call reference arguments => exact (Build.call_realizes reference arguments).discard
  | branch condition onTrue onFalse => exact Build.branch_realizes condition onTrue onFalse
  | jump target => exact Build.jump_realizes target
  | ret values => exact Build.ret_realizes values

theorem appends (emission : Emission) (builder : Builder) :
    builder.Appends emission.operation (emission.build.run builder).2 := by
  cases emission with
  | constant type word => exact Build.emit_appends (.constant type word) [type] rfl nofun
  | arithmetic operation left right => exact Build.arithmetic_appends operation left right
  | compare condition left right => exact Build.compare_appends condition left right
  | signExtend type operand => exact Build.emit_appends (.signExtend type operand) [type] rfl nofun
  | load type address offset =>
      exact Build.emit_appends (.load type address offset.toInt64) [type] rfl nofun
  | store value address offset =>
      exact Build.emit_appends (.store value address offset.toInt64) [] rfl nofun
  | slotAddress slot offset => exact Build.slotAddress_appends slot offset
  | slotStore value slot offset => exact Build.slotStore_appends value slot offset
  | call reference arguments => exact Build.call_appends reference arguments
  | branch condition onTrue onFalse =>
      exact Build.branchWith_appends (.branch condition onTrue onFalse)
        Build.destinationMisuse?_eq_none.symm
  | jump target =>
      exact Build.branchWith_appends (.jump target) Build.destinationMisuse?_eq_none.symm
  | ret values => exact Build.emit_appends (.ret values) [] rfl nofun

end Emission

end ExprLang.Ssa
