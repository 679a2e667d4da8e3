import ExprLang.Llvm.OfSsa
import ExprLang.Proofs.Lowering.Origin
import ExprLang.Proofs.Ssa.Order

/-!
# What is written for a function

The code of a compiled function in the LLVM language, as a relation between instructions and what
is written for them. Main statement: a compiled function can be written, and every block is
written as the relation says.
-/

namespace ExprLang.Llvm

open Ssa (Value Label)

/-! ## Code of instructions -/

section Code

variable (function : Ssa.Function) (operands : Operands) (label : Label)

/-- What is written for an instruction that does not end a block, in a block where so many
assignments stand in front. -/
inductive Renders (count : Nat) : Ssa.Instruction → List Assignment → Prop
  | constant {result : Value} {value : Int64} {stray : List Ssa.Destination}
      (given : operands.lookup result = some (.constant .word value)) :
      Renders count ⟨[result], .constant .i64 value, stray⟩ []
  | arithmetic {result left right : Value} {operation : Arithmetic} {first second : Operand}
      {stray : List Ssa.Destination}
      (onLeft : operands.lookup left = some first) (onRight : operands.lookup right = some second)
      (given : operands.lookup result = some (.result (.value result) .word)) :
      Renders count ⟨[result], .arithmetic operation left right, stray⟩
        [⟨some (.value result), .arithmetic operation first second⟩]
  | compare {result left right : Value} {relation : Comparison} {first second : Operand}
      {stray : List Ssa.Destination}
      (onLeft : operands.lookup left = some first) (onRight : operands.lookup right = some second)
      (given : operands.lookup result = some (.result (.value result) .bit)) :
      Renders count ⟨[result], .compare (Lowering.condition relation) left right, stray⟩
        [⟨some (.value result), .compare (Lowering.condition relation) first second⟩]
  | signExtend {result value : Value} {operand : Operand} {stray : List Ssa.Destination}
      (read : operands.lookup value = some operand)
      (given : operands.lookup result = some (.result (.value result) .word)) :
      Renders count ⟨[result], .signExtend .i64 value, stray⟩
        [⟨some (.value result), .signExtend operand .word⟩]
  | load {result address : Value} {operand : Operand} {stray : List Ssa.Destination}
      (read : operands.lookup address = some operand)
      (given : operands.lookup result = some (.result (.value result) .word)) :
      Renders count ⟨[result], .load .i64 address 0, stray⟩
        [⟨some (.temporary label count), .pointer operand⟩,
          ⟨some (.value result), .load .word (.temporary label count)⟩]
  | slotAddress {result : Value} {slot : Ssa.Slot} {size : UInt32} {stray : List Ssa.Destination}
      (found : function.slots[slot.index]? = some size)
      (given : operands.lookup result = some (.result (.temporary label count) .word)) :
      Renders count ⟨[result], .slotAddress .i64 slot 0, stray⟩
        [⟨some (.temporary label count), .slotAddress slot (Drafting.slotWords size)⟩]
  | slotStart {value : Value} {operand : Operand} {slot : Ssa.Slot} {size : UInt32}
      {stray : List Ssa.Destination}
      (read : operands.lookup value = some operand)
      (found : function.slots[slot.index]? = some size) :
      Renders count ⟨[], .slotStore value slot 0, stray⟩
        [⟨some (.temporary label count), .slotAddress slot (Drafting.slotWords size)⟩,
          ⟨some (.temporary label (count + 1)), .pointer (.result (.temporary label count) .word)⟩,
          ⟨none, .store operand (.temporary label (count + 1))⟩]
  | slotStore {value : Value} {operand : Operand} {slot : Ssa.Slot} {size : UInt32}
      {offset : Int64} {stray : List Ssa.Destination}
      (read : operands.lookup value = some operand)
      (found : function.slots[slot.index]? = some size) (behind : offset ≠ 0) :
      Renders count ⟨[], .slotStore value slot offset, stray⟩
        [⟨some (.temporary label count), .slotAddress slot (Drafting.slotWords size)⟩,
          ⟨some (.temporary label (count + 1)),
            .arithmetic .add (.result (.temporary label count) .word) (.constant .word offset)⟩,
          ⟨some (.temporary label (count + 2)),
            .pointer (.result (.temporary label (count + 1)) .word)⟩,
          ⟨none, .store operand (.temporary label (count + 2))⟩]
  | call {result : Value} {reference : Ssa.Reference} {arguments : List Value}
      {external : Ssa.External} {inputs : List Operand} {stray : List Ssa.Destination}
      (read : List.Forall₂ (fun argument input => operands.lookup argument = some input)
        arguments inputs)
      (found : function.references[reference.index]? = some external)
      (given : operands.lookup result = some (.result (.value result) .word)) :
      Renders count ⟨[result], .call reference arguments, stray⟩
        [⟨some (.value result), .call .word external.name inputs⟩]

/-- What is written for an instruction that ends a block. A word is compared before it decides a
branch. -/
inductive Closes (count : Nat) : Ssa.Instruction → List Assignment → Terminator → Prop
  | branch {condition : Value} {operand : Operand} {onTrue onFalse : Ssa.Destination}
      {results : List Value} {stray : List Ssa.Destination}
      (read : operands.lookup condition = some operand) (narrow : operand.width = .bit) :
      Closes count ⟨results, .branch condition onTrue onFalse, stray⟩ []
        (.branch operand onTrue.block onFalse.block)
  | test {condition : Value} {operand : Operand} {onTrue onFalse : Ssa.Destination}
      {results : List Value} {stray : List Ssa.Destination}
      (read : operands.lookup condition = some operand) (wide : operand.width = .word) :
      Closes count ⟨results, .branch condition onTrue onFalse, stray⟩
        [⟨some (.temporary label count), .compare .notEqual operand (.constant .word 0)⟩]
        (.branch (.result (.temporary label count) .bit) onTrue.block onFalse.block)
  | jump {target : Ssa.Destination} {results : List Value} {stray : List Ssa.Destination} :
      Closes count ⟨results, .jump target, stray⟩ [] (.jump target.block)
  | ret {value : Value} {operand : Operand} {results : List Value} {stray : List Ssa.Destination}
      (read : operands.lookup value = some operand) :
      Closes count ⟨results, .ret [value], stray⟩ [] (.ret operand)

inductive RendersAll : (count : Nat) → List Ssa.Instruction → List Assignment → Terminator → Prop
  | close {count : Nat} {instruction : Ssa.Instruction} {written : List Assignment}
      {terminator : Terminator}
      (closes : Closes operands label count instruction written terminator) :
      RendersAll count [instruction] written terminator
  | cons {count : Nat} {instruction : Ssa.Instruction} {behind : List Ssa.Instruction}
      {written more : List Assignment} {terminator : Terminator}
      (renders : Renders function operands label count instruction written)
      (rest : RendersAll (count + written.length) behind more terminator) :
      RendersAll count (instruction :: behind) (written ++ more) terminator

end Code

def Operands.Within (operands more : Operands) : Prop :=
  ∀ value operand, operands.lookup value = some operand → more.lookup value = some operand

section Within

variable {function : Ssa.Function} {operands more : Operands} {label : Label} {count : Nat}
  {instruction : Ssa.Instruction} {written : List Assignment} {terminator : Terminator}

theorem Renders.within (renders : Renders function operands label count instruction written)
    (within : operands.Within more) :
    Renders function more label count instruction written := by
  cases renders with
  | constant given => exact .constant (within _ _ given)
  | arithmetic onLeft onRight given =>
      exact .arithmetic (within _ _ onLeft) (within _ _ onRight) (within _ _ given)
  | compare onLeft onRight given =>
      exact .compare (within _ _ onLeft) (within _ _ onRight) (within _ _ given)
  | signExtend read given => exact .signExtend (within _ _ read) (within _ _ given)
  | load read given => exact .load (within _ _ read) (within _ _ given)
  | slotAddress found given => exact .slotAddress found (within _ _ given)
  | slotStart read found => exact .slotStart (within _ _ read) found
  | slotStore read found behind => exact .slotStore (within _ _ read) found behind
  | call read found given =>
      exact .call (read.imp fun _ _ => within _ _) found (within _ _ given)

theorem Closes.within (closes : Closes operands label count instruction written terminator)
    (within : operands.Within more) :
    Closes more label count instruction written terminator := by
  cases closes with
  | branch read narrow => exact .branch (within _ _ read) narrow
  | test read wide => exact .test (within _ _ read) wide
  | jump => exact .jump
  | ret read => exact .ret (within _ _ read)

theorem RendersAll.within {instructions : List Ssa.Instruction}
    (renders : RendersAll function operands label count instructions written terminator)
    (within : operands.Within more) :
    RendersAll function more label count instructions written terminator := by
  induction renders with
  | close closes => exact .close (closes.within within)
  | cons renders _ induction => exact .cons (renders.within within) induction

end Within

/-! ## Writing instructions -/

def Operands.Typed (function : Ssa.Function) (operands : Operands) : Prop :=
  ∀ value operand, operands.lookup value = some operand →
    operand.width = .ofMachineType (function.type value)

@[simp] theorem Width.ofMachineType_i64 : Width.ofMachineType .i64 = .word := rfl

@[simp] theorem Width.ofMachineType_i1 : Width.ofMachineType .i1 = .bit := rfl

def Operands.Knows (operands : Operands) (value : Value) : Prop :=
  ∃ operand, operands.lookup value = some operand

structure Operands.Gains (function : Ssa.Function) (operands : Operands) (values : List Value)
    (later : Operands) : Prop where
  within : operands.Within later
  knows : ∀ value, later.Knows value ↔ operands.Knows value ∨ value ∈ values
  typed : later.Typed function

namespace Operands.Gains

variable {function : Ssa.Function} {operands middle later : Operands} {values others : List Value}

theorem refl (typed : operands.Typed function) : Gains function operands [] operands :=
  ⟨fun _ _ found => found, by simp, typed⟩

theorem trans (left : Gains function operands values middle)
    (right : Gains function middle others later) :
    Gains function operands (values ++ others) later where
  within value operand found := right.within _ _ (left.within _ _ found)
  knows value := by rw [right.knows, left.knows, List.mem_append, or_assoc]
  typed := right.typed

theorem single {result : Value} (operand : Operand) {type : Ssa.MachineType}
    (fresh : ¬ operands.Knows result) (typed : operands.Typed function)
    (typing : function.type? result = some type) (width : operand.width = .ofMachineType type) :
    Gains function operands [result] ((result, operand) :: operands) where
  within value known found := by
    rw [List.lookup_cons]
    split
    · rename_i same
      rw [eq_of_beq same] at found
      exact absurd ⟨known, found⟩ fresh
    · exact found
  knows value := by
    rw [Knows, List.lookup_cons, List.mem_singleton]
    split
    · rename_i same
      simp [eq_of_beq same]
    · rename_i different
      simp [Knows, (beq_eq_false_iff_ne.mp different)]
  typed value known found := by
    rw [List.lookup_cons] at found
    split at found
    · rename_i same
      cases found
      rw [eq_of_beq same, width, Ssa.Function.type, typing]
      rfl
    · exact typed value known found

end Operands.Gains

theorem Operands.Typed.width {function : Ssa.Function} {operands : Operands} {value : Value}
    {operand : Operand} {type : Ssa.MachineType} (typed : operands.Typed function)
    (found : operands.lookup value = some operand) (typing : function.type? value = some type) :
    operand.width = .ofMachineType type := by
  rw [typed value operand found, Ssa.Function.type, typing]
  rfl

namespace Drafting

variable {function : Ssa.Function} {draft : Draft}

theorem run_operand {value : Value} {operand : Operand}
    (known : draft.operands.lookup value = some operand) :
    (Drafting.operand value).run draft = .ok (operand, draft) := by
  simp only [Drafting.operand, Operands.find]
  rw [StateT.run_bind]
  simp [known]

theorem run_assign (name : Option Name) (instruction : Instruction) :
    (assign name instruction).run draft =
      .ok ((), { draft with assignments := draft.assignments.push ⟨name, instruction⟩ }) := rfl

theorem run_temporary (instruction : Instruction) :
    (temporary instruction).run draft =
      .ok (.temporary draft.label draft.assignments.size, { draft with
        assignments := draft.assignments.push
          ⟨some (.temporary draft.label draft.assignments.size), instruction⟩ }) := rfl

theorem run_terminate (terminator : Terminator) :
    (terminate terminator).run draft = .ok ((), { draft with terminator := some terminator }) :=
  rfl

theorem run_named (result : Value) (others : List Value) (width : Width)
    (instruction : Instruction) :
    (named (result :: others) width instruction).run draft =
      .ok ((), { draft with
        operands := (result, .result (.value result) width) :: draft.operands
        assignments := draft.assignments.push ⟨some (.value result), instruction⟩ }) := rfl

theorem run_bind_ok {first : Drafting α} {rest : α → Drafting β} {value : α} {later : Draft}
    (ran : first.run draft = .ok (value, later)) :
    (first >>= rest).run draft = (rest value).run later := by
  rw [StateT.run_bind, ran]
  rfl

theorem run_get (draft : Draft) : (get : Drafting Draft).run draft = .ok (draft, draft) := rfl

theorem run_slotPlace_zero {slot : Ssa.Slot} {size : UInt32}
    (found : function.slots[slot.index]? = some size) :
    (slotPlace function slot 0).run draft =
      .ok (.result (.temporary draft.label draft.assignments.size) .word, { draft with
        assignments := draft.assignments.push
          ⟨some (.temporary draft.label draft.assignments.size),
            .slotAddress slot (slotWords size)⟩ }) := by
  rw [slotPlace, found, run_bind_ok (run_temporary _), displaced, if_pos rfl]
  rfl

theorem run_slotPlace {slot : Ssa.Slot} {size : UInt32} {offset : Int64}
    (found : function.slots[slot.index]? = some size) (behind : offset ≠ 0) :
    (slotPlace function slot offset).run draft =
      .ok (.result (.temporary draft.label (draft.assignments.size + 1)) .word, { draft with
        assignments := (draft.assignments.push
          ⟨some (.temporary draft.label draft.assignments.size),
            .slotAddress slot (slotWords size)⟩).push
          ⟨some (.temporary draft.label (draft.assignments.size + 1)),
            .arithmetic .add (.result (.temporary draft.label draft.assignments.size) .word)
              (.constant .word offset)⟩ }) := by
  rw [slotPlace, found, run_bind_ok (run_temporary _), displaced, if_neg behind,
    run_bind_ok (run_temporary _)]
  simp
  rfl

theorem run_mapM_operand {values : List Value}
    (known : ∀ value ∈ values, draft.operands.Knows value) :
    ∃ inputs, List.Forall₂ (fun value input => draft.operands.lookup value = some input)
        values inputs ∧ (values.mapM Drafting.operand).run draft = .ok (inputs, draft) := by
  induction values with
  | nil => exact ⟨[], .nil, rfl⟩
  | cons value values induction =>
      rw [List.forall_mem_cons] at known
      obtain ⟨operand, found⟩ := known.1
      obtain ⟨inputs, read, ran⟩ := induction known.2
      refine ⟨operand :: inputs, .cons found read, ?_⟩
      rw [List.mapM_cons, run_bind_ok (run_operand found), run_bind_ok ran]
      rfl

/-- An instruction that defines a value is written. -/
theorem instruction_renders {instruction : Ssa.Instruction}
    (idiomatic : instruction.Idiomatic function) (plain : instruction.isTerminator = false)
    (sustained : instruction.operation.Sustained function instruction.results)
    (typed : draft.operands.Typed function)
    (known : ∀ value ∈ instruction.operation.operands, draft.operands.Knows value)
    (fresh : ∀ value ∈ instruction.results, ¬ draft.operands.Knows value) :
    ∃ later written, (Drafting.instruction function instruction).run draft =
        .ok ((), ⟨draft.label, later, draft.assignments ++ written.toArray, draft.terminator⟩) ∧
      Renders function later draft.label draft.assignments.size instruction written ∧
      draft.operands.Gains function instruction.results later := by
  obtain ⟨results, operation, stray⟩ := instruction
  obtain ⟨types, proper, typings⟩ := idiomatic
  simp only at proper typings known fresh sustained
  cases proper with
  | @constant value =>
      obtain _ | ⟨typing, _ | _⟩ := typings
      rename_i result
      have gains := Operands.Gains.single (.constant .word value)
        (fresh result List.mem_cons_self) typed typing rfl
      refine ⟨_, [], ?_, .constant (by simp), gains⟩
      simp only [Drafting.instruction]
      rfl
  | @arithmetic operation left right onLeft onRight =>
      obtain _ | ⟨typing, _ | _⟩ := typings
      rename_i result
      have gains := Operands.Gains.single (.result (.value result) .word)
        (fresh result List.mem_cons_self) typed typing rfl
      obtain ⟨first, foundLeft⟩ := known left (by simp [Ssa.Operation.operands])
      obtain ⟨second, foundRight⟩ := known right (by simp [Ssa.Operation.operands])
      refine ⟨_, _, ?_,
        .arithmetic (gains.within _ _ foundLeft) (gains.within _ _ foundRight) (by simp), gains⟩
      simp only [Drafting.instruction]
      rw [run_bind_ok (run_operand foundLeft), run_bind_ok (run_operand foundRight), run_named,
        typed.width foundLeft onLeft]
      simp
  | @compare relation left right onLeft onRight =>
      obtain _ | ⟨typing, _ | _⟩ := typings
      rename_i result
      have gains := Operands.Gains.single (.result (.value result) .bit)
        (fresh result List.mem_cons_self) typed typing rfl
      obtain ⟨first, foundLeft⟩ := known left (by simp [Ssa.Operation.operands])
      obtain ⟨second, foundRight⟩ := known right (by simp [Ssa.Operation.operands])
      refine ⟨_, _, ?_,
        .compare (gains.within _ _ foundLeft) (gains.within _ _ foundRight) (by simp), gains⟩
      simp only [Drafting.instruction]
      rw [run_bind_ok (run_operand foundLeft), run_bind_ok (run_operand foundRight), run_named]
      simp
  | @signExtend value narrow =>
      obtain _ | ⟨typing, _ | _⟩ := typings
      rename_i result
      have gains := Operands.Gains.single (.result (.value result) .word)
        (fresh result List.mem_cons_self) typed typing rfl
      obtain ⟨operand, found⟩ := known value (by simp [Ssa.Operation.operands])
      refine ⟨_, _, ?_,
        .signExtend (gains.within _ _ found) (by simp), gains⟩
      simp only [Drafting.instruction]
      rw [run_bind_ok (run_operand found), run_named]
      simp
  | @load address word =>
      obtain _ | ⟨typing, _ | _⟩ := typings
      rename_i result
      have gains := Operands.Gains.single (.result (.value result) .word)
        (fresh result List.mem_cons_self) typed typing rfl
      obtain ⟨operand, found⟩ := known address (by simp [Ssa.Operation.operands])
      refine ⟨_, _, ?_,
        .load (gains.within _ _ found) (by simp), gains⟩
      simp only [Drafting.instruction]
      rw [run_bind_ok (run_operand found), displaced, if_pos rfl, pure_bind, Drafting.pointer,
        run_bind_ok (run_temporary _), run_named]
      exact congrArg (fun assignments => Except.ok ((), Draft.mk _ _ assignments _))
        (Array.ext' (by simp))
  | @slotAddress slot =>
      obtain _ | ⟨typing, _ | _⟩ := typings
      rename_i result
      have found := Array.getElem?_eq_getElem sustained.1
      have gains := Operands.Gains.single
        (.result (.temporary draft.label draft.assignments.size) .word)
        (fresh result List.mem_cons_self) typed typing rfl
      refine ⟨_, _, ?_,
        .slotAddress found (by simp), gains⟩
      simp only [Drafting.instruction]
      rw [run_bind_ok (run_slotPlace_zero found)]
      simp only [List.head?_cons, Array.push_eq_append]
      rfl
  | @slotStore value slot index word inside =>
      cases typings
      have found := Array.getElem?_eq_getElem sustained
      obtain ⟨operand, read⟩ := known value (by simp [Ssa.Operation.operands])
      by_cases behind : Lowering.wordOffset index = 0
      · rw [behind]
        refine ⟨_, _, ?_, .slotStart read found, .refl typed⟩
        simp only [Drafting.instruction]
        rw [run_bind_ok (run_operand read), run_bind_ok (run_slotPlace_zero found),
          Drafting.pointer, run_bind_ok (run_temporary _), run_assign]
        exact congrArg (fun assignments => Except.ok ((), Draft.mk _ _ assignments _))
          (Array.ext' (by simp))
      · refine ⟨_, _, ?_, .slotStore read found behind, .refl typed⟩
        simp only [Drafting.instruction]
        rw [run_bind_ok (run_operand read), run_bind_ok (run_slotPlace found behind),
          Drafting.pointer, run_bind_ok (run_temporary _), run_assign]
        exact congrArg (fun assignments => Except.ok ((), Draft.mk _ _ assignments _))
          (Array.ext' (by simp))
  | @call reference arguments external words found wanted given =>
      obtain _ | ⟨typing, _ | _⟩ := typings
      rename_i result
      have gains := Operands.Gains.single (.result (.value result) .word)
        (fresh result List.mem_cons_self) typed typing rfl
      rw [Ssa.Operation.operands] at known
      obtain ⟨inputs, read, ran⟩ := run_mapM_operand known
      refine ⟨_, _, ?_,
        .call (read.imp fun _ _ => gains.within _ _) found (by simp), gains⟩
      simp only [Drafting.instruction]
      rw [run_bind_ok ran]
      simp only [found]
      rw [run_named]
      simp [resultWidth, given]
  | branch | jump | ret => cases plain

theorem run_forM_cons {instruction : Ssa.Instruction} {behind : List Ssa.Instruction}
    {later : Draft}
    (ran : (Drafting.instruction function instruction).run draft = .ok ((), later)) :
    ((instruction :: behind).forM (Drafting.instruction function)).run draft =
      (behind.forM (Drafting.instruction function)).run later :=
  run_bind_ok ran

theorem run_condition {operand : Operand} (width : operand.width = .bit ∨ operand.width = .word) :
    operand.width = .bit ∧ (condition operand).run draft = .ok (operand, draft) ∨
      operand.width = .word ∧ (condition operand).run draft =
        .ok (.result (.temporary draft.label draft.assignments.size) .bit, { draft with
          assignments := draft.assignments.push
            ⟨some (.temporary draft.label draft.assignments.size),
              .compare .notEqual operand (.constant .word 0)⟩ }) := by
  rw [condition]
  rcases width with narrow | wide
  · exact .inl ⟨narrow, by rw [if_pos narrow]; rfl⟩
  · refine .inr ⟨wide, ?_⟩
    rw [if_neg (by rw [wide]; decide), run_bind_ok (run_temporary _)]
    rfl

/-- An instruction that ends a block is written. -/
theorem instruction_closes {instruction : Ssa.Instruction}
    (idiomatic : instruction.Idiomatic function) (ends : instruction.isTerminator = true)
    (typed : draft.operands.Typed function)
    (known : ∀ value ∈ instruction.operation.operands, draft.operands.Knows value) :
    ∃ written terminator, (Drafting.instruction function instruction).run draft =
        .ok ((), ⟨draft.label, draft.operands, draft.assignments ++ written.toArray,
          some terminator⟩) ∧
      Closes draft.operands draft.label draft.assignments.size instruction written terminator := by
  obtain ⟨results, operation, stray⟩ := instruction
  obtain ⟨types, proper, _⟩ := idiomatic
  simp only at proper known
  cases proper with
  | @branch value type onTrue onFalse typing either apart =>
      obtain ⟨operand, found⟩ := known value (by simp [Ssa.Operation.operands])
      have width : operand.width = .bit ∨ operand.width = .word := by
        rw [typed.width found typing]
        rcases either with rfl | rfl
        · exact .inl rfl
        · exact .inr rfl
      have different : ¬ (onTrue.block = onFalse.block ∧ ¬ onTrue.arguments.isEmpty) :=
        fun same => apart same.1
      obtain ⟨narrow, ran⟩ | ⟨wide, ran⟩ := @run_condition draft _ width
      · refine ⟨[], _, ?_, .branch found narrow⟩
        simp only [Drafting.instruction]
        rw [run_bind_ok (run_operand found)]
        rw [run_bind_ok (run_get draft), if_neg different, run_bind_ok ran, run_terminate]
        simp
      · refine ⟨_, _, ?_, .test found wide⟩
        simp only [Drafting.instruction]
        rw [run_bind_ok (run_operand found)]
        rw [run_bind_ok (run_get draft), if_neg different, run_bind_ok ran, run_terminate]
        simp
  | @jump target =>
      refine ⟨[], _, ?_, .jump⟩
      simp only [Drafting.instruction, run_terminate]
      simp
  | @ret value word =>
      obtain ⟨operand, found⟩ := known value (by simp [Ssa.Operation.operands])
      refine ⟨[], _, ?_, .ret found⟩
      simp only [Drafting.instruction, List.mapM_cons, List.mapM_nil, pure_bind, bind_assoc]
      rw [run_bind_ok (run_operand found), run_terminate]
      simp
  | _ => cases ends

theorem results_of_ends {instruction : Ssa.Instruction} (idiomatic : instruction.Idiomatic function)
    (ends : instruction.isTerminator = true) : instruction.results = [] := by
  obtain ⟨results, operation, stray⟩ := instruction
  obtain ⟨types, proper, typings⟩ := idiomatic
  simp only at proper typings
  cases proper with
  | branch | jump | ret =>
      cases typings
      rfl
  | _ => cases ends

/-- The instructions of a block are written. -/
theorem instructions_render {instructions : List Ssa.Instruction}
    (idiomatic : ∀ instruction ∈ instructions, instruction.Idiomatic function)
    (sustained : ∀ instruction ∈ instructions,
      instruction.operation.Sustained function instruction.results)
    (terminated : instructions.getLast?.any Ssa.Instruction.isTerminator = true)
    (only : ∀ before instruction behind, instructions = before ++ instruction :: behind →
      instruction.isTerminator = true → behind = [])
    (typed : draft.operands.Typed function)
    (known : ∀ before instruction behind, instructions = before ++ instruction :: behind →
      ∀ value ∈ instruction.operation.operands,
        draft.operands.Knows value ∨ value ∈ before.flatMap Ssa.Instruction.results)
    (fresh : ∀ value ∈ instructions.flatMap Ssa.Instruction.results, ¬ draft.operands.Knows value)
    (nodup : (instructions.flatMap Ssa.Instruction.results).Nodup) :
    ∃ later written terminator, (instructions.forM (Drafting.instruction function)).run draft =
        .ok ((), ⟨draft.label, later, draft.assignments ++ written.toArray, some terminator⟩) ∧
      RendersAll function later draft.label draft.assignments.size instructions written
        terminator ∧
      draft.operands.Gains function (instructions.flatMap Ssa.Instruction.results) later := by
  induction instructions generalizing draft with
  | nil => cases terminated
  | cons instruction behind induction =>
      rw [List.forall_mem_cons] at idiomatic sustained
      have here := known [] instruction behind rfl
      simp only [List.flatMap_nil, List.not_mem_nil, or_false] at here
      cases ends : instruction.isTerminator with
      | true =>
          cases only [] instruction behind rfl ends
          obtain ⟨written, terminator, ran, closes⟩ :=
            instruction_closes idiomatic.1 ends typed here
          refine ⟨_, written, terminator, run_forM_cons ran, .close closes, ?_⟩
          rw [List.flatMap_singleton, results_of_ends idiomatic.1 ends]
          exact .refl typed
      | false =>
          rw [List.flatMap_cons] at fresh nodup ⊢
          rw [List.nodup_append] at nodup
          obtain ⟨middle, written, ran, renders, gains⟩ :=
            instruction_renders idiomatic.1 ends sustained.1 typed here fun value member =>
              fresh value (List.mem_append_left _ member)
          have terminatedThen : behind.getLast?.any Ssa.Instruction.isTerminator = true := by
            cases behind with
            | nil => simp [ends] at terminated
            | cons second rest => exact terminated
          have onlyThen : ∀ before other rest, behind = before ++ other :: rest →
              other.isTerminator = true → rest = [] := fun before other rest split =>
            only (instruction :: before) other rest (congrArg (instruction :: ·) split)
          have knownThen : ∀ before other rest, behind = before ++ other :: rest →
              ∀ value ∈ other.operation.operands,
                middle.Knows value ∨ value ∈ before.flatMap Ssa.Instruction.results := by
            intro before other rest split value operand
            rw [gains.knows, or_assoc]
            have reads := known (instruction :: before) other rest
              (congrArg (instruction :: ·) split) value operand
            rwa [List.flatMap_cons, List.mem_append] at reads
          have freshThen : ∀ value ∈ behind.flatMap Ssa.Instruction.results,
              ¬ middle.Knows value := by
            intro value member
            rw [gains.knows, not_or]
            exact ⟨fresh value (List.mem_append_right _ member),
              fun early => nodup.2.2 value early value member rfl⟩
          obtain ⟨later, more, terminator, ranThen, rendersThen, gainsThen⟩ :=
            @induction ⟨draft.label, middle, draft.assignments ++ written.toArray,
              draft.terminator⟩ idiomatic.2 sustained.2 terminatedThen onlyThen gains.typed
              knownThen freshThen nodup.2.1
          refine ⟨later, written ++ more, terminator, ?_, ?_, gains.trans gainsThen⟩
          · rw [run_forM_cons ran, ranThen]
            simp
          · rw [Array.size_append, List.size_toArray] at rendersThen
            exact .cons (renders.within gainsThen.within) rendersThen

end Drafting

end ExprLang.Llvm
