import ExprLang.Proofs.Ssa.Deed

/-!
# Requests

What each step of building does. A lemma that ends in `_run` says what comes out if the
conditions are met that the builder checks, and one that ends in `_inv` says that they were met,
and that there was no misuse before, if there is none afterwards.
-/

namespace ExprLang.Ssa

namespace Builder

variable (builder : Builder)

theorem misuse_blame_ne (misuse : Misuse) : (builder.blame misuse).misuse ≠ none := by
  simp [blame]

@[simp] theorem misuse_withCurrent (label : Label) :
    (builder.withCurrent label).misuse = builder.misuse := by
  simp only [withCurrent]
  split <;> rfl

@[simp] theorem misuse_withEdges (label : Label) (side : Nat) (destinations : List Destination) :
    (builder.withEdges label side destinations).misuse = builder.misuse := by
  induction destinations generalizing builder side with
  | nil => rfl
  | cons destination rest induction =>
      rw [withEdges, induction]
      rfl

def MayLeave : Prop :=
  ∀ old, builder.current = some old →
    (builder.function.block old).instructions = [] ∨
      (builder.function.block old).isTerminated = true

end Builder

namespace Build

variable {builder : Builder}

/-! ## Blocks -/

theorem switchTo_run {label : Label} (inside : builder.hasBlock label = true)
    (left : builder.MayLeave) :
    (switchTo label).run builder = ((), builder.withCurrent label) := by
  simp only [switchTo, StateT.run_bind, StateT.run_get, pure_bind, inside, if_true]
  cases now : builder.current with
  | none => rfl
  | some old =>
      have fine : (!(builder.function.block old).instructions.isEmpty &&
          !(builder.function.block old).isTerminated) = false := by
        rcases left old now with empty | terminated
        · simp [empty]
        · simp [terminated]
      simp only [fine]
      rfl

theorem switchTo_inv {label : Label}
    (good : ((switchTo label).run builder).2.misuse = none) :
    builder.misuse = none ∧ builder.hasBlock label = true ∧ builder.MayLeave := by
  by_cases inside : builder.hasBlock label
  · by_cases left : builder.MayLeave
    · rw [switchTo_run inside left] at good
      exact ⟨by simpa using good, inside, left⟩
    · exfalso
      simp only [Builder.MayLeave, not_forall, not_or] at left
      obtain ⟨old, now, filled, unfinished⟩ := left
      have bad : (!(builder.function.block old).instructions.isEmpty &&
          !(builder.function.block old).isTerminated) = true := by
        simp [filled, unfinished]
      simp only [switchTo, StateT.run_bind, StateT.run_get, pure_bind, inside, if_true, now, bad]
        at good
      have blamed : ((builder.blame (.leftUnterminated old label)).withCurrent label).misuse =
          none := good
      rw [Builder.misuse_withCurrent] at blamed
      exact builder.misuse_blame_ne _ blamed
  · exfalso
    simp only [switchTo, StateT.run_bind, StateT.run_get, pure_bind, inside] at good
    exact builder.misuse_blame_ne _ good

theorem appendParameter_run {label : Label} (type : MachineType)
    (inside : builder.hasBlock label = true)
    (ready : (builder.state label).pending = []) :
    (appendParameter label type).run builder =
      (builder.nextValue, builder.withParameter label type) := by
  simp only [appendParameter, StateT.run_bind, StateT.run_get, pure_bind, inside, if_true, ready]
  rfl

theorem appendParameter_inv {label : Label} {type : MachineType}
    (good : ((appendParameter label type).run builder).2.misuse = none) :
    builder.misuse = none ∧ builder.hasBlock label = true ∧
      (builder.state label).pending = [] := by
  by_cases inside : builder.hasBlock label
  · by_cases ready : (builder.state label).pending = []
    · rw [appendParameter_run type inside ready] at good
      exact ⟨good, inside, ready⟩
    · exfalso
      have bad : (!(builder.state label).pending.isEmpty) = true := by simp [ready]
      simp only [appendParameter, StateT.run_bind, StateT.run_get, pure_bind, inside, if_true,
        bad] at good
      exact builder.misuse_blame_ne _ good
  · exfalso
    simp only [appendParameter, StateT.run_bind, StateT.run_get, pure_bind, inside] at good
    exact builder.misuse_blame_ne _ good

theorem parameters_run {label : Label} (inside : builder.hasBlock label = true) :
    (parameters label).run builder = ((builder.function.block label).parameters, builder) := by
  simp only [parameters, StateT.run_bind, StateT.run_get, pure_bind, inside, if_true]
  rfl

theorem parameters_inv {label : Label}
    (good : ((parameters label).run builder).2.misuse = none) :
    builder.misuse = none ∧ builder.hasBlock label = true := by
  by_cases inside : builder.hasBlock label
  · rw [parameters_run inside] at good
    exact ⟨good, inside⟩
  · exfalso
    simp only [parameters, StateT.run_bind, StateT.run_get, pure_bind, inside] at good
    exact builder.misuse_blame_ne _ good

/-! ## Variables -/

theorem declareVariable_run {var : Variable} (type : MachineType)
    (unknown : builder.declared.lookup var = none) :
    (declareVariable var type).run builder =
      ((), { builder with declared := builder.declared ++ [(var, type)] }) := by
  simp only [declareVariable, StateT.run_bind, StateT.run_get, pure_bind, unknown]
  rfl

theorem declareVariable_inv {var : Variable} {type : MachineType}
    (good : ((declareVariable var type).run builder).2.misuse = none) :
    builder.misuse = none ∧ builder.declared.lookup var = none := by
  cases unknown : builder.declared.lookup var with
  | none =>
      rw [declareVariable_run type unknown] at good
      exact ⟨good, rfl⟩
  | some _ =>
      exfalso
      simp only [declareVariable, StateT.run_bind, StateT.run_get, pure_bind, unknown] at good
      exact builder.misuse_blame_ne _ good

theorem defineVariable_run {var : Variable} {value : Value} {type : MachineType} {label : Label}
    (current : builder.current = some label)
    (declared : builder.declared.lookup var = some type)
    (typed : builder.function.type? value = some type) :
    (defineVariable var value).run builder = ((), builder.withKnown label var value) := by
  simp only [defineVariable, StateT.run_bind, StateT.run_get, pure_bind, current, declared,
    typed, if_true]
  rfl

theorem defineVariable_inv {var : Variable} {value : Value}
    (good : ((defineVariable var value).run builder).2.misuse = none) :
    builder.misuse = none ∧ ∃ type label, builder.current = some label ∧
      builder.declared.lookup var = some type ∧ builder.function.type? value = some type := by
  cases declared : builder.declared.lookup var with
  | none =>
      exfalso
      simp only [defineVariable, StateT.run_bind, StateT.run_get, pure_bind, declared] at good
      exact builder.misuse_blame_ne _ good
  | some type =>
      cases current : builder.current with
      | none =>
          exfalso
          simp only [defineVariable, StateT.run_bind, StateT.run_get, pure_bind, declared,
            current] at good
          exact builder.misuse_blame_ne _ good
      | some label =>
          by_cases typed : builder.function.type? value = some type
          · rw [defineVariable_run current declared typed] at good
            exact ⟨good, type, label, rfl, rfl, typed⟩
          · exfalso
            simp only [defineVariable, StateT.run_bind, StateT.run_get, pure_bind, declared,
              current, typed, if_false] at good
            exact builder.misuse_blame_ne _ good

def fuel (builder : Builder) : Nat :=
  (builder.function.blocks.size + 1) * (builder.function.blocks.size + 1) + 1

theorem lookupFuel_run : lookupFuel.run builder = pure (fuel builder, builder) := rfl

theorem useVariable_run {var : Variable} {type : MachineType} {label : Label}
    (current : builder.current = some label)
    (declared : builder.declared.lookup var = some type) :
    (useVariable var).run builder =
      (lookup var type (fuel builder) label).run builder := by
  simp only [useVariable, StateT.run_bind, StateT.run_get, pure_bind, declared, current,
    lookupFuel_run]

theorem useVariable_inv {var : Variable}
    (good : ((useVariable var).run builder).2.misuse = none) :
    builder.misuse = none ∧ ∃ type label, builder.current = some label ∧
      builder.declared.lookup var = some type := by
  cases declared : builder.declared.lookup var with
  | none =>
      exfalso
      simp only [useVariable, StateT.run_bind, StateT.run_get, pure_bind, declared] at good
      exact builder.misuse_blame_ne _ good
  | some type =>
      cases current : builder.current with
      | none =>
          exfalso
          simp only [useVariable, StateT.run_bind, StateT.run_get, pure_bind, declared,
            current] at good
          exact builder.misuse_blame_ne _ good
      | some label =>
          rw [useVariable_run current declared] at good
          exact ⟨lookup_misuse var type _ label builder good, type, label, rfl, rfl⟩

/-! ## Slots and references -/

theorem importFunction_known {module : Module} {id : FunctionId} {reference : Reference}
    (known : builder.imports.lookup id = some reference) :
    (importFunction module id).run builder = (reference, builder) := by
  simp only [importFunction, StateT.run_bind, StateT.run_get, pure_bind, known]
  rfl

theorem importFunction_run {module : Module} {id : FunctionId} {declaration : Declaration}
    (unknown : builder.imports.lookup id = none)
    (found : module.declaration? id = some declaration) :
    (importFunction module id).run builder =
      (⟨builder.function.references.size⟩,
        { builder with
          function := { builder.function with
            references := builder.function.references.push
              ⟨id, declaration.name, declaration.prototype⟩ }
          imports := (id, ⟨builder.function.references.size⟩) :: builder.imports }) := by
  simp only [importFunction, StateT.run_bind, StateT.run_get, pure_bind, unknown, found]
  rfl

theorem importFunction_inv {module : Module} {id : FunctionId}
    (good : ((importFunction module id).run builder).2.misuse = none) :
    builder.misuse = none ∧ ((∃ reference, builder.imports.lookup id = some reference) ∨
      (builder.imports.lookup id = none ∧
        ∃ declaration, module.declaration? id = some declaration)) := by
  cases known : builder.imports.lookup id with
  | some reference =>
      rw [importFunction_known known] at good
      exact ⟨good, .inl ⟨reference, rfl⟩⟩
  | none =>
      cases found : module.declaration? id with
      | none =>
          exfalso
          simp only [importFunction, StateT.run_bind, StateT.run_get, pure_bind, known, found]
            at good
          exact builder.misuse_blame_ne _ good
      | some declaration =>
          rw [importFunction_run known found] at good
          exact ⟨good, .inr ⟨rfl, declaration, rfl⟩⟩

/-! ## Instructions -/

theorem createResults_run (label : Label) (types : List MachineType) :
    (createResults label types).run builder =
      (builder.nextValues types.length, builder.withValues label types) := by
  induction types generalizing builder with
  | nil => simp [createResults, Builder.nextValues, Builder.withValues, StateT.run_pure]; rfl
  | cons type rest induction =>
      have tail := @induction (builder.newValue ⟨type, false, label⟩).2
      have unfolded : (createResults label (type :: rest)).run builder =
          (builder.nextValue :: ((createResults label rest).run
              (builder.newValue ⟨type, false, label⟩).2).1,
            ((createResults label rest).run (builder.newValue ⟨type, false, label⟩).2).2) := rfl
      rw [unfolded, tail]
      simp [Builder.newValue, Builder.nextValue, Builder.nextValues, Builder.withValues,
        List.range'_succ]

theorem forM_cons_run (step : α → Build Unit) (item : α) (items : List α) :
    ((item :: items).forM step).run builder =
      (items.forM step).run ((step item).run builder).2 := rfl

theorem checkOperands_inv {values : List Value} {missing : Value → Bool}
    {misuse : Value → Misuse}
    (good : ((values.forM fun value =>
      if missing value then blame (misuse value) else return).run builder).2.misuse = none) :
    builder.misuse = none ∧ ∀ value ∈ values, missing value = false := by
  induction values generalizing builder with
  | nil => exact ⟨good, by simp⟩
  | cons value rest induction =>
      cases absent : missing value with
      | true =>
          exfalso
          simp only [forM_cons_run, absent, if_true] at good
          have before := (@induction (builder.blame (misuse value)) good).1
          exact builder.misuse_blame_ne _ before
      | false =>
          simp only [forM_cons_run, absent] at good
          obtain ⟨before, present⟩ := @induction builder good
          exact ⟨before, by simpa [absent] using present⟩

theorem checkOperands_run {values : List Value} {missing : Value → Bool}
    {misuse : Value → Misuse} (present : ∀ value ∈ values, missing value = false) :
    (values.forM fun value =>
      if missing value then blame (misuse value) else return).run builder = ((), builder) := by
  induction values with
  | nil => rfl
  | cons value rest induction =>
      have first := present value List.mem_cons_self
      have others := induction fun later member =>
        present later (List.mem_cons_of_mem value member)
      simp only [forM_cons_run, first]
      exact others

def appended (builder : Builder) (label : Label) (operation : Operation)
    (types : List MachineType) : Builder :=
  (builder.withValues label types).modifyBlock label fun block =>
    { block with
      instructions := block.instructions ++
        [{ results := builder.nextValues types.length, operation }] }

theorem emit_eq {operation : Operation} (types : List MachineType) {label : Label}
    (current : builder.current = some label)
    (unfinished : (builder.function.block label).isTerminated = false) :
    (emit operation types).run builder =
      let checked := ((operation.operands.forM fun value =>
        if (builder.function.value? value).isNone then
          blame (.unknownOperand operation.opcode value)
        else return).run builder).2
      (checked.nextValues types.length, appended checked label operation types) := by
  simp only [emit, StateT.run_bind, StateT.run_get, pure_bind, current, unfinished]
  have created (checked : Builder) := @createResults_run checked label types
  exact congrArg (fun results : List Value × Builder => (results.1,
    results.2.modifyBlock label fun block =>
      { block with
        instructions := block.instructions ++ [{ results := results.1, operation }] }))
    (created _)

theorem emit_run {operation : Operation} (types : List MachineType) {label : Label}
    (current : builder.current = some label)
    (unfinished : (builder.function.block label).isTerminated = false)
    (operands : ∀ value ∈ operation.operands,
      (builder.function.value? value).isSome = true) :
    (emit operation types).run builder =
      (builder.nextValues types.length, appended builder label operation types) := by
  rw [emit_eq types current unfinished, checkOperands_run]
  intro value member
  simpa using operands value member

theorem emit_inv {operation : Operation} {types : List MachineType}
    (good : ((emit operation types).run builder).2.misuse = none) :
    builder.misuse = none ∧ ∃ label, builder.current = some label ∧
      (builder.function.block label).isTerminated = false ∧
      ∀ value ∈ operation.operands, (builder.function.value? value).isSome = true := by
  cases current : builder.current with
  | none =>
      exfalso
      simp only [emit, StateT.run_bind, StateT.run_get, pure_bind, current] at good
      exact builder.misuse_blame_ne _ good
  | some label =>
      cases unfinished : (builder.function.block label).isTerminated with
      | true =>
          exfalso
          simp only [emit, StateT.run_bind, StateT.run_get, pure_bind, current, unfinished]
            at good
          exact builder.misuse_blame_ne _ good
      | false =>
          rw [emit_eq types current unfinished] at good
          obtain ⟨before, present⟩ := checkOperands_inv good
          refine ⟨before, label, rfl, unfinished, ?_⟩
          intro value member
          simpa using present value member

end Build

end ExprLang.Ssa
