import ExprLang.Proofs.Lowering.Opening

/-!
# Bodies of functions

A body is lowered behind the binding of the parameters, and its value is returned. By then every
block is sealed.
-/

namespace ExprLang

def TypedDefinition.parameterNames (definition : TypedDefinition) : List String :=
  (definition.parameters.map TypedParameter.name).reverse

namespace Lowering

open Ssa

inductive BindsAll : List String → List Value → Stage → Stage → Prop
  | nil {stage : Stage} : BindsAll [] [] stage stage
  | cons {name : String} {names : List String} {value : Value} {values : List Value}
      {first middle last : Stage} (binds : Binds name value first middle)
      (rest : BindsAll names values middle last) :
      BindsAll (name :: names) (value :: values) first last

inductive Compiles (setting : Setting) (definition : TypedDefinition) (id : FunctionId)
    (declaration : Declaration) : (bound lowered : Stage) → Value → Stage → Prop
  | intro {bound lowered last : Stage} {result : Value}
      (binds : BindsAll (definition.parameters.map TypedParameter.name)
        (Stage.inputs declaration) (Stage.opened id declaration) bound)
      (lowers : Lowers setting (.expression definition.body) bound [result] lowered)
      (returns : Does [.emit (.ret [result]) []] lowered last) :
      Compiles setting definition id declaration bound lowered result last

namespace BindsAll

variable {setting : Setting} {names others : List String} {values : List Value}
  {first last : Stage}

theorem reaches (binds : BindsAll names values first last) : Reaches first last := by
  induction binds with
  | nil => exact ⟨_, .nil⟩
  | cons binds _ induction => exact binds.reaches.trans induction

theorem tabled (binds : BindsAll names values first last) :
    ∀ {others}, Tabled setting others first → Tabled setting (names.reverse ++ others) last := by
  induction binds with
  | nil =>
      intro others tabled
      exact tabled
  | cons binds _ induction =>
      intro others tabled
      have later := induction (binds.tabled tabled)
      simpa using later

theorem flows (binds : BindsAll names values first last) {source : Label}
    (active : first.shape.Active source) :
    Shape.Flows source source first.shape last.shape := by
  induction binds with
  | nil => exact .refl active
  | cons binds _ induction =>
      have flows := binds.flows active
      exact flows.trans (induction flows.active)

theorem ready (binds : BindsAll names values first last) (ready : Ready setting others first)
    (clean : last.recording.builder.misuse = none) :
    Ready setting (names.reverse ++ others) last := by
  obtain ⟨source, active⟩ := ready.active
  exact ready.flows binds.reaches (binds.tabled ready.tabled) (binds.flows active) clean

end BindsAll

/-! ## The walk -/

theorem Honest.bindParameters (parameters : List TypedParameter) (values : List Value) :
    Honest (Lowering.bindParameters parameters values) := by
  induction parameters generalizing values with
  | nil => simp [Lowering.bindParameters]
  | cons parameter parameters induction =>
      cases values with
      | nil => simp [Lowering.bindParameters]
      | cons value values =>
          rw [Lowering.bindParameters]
          exact .bind (.bindName _ _) fun _ => induction values

@[simp] theorem Honest.sealAll : Honest (Lowering.build Build.sealAll) :=
  .build fun _ clean => Build.forM_misuse Build.sealOnce_misuse _ _ clean

namespace Meets

variable {sure : Prop} {setting : Setting} {stage : Stage}

theorem bindParameters (parameters : List TypedParameter) {values : List Value}
    {names : List String} (ready : Ready setting names stage)
    (typed : ∀ value ∈ values, stage.HasType value .i64)
    (length : values.length = parameters.length) :
    Meets sure (Lowering.bindParameters parameters values) stage fun _ last =>
      BindsAll (parameters.map TypedParameter.name) values stage last := by
  induction parameters generalizing values names stage with
  | nil =>
      cases List.length_eq_zero_iff.mp length
      simp only [Lowering.bindParameters]
      exact .pure ready.clean .nil
  | cons parameter parameters induction =>
      cases values with
      | nil => cases length
      | cons value values =>
          rw [Lowering.bindParameters]
          refine .andThen (fun _ => .bindParameters _ _)
            (bindName ready (typed value List.mem_cons_self)) ?_
          intro _ middle clean binds
          refine (induction (binds.ready ready clean) ?_ (by simpa using length)).mono ?_
          · intro later member
            exact (typed later (List.mem_cons_of_mem _ member)).reaches binds.reaches
          · intro _ last rest
            exact .cons binds rest

theorem exactly {step : Build α} {rest : α → Lower β} {goal : β → Stage → Prop} {value : α}
    {later : Recording} (ran : step.run stage.recording.builder = (value, later.builder))
    (meets : Meets sure (rest value) { stage with recording := later } goal) :
    Meets sure (Lowering.build step >>= rest) stage goal := by
  have same : (Lowering.build step >>= rest).run stage.state =
      (rest value).run ({ stage with recording := later } : Stage).state := by
    rw [StateT.run_bind, build_run]
    simp only [Stage.state, ran]
    rfl
  rw [Meets, same]
  exact meets

theorem idle {step : Build Unit} {goal : Unit → Stage → Prop}
    (ran : step.run stage.recording.builder = ((), stage.recording.builder))
    (clean : stage.recording.builder.misuse = none) (holds : goal () stage) :
    Meets sure (Lowering.build step) stage goal := by
  refine .build ?_ fun _ => ⟨stage.recording, ?_, holds⟩
  · intro _
    rw [ran]
    exact clean
  · rw [ran]

end Meets

theorem sealAll_run {builder : Builder}
    (closed : ∀ index < builder.states.size, (builder.state ⟨index⟩).isSealed = true) :
    Build.sealAll.run builder = ((), builder) := by
  have each : ∀ indices : List Nat, (∀ index ∈ indices,
      (builder.state ⟨index⟩).isSealed = true) →
      (indices.forM Build.sealOnce).run builder = ((), builder) := by
    intro indices
    induction indices with
    | nil => exact fun _ => rfl
    | cons index rest induction =>
        intro all
        rw [Build.forM_cons_run, Build.sealOnce_sealed (all index List.mem_cons_self)]
        exact induction fun later member => all later (List.mem_cons_of_mem _ member)
  exact each _ fun index member => closed index (List.mem_range.mp member)

/-! ## The blocks of a body -/

section Blocks

variable {setting : Setting} {definition : TypedDefinition} {id : FunctionId}
  {declaration : Declaration} {bound lowered last : Stage} {result : Value}

theorem body_flows
    (binds : BindsAll (definition.parameters.map TypedParameter.name)
      (Stage.inputs declaration) (Stage.opened id declaration) bound)
    (lowers : Lowers setting (.expression definition.body) bound [result] lowered) :
    ∃ target, Shape.Flows firstBlock target (Stage.opened id declaration).shape lowered.shape := by
  have sound := (Stage.ready_opened id declaration setting).sound
  have bindFlows := binds.flows (Stage.active_opened id declaration)
  obtain ⟨target, flows⟩ := lowers.flows (binds.reaches.sound sound) bindFlows.active
  exact ⟨target, bindFlows.trans flows⟩

/-- Every block of a part that starts with the entry is placed and sealed, and control can come to
it. -/
theorem opened_blocks {target label : Label} {shape : Shape}
    (flows : Shape.Flows firstBlock target (Stage.opened id declaration).shape shape)
    (inside : label.index < shape.blocks) :
    shape.isPlaced label = true ∧ shape.isSealed label = true ∧ shape.Leads firstBlock label := by
  by_cases first : label = firstBlock
  · subst first
    have old : firstBlock.index < (Stage.opened id declaration).shape.blocks := by
      rw [Stage.shape_opened]
      exact Nat.zero_lt_one
    rw [flows.apart.isPlaced _ old, flows.apart.isSealed _ old, Stage.shape_opened]
    exact ⟨by simp, by simp, .refl⟩
  · have outside : (Stage.opened id declaration).shape.blocks ≤ label.index := by
      rw [Stage.shape_opened]
      refine Nat.one_le_iff_ne_zero.mpr fun zero => first ?_
      rw [Label.eq_iff]
      exact zero
    obtain ⟨inner, _⟩ := flows.inner label outside inside
    exact ⟨inner.isPlaced, inner.isSealed, inner.reached⟩

/-- Every block is placed and sealed, and control can come to it. -/
theorem body_blocks
    (binds : BindsAll (definition.parameters.map TypedParameter.name)
      (Stage.inputs declaration) (Stage.opened id declaration) bound)
    (lowers : Lowers setting (.expression definition.body) bound [result] lowered)
    {label : Label} (inside : label.index < lowered.shape.blocks) :
    lowered.shape.isPlaced label = true ∧ lowered.shape.isSealed label = true ∧
      lowered.shape.Leads firstBlock label := by
  obtain ⟨target, flows⟩ := body_flows binds lowers
  exact opened_blocks flows inside

end Blocks

/-- A body is lowered as it should be. -/
theorem Meets.body {setting : Setting} (uniform : setting.Uniform) (definition : TypedDefinition)
    (id : FunctionId) (declaration : Declaration)
    (words : declaration.prototype.parameters = definition.parameters.map fun _ => .i64) :
    Meets (Suited setting.arity definition.parameterNames definition.body)
      (Lowering.body setting definition) (Stage.start id declaration) fun _ last =>
        ∃ bound lowered result, last.recording.builder.misuse = none ∧
          Compiles setting definition id declaration bound lowered result last := by
  have ready := Stage.ready_opened id declaration setting
  have count : (Stage.inputs declaration).length = definition.parameters.length := by
    simp [Stage.inputs, words]
  have typed : ∀ value ∈ Stage.inputs declaration,
      (Stage.opened id declaration).HasType value .i64 := by
    have typed := Stage.haveTypes_opened id declaration
    rw [words] at typed
    intro value member
    obtain ⟨type, inside, holds⟩ := forall₂_mem_left typed member
    obtain ⟨_, _, rfl⟩ := List.mem_map.mp inside
    exact holds
  rw [Lowering.body]
  refine .exactly (show Build.createBlock.run (Stage.start id declaration).recording.builder =
    (firstBlock, (Recording.start id declaration).create.builder) from rfl) ?_
  refine @Meets.exactly _ _ _ _ _ _ _ () (Stage.made id declaration)
    (Recording.append_run _ (Stage.hasBlock_create id declaration)
      (by rw [Stage.state_create]; rfl)) ?_
  refine @Meets.exactly _ _ _ _ _ _ _ () (Stage.entered id declaration)
    (Build.switchTo_run (Stage.hasBlock_made id declaration) (Stage.mayLeave_made id declaration))
    ?_
  refine @Meets.exactly _ _ _ _ _ _ _ () (Stage.opened id declaration).recording
    (Stage.seal_run id declaration) ?_
  refine @Meets.exactly _ _ _ _ _ _ _ (Stage.inputs declaration)
    (Stage.opened id declaration).recording ?_ ?_
  · rw [← Stage.parameters_opened id declaration]
    refine Build.parameters_run ?_
    rw [Recording.hasBlock_iff]
    change firstBlock.index < (Stage.opened id declaration).shape.blocks
    rw [Stage.shape_opened]
    exact Nat.zero_lt_one
  change Meets _ _ (Stage.opened id declaration) _
  refine .andThen (fun _ => .bind (.expression _ _) fun _ => .bind (.ret _) fun _ => .sealAll)
    (bindParameters definition.parameters ready typed count) ?_
  intro _ bound clean binds
  have readyBound := binds.ready ready clean
  rw [List.append_nil] at readyBound
  refine .andThen (fun _ => .bind (.ret _) fun _ => .sealAll)
    (expression uniform definition.body readyBound) ?_
  intro result lowered cleanLowered lowers
  have readyLowered := lowers.ready readyBound cleanLowered
  refine .andThen (fun _ => .sealAll) (.emit (Build.ret_realizes [result]) rfl
    readyLowered.toSteady readyLowered.active fun _ => ⟨?_, rfl⟩) ?_
  · simpa [Operation.operands] using
      (lowers.hasType readyBound.sound readyBound.tabled result List.mem_cons_self).exist
  rintro _ last cleanLast ⟨_, returns⟩
  refine .idle (sealAll_run ?_) cleanLast ⟨bound, lowered, result, cleanLast,
    .intro binds lowers returns⟩
  intro index inside
  obtain ⟨target, active⟩ := readyLowered.active
  have shape := returns.emit_shape active.current
  rw [last.recording.balanced] at inside
  change index < last.shape.blocks at inside
  change last.shape.isSealed ⟨index⟩ = true
  rw [shape] at inside ⊢
  exact (body_blocks binds lowers inside).2.1

end Lowering

end ExprLang
