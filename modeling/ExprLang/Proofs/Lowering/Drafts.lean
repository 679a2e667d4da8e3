import ExprLang.Proofs.Lowering.Supply
import ExprLang.Proofs.Ssa.Unwinding
import ExprLang.Proofs.Typing.Rules

/-!
# Drafts of functions

An array may be too long for a slot. Then something is done wrong while its function is lowered,
and the accounts that presuppose that nothing is wrong do not say what the builder looks like
afterwards. But its blocks are made, filled, sealed and entered just the same. A draft is what is
known of a state of lowering even then.
-/

namespace ExprLang

namespace Ssa

/-! ## Builders that have a shape, right or wrong -/

namespace Shape

/-- The header of a loop is filled after the jump to it. -/
theorem active_header {shape : Shape} {source : Label} (bare : shape.Bare)
    (inside : source.index < shape.blocks) (counter round one : Value) :
    (((((shape.create.create.create.parameter ⟨shape.blocks⟩ counter).parameter
      ⟨shape.blocks + 1⟩ round).emit source ⟨[one], .constant .i64 1, []⟩).emit source
        ⟨[], .jump ⟨⟨shape.blocks⟩, [one]⟩, []⟩).switch ⟨shape.blocks⟩).Active
          ⟨shape.blocks⟩ where
  current := rfl
  inside := Nat.lt_add_of_pos_right (show 0 < 3 by decide)
  unfinished := by
    rintro ⟨instruction, member, -⟩
    have different : (⟨shape.blocks⟩ : Label) ≠ source := by
      rw [ne_eq, Label.eq_iff]
      exact Nat.ne_of_gt inside
    simp only [Shape.switch, Shape.emit, Shape.note, Shape.parameter, Shape.create,
      Function.update_of_ne different, bare.script ⟨shape.blocks⟩ (Nat.le_refl _)] at member
    cases member

/-- The blocks of a builder are those of a shape, as far as ways between them are concerned. Of
what happens in a block only its end matters. -/
structure Outlines (shape : Shape) (builder : Builder) : Prop where
  blocks : builder.function.blocks.size = shape.blocks
  size : builder.states.size = shape.blocks
  current : builder.current = shape.current
  isSealed : ∀ label, (builder.state label).isSealed = shape.isSealed label
  predecessors : ∀ label, (builder.state label).predecessors = shape.predecessors label
  isTerminated : ∀ label, (builder.function.block label).isTerminated = true ↔
    shape.Terminated label
  bare : shape.Bare

namespace Outlines

variable {shape : Shape} {builder later : Builder} {label source : Label}

theorem of_recording {recording : Recording} (sound : Sound recording) :
    recording.shape.Outlines recording.builder where
  blocks := rfl
  size := recording.balanced
  current := rfl
  isSealed _ := rfl
  predecessors _ := rfl
  isTerminated := Recording.terminated_iff sound
  bare := Recording.bare sound

theorem same (outlines : shape.Outlines builder) (same : builder.SameWays later) :
    shape.Outlines later where
  blocks := same.blocks.trans outlines.blocks
  size := same.size.trans outlines.size
  current := same.current.trans outlines.current
  isSealed label := (same.isSealed label).trans (outlines.isSealed label)
  predecessors label := (same.predecessors label).trans (outlines.predecessors label)
  isTerminated label := by rw [same.isTerminated, outlines.isTerminated]
  bare := outlines.bare

theorem misuse (outlines : shape.Outlines builder) (misuse : Option Misuse) :
    shape.Outlines { builder with misuse } :=
  ⟨outlines.blocks, outlines.size, outlines.current, outlines.isSealed, outlines.predecessors,
    outlines.isTerminated, outlines.bare⟩

theorem hasBlock (outlines : shape.Outlines builder) :
    builder.hasBlock label = true ↔ label.index < shape.blocks := by
  simp [Builder.hasBlock, outlines.blocks]

theorem unwinds (outlines : shape.Outlines builder) (descends : shape.Descends) :
    builder.Unwinds := by
  refine Builder.unwinds_of_descends fun label edge closed edges => ?_
  rw [outlines.isSealed] at closed
  rw [outlines.predecessors] at edges
  exact descends label edge closed edges

theorem create (outlines : shape.Outlines builder) : shape.create.Outlines builder.withBlock where
  blocks := by simp [Builder.withBlock, Shape.create, outlines.blocks]
  size := by simp [Builder.withBlock, Shape.create, outlines.size]
  current := outlines.current
  isSealed label := by
    rw [Builder.state_withBlock]
    exact outlines.isSealed label
  predecessors label := by
    rw [Builder.state_withBlock]
    exact outlines.predecessors label
  isTerminated label := by
    rw [Builder.block_withBlock]
    exact outlines.isTerminated label
  bare :=
    have less {label : Label} (outside : shape.create.blocks ≤ label.index) :
        shape.blocks ≤ label.index := Nat.le_of_succ_le outside
    { script := fun label outside => outlines.bare.script label (less outside)
      isSealed := fun label outside => outlines.bare.isSealed label (less outside)
      isPlaced := fun label outside => outlines.bare.isPlaced label (less outside)
      predecessors := fun label outside => outlines.bare.predecessors label (less outside)
      explicit := fun label outside => outlines.bare.explicit label (less outside) }

theorem parameter (outlines : shape.Outlines builder) (inside : label.index < shape.blocks)
    (type : MachineType) (value : Value) :
    (shape.parameter label value).Outlines (builder.withParameter label type) := by
  have same := outlines.same (.withParameter builder label type)
  refine ⟨same.blocks, same.size, same.current, same.isSealed, same.predecessors,
    same.isTerminated, ⟨same.bare.script, same.bare.isSealed, same.bare.isPlaced,
    same.bare.predecessors, fun other outside => ?_⟩⟩
  have different : other ≠ label := fun equal => by
    rw [equal] at outside
    exact Nat.not_lt.mpr outside inside
  simpa [Shape.parameter, different] using outlines.bare.explicit other outside

theorem switch (outlines : shape.Outlines builder) (inside : label.index < shape.blocks) :
    (shape.switch label).Outlines (builder.withCurrent label) where
  blocks := by
    refine Eq.trans ?_ outlines.blocks
    simp only [Builder.withCurrent]
    split <;> rfl
  size := by
    refine Eq.trans ?_ outlines.size
    simp only [Builder.withCurrent]
    split <;> simp
  current := rfl
  isSealed other := by
    rw [Builder.isSealed_withCurrent]
    exact outlines.isSealed other
  predecessors other := by
    rw [Builder.predecessors_withCurrent]
    exact outlines.predecessors other
  isTerminated other := by
    rw [Builder.block_withCurrent]
    exact outlines.isTerminated other
  bare :=
    { outlines.bare with
      isPlaced := fun other outside => by
        have different : other ≠ label := fun equal => by
          rw [equal] at outside
          exact Nat.not_lt.mpr outside inside
        simpa [Shape.switch, different] using outlines.bare.isPlaced other outside }

theorem close (outlines : shape.Outlines builder) (inside : label.index < shape.blocks) :
    (shape.close label).Outlines (builder.withSeal label) where
  blocks := outlines.blocks
  size := by simpa [Builder.withSeal, Shape.close] using outlines.size
  current := outlines.current
  isSealed other := by
    rw [Builder.state_withSeal _ _ _ (by rw [outlines.size]; exact inside)]
    simp only [Shape.close, Function.update_apply, ← outlines.isSealed]
    split <;> rfl
  predecessors other := by
    rw [Builder.predecessors_withSeal]
    exact outlines.predecessors other
  isTerminated := outlines.isTerminated
  bare :=
    { outlines.bare with
      isSealed := fun other outside => by
        have different : other ≠ label := fun equal => by
          rw [equal] at outside
          exact Nat.not_lt.mpr outside inside
        simpa [Shape.close, different] using outlines.bare.isSealed other outside }

/-- An instruction is appended. -/
theorem emit (outlines : shape.Outlines builder) (active : shape.Active source)
    {operation : Operation} (types : List MachineType) (results : List Value)
    (targets : ∀ destination ∈ operation.destinations,
      destination.block.index < shape.blocks) :
    (shape.emit source ⟨results, operation, []⟩).Outlines
      (builder.withInstruction source operation types) where
  blocks := by
    rw [Builder.withInstruction, Builder.function_withEdges, Builder.blocks_size_modifyBlock]
    exact outlines.blocks
  size := by
    rw [Builder.withInstruction, Builder.states_size_withEdges]
    exact outlines.size
  current := by
    rw [Builder.withInstruction, Builder.current_withEdges]
    exact outlines.current
  isSealed other := by
    rw [Builder.isSealed_withInstruction]
    exact outlines.isSealed other
  predecessors other := by
    rw [Builder.state_withInstruction _ _ _ _ _ fun destination member => by
      rw [outlines.size]; exact targets destination member]
    change _ ++ _ = _ ++ _
    rw [outlines.predecessors]
  isTerminated other := by
    have inside : builder.hasBlock source = true := outlines.hasBlock.mpr active.inside
    rw [Builder.block_withInstruction _ _ _ _ _ inside]
    by_cases same : other = source
    · subst same
      have last : ∀ instructions : List Instruction, ∀ instruction,
          Block.isTerminated ⟨(builder.function.block other).parameters,
            instructions ++ [instruction]⟩ = instruction.isTerminator := by
        simp [Block.isTerminated]
      rw [if_pos rfl, last]
      constructor
      · exact fun ends => ⟨_, mem_emitted_emit.mpr (.inr ⟨rfl, rfl⟩), ends⟩
      · rintro ⟨instruction, member, ends⟩
        rcases mem_emitted_emit.mp member with old | ⟨-, rfl⟩
        · exact absurd ⟨instruction, old, ends⟩ active.unfinished
        · exact ends
    · rw [if_neg same, outlines.isTerminated]
      simp [Shape.Terminated, mem_emitted_emit, same]
  bare := by
    have elsewhere {other : Label} (outside : shape.blocks ≤ other.index) : other ≠ source :=
      fun equal => by
        rw [equal] at outside
        exact Nat.not_lt.mpr outside active.inside
    refine { outlines.bare with
      script := fun other outside => ?_
      predecessors := fun other outside => ?_ }
    · simpa [Shape.emit, Shape.note, elsewhere outside] using outlines.bare.script other outside
    · have none : Builder.edgesTo source other 0 operation.destinations = [] := by
        refine edgesTo_eq_nil 0 ?_
        rintro destination member rfl
        exact Nat.not_lt.mpr outside (targets destination member)
      simpa [Shape.emit, none] using outlines.bare.predecessors other outside

end Outlines

end Shape

namespace Build

variable {builder : Builder}

theorem useVariable_same (var : Variable) (builder : Builder) :
    builder.SameWays ((useVariable var).run builder).2 := by
  simp only [useVariable, StateT.run_bind, StateT.run_get, pure_bind]
  split
  · exact .blame builder _
  · exact .blame builder _
  · exact (lookup_follows var _ _ _ builder).toSameWays

theorem defineVariable_same (var : Variable) (value : Value) (builder : Builder) :
    builder.SameWays ((defineVariable var value).run builder).2 := by
  simp only [defineVariable, StateT.run_bind, StateT.run_get, pure_bind]
  split
  · exact .blame builder _
  · exact .blame builder _
  · split
    · exact .withKnown builder _ var value
    · exact .blame builder _

/-- What a call gives is counted by the prototype, even if something is wrong with the call. -/
theorem call_length {reference : Reference} {arguments : List Value} {external : External}
    (found : builder.function.references[reference.index]? = some external) :
    ((call reference arguments).run builder).1.length = external.prototype.results.length := by
  have emitted : ∀ builder : Builder,
      ((emit (.call reference arguments) external.prototype.results).run builder).1.length =
        external.prototype.results.length := by
    intro builder
    cases current : builder.current with
    | none =>
        simp only [emit, StateT.run_bind, StateT.run_get, pure_bind, current]
        exact List.length_map ..
    | some label =>
        cases unfinished : (builder.function.block label).isTerminated with
        | true =>
            simp only [emit, StateT.run_bind, StateT.run_get, pure_bind, current, unfinished]
            exact List.length_map ..
        | false =>
            rw [emit_eq _ current unfinished]
            simp [Builder.nextValues]
  simp only [call, function, StateT.run_bind, StateT.run_get, pure_bind, StateT.run_pure, found]
  split
  · exact emitted _
  · exact emitted _

end Build

end Ssa

namespace Lowering

open Ssa

/-! ## Drafts -/

/-- A function that can be called under a reference gives something. -/
def Gives (builder : Builder) (reference : Reference) : Prop :=
  ∃ external, builder.function.references[reference.index]? = some external ∧
    external.prototype.results ≠ []

def Setting.Supports (setting : Setting) (known : SignatureTable) : Prop :=
  ∀ name signature, known.find? name = some signature → ∃ id declaration,
    setting.callable.lookup name = some id ∧
      setting.module.declaration? id = some declaration ∧ declaration.prototype.results ≠ []

/-- A state of lowering in which everything can be named that has to be: variables, the functions
that were referred to, and those that are about to be called. -/
structure Draft (held : List Reference) (vars : Variables) (shape : Shape) (state : State) :
    Prop where
  outlines : shape.Outlines state.builder
  bound : ∀ name type, vars name = some type → ∃ var, state.bound.lookup name = some var
  held : ∀ reference ∈ held, Gives state.builder reference
  referred : ∀ name reference, state.references.lookup name = some reference →
    Gives state.builder reference
  imported : ∀ id reference, state.builder.imports.lookup id = some reference →
    Gives state.builder reference

namespace Draft

variable {held : List Reference} {vars : Variables} {shape last : Shape} {state : State}

theorem rebuild (draft : Draft held vars shape state) {builder : Builder}
    (outlines : last.Outlines builder) (imports : builder.imports = state.builder.imports)
    (references : builder.function.references = state.builder.function.references) :
    Draft held vars last { state with builder } := by
  have gives : Gives builder = Gives state.builder := by
    funext reference
    rw [Gives, Gives, references]
  refine ⟨outlines, draft.bound, ?_, ?_, ?_⟩
  · rw [gives]
    exact draft.held
  · rw [gives]
    exact draft.referred
  · rw [gives, imports]
    exact draft.imported

theorem same (draft : Draft held vars shape state) {builder : Builder}
    (same : state.builder.SameWays builder) : Draft held vars shape { state with builder } :=
  draft.rebuild (draft.outlines.same same) same.imports same.references

theorem weaken {others : List Reference} {fewer : Variables}
    (draft : Draft held vars shape state) (less : others ⊆ held)
    (known : ∀ name type, fewer name = some type → ∃ same, vars name = some same) :
    Draft others fewer shape state where
  outlines := draft.outlines
  bound name type found := by
    obtain ⟨same, there⟩ := known name type found
    exact draft.bound name same there
  held reference member := draft.held reference (less member)
  referred := draft.referred
  imported := draft.imported

end Draft

/-! ## Steps that do not fail -/

/-- A step ends without an error, gets by with requests to the builder, and what it gives and leaves
behind is as wanted. -/
def Succeeds (step : Lower α) (state : State) (goal : α → State → Prop) : Prop :=
  ∃ result later, step.run state = .ok (result, later) ∧
    state.builder.Becomes later.builder ∧ goal result later

namespace Succeeds

variable {state : State}

theorem pure {value : α} {goal : α → State → Prop} (holds : goal value state) :
    Succeeds (Pure.pure value) state goal :=
  ⟨value, state, rfl, .refl, holds⟩

theorem bind {step : Lower α} {rest : α → Lower β} {goal : β → State → Prop}
    (first : Succeeds step state fun value later => Succeeds (rest value) later goal) :
    Succeeds (step >>= rest) state goal := by
  obtain ⟨middle, between, ran, toMiddle, result, later, finish, toLater, holds⟩ := first
  exact ⟨result, later, run_bind_eq_ok.mpr ⟨middle, between, ran, finish⟩,
    toMiddle.trans toLater, holds⟩

theorem mono {step : Lower α} {goal wanted : α → State → Prop}
    (succeeds : Succeeds step state goal)
    (weaker : ∀ value later, goal value later → wanted value later) :
    Succeeds step state wanted := by
  obtain ⟨result, later, ran, becomes, holds⟩ := succeeds
  exact ⟨result, later, ran, becomes, weaker result later holds⟩

theorem get {rest : State → Lower β} {goal : β → State → Prop}
    (succeeds : Succeeds (rest state) state goal) :
    Succeeds (MonadState.get >>= rest) state goal :=
  succeeds

theorem modify {change : State → State} {goal : Unit → State → Prop}
    (same : (change state).builder = state.builder) (holds : goal () (change state)) :
    Succeeds (modify change) state goal :=
  ⟨(), change state, rfl, by rw [same], holds⟩

/-- One step after the other. -/
theorem andThen {step : Lower α} {rest : α → Lower β} {reached : α → State → Prop}
    {goal : β → State → Prop} (first : Succeeds step state reached)
    (next : ∀ value later, reached value later → Succeeds (rest value) later goal) :
    Succeeds (step >>= rest) state goal :=
  .bind (first.mono next)

theorem request {step : Build α} {goal : α → State → Prop} (command : Command)
    (same : (command.build.run state.builder).2 = (step.run state.builder).2)
    (holds : goal (step.run state.builder).1
      { state with builder := (step.run state.builder).2 }) :
    Succeeds (build step) state goal :=
  ⟨_, _, build_run step state, .single ⟨command, same⟩, holds⟩

end Succeeds

namespace Draft

variable {held : List Reference} {vars : Variables} {shape : Shape} {state : State}
  {source label : Label}

theorem hasBlock (draft : Draft held vars shape state) (inside : label.index < shape.blocks) :
    state.builder.hasBlock label = true :=
  draft.outlines.hasBlock.mpr inside

theorem isTerminated (draft : Draft held vars shape state) (active : shape.Active source) :
    state.builder.current = some source ∧
      (state.builder.function.block source).isTerminated = false := by
  refine ⟨draft.outlines.current.trans active.current, ?_⟩
  rw [Bool.eq_false_iff]
  exact fun ends => active.unfinished ((draft.outlines.isTerminated source).mp ends)

theorem createBlock (draft : Draft held vars shape state) :
    Succeeds (build Build.createBlock) state fun label later =>
      label = ⟨shape.blocks⟩ ∧ Draft held vars shape.create later := by
  refine .request .createBlock rfl ⟨?_, draft.rebuild draft.outlines.create rfl rfl⟩
  exact congrArg Label.mk draft.outlines.blocks

theorem appendParameter (draft : Draft held vars shape state)
    (inside : label.index < shape.blocks) (type : MachineType) :
    Succeeds (build (Build.appendParameter label type)) state fun value later =>
      Draft held vars (shape.parameter label value) later := by
  refine .request (.appendParameter label type) rfl ?_
  have exist := draft.hasBlock inside
  simp only [Build.appendParameter, StateT.run_bind, StateT.run_get, pure_bind, exist, if_true]
  split
  · exact draft.rebuild ((draft.outlines.misuse _).parameter inside type _) rfl rfl
  · exact draft.rebuild (draft.outlines.parameter inside type _) rfl rfl

theorem switchTo (draft : Draft held vars shape state) (inside : label.index < shape.blocks) :
    Succeeds (build (Build.switchTo label)) state fun _ later =>
      Draft held vars (shape.switch label) later := by
  refine .request (.switchTo label) rfl ?_
  obtain ⟨misuse, same⟩ := Build.switchTo_blamed (draft.hasBlock inside)
  rw [same]
  refine draft.rebuild ((draft.outlines.misuse misuse).switch inside) ?_ ?_
  · simp only [Builder.withCurrent]
    split <;> rfl
  · simp only [Builder.withCurrent]
    split <;> rfl

theorem sealBlock (draft : Draft held vars shape state) (inside : label.index < shape.blocks)
    (unsealed : shape.isSealed label = false) :
    Succeeds (build (Build.sealBlock label)) state fun _ later =>
      Draft held vars (shape.close label) later := by
  refine .request (.sealBlock label) rfl ?_
  rw [Build.sealBlock_run (draft.hasBlock inside) ((draft.outlines.isSealed label).trans unsealed)]
  have same := Build.passPending_same label state.builder.declared.length 0 state.builder
  exact (draft.same same).rebuild ((draft.outlines.same same).close inside) rfl rfl

/-- An instruction is appended if the builder allows it. -/
theorem append (draft : Draft held vars shape state) (active : shape.Active source)
    (step : Build α) (emission : Emission)
    (same : (emission.build.run state.builder).2 = (step.run state.builder).2)
    (able : emission.operation.Able state.builder) (results : α → List Value) :
    Succeeds (build step) state fun value later =>
      Draft held vars (shape.emit source ⟨results value, emission.operation, []⟩) later := by
  refine .request (.emit emission) same ?_
  obtain ⟨current, unfinished⟩ := draft.isTerminated active
  have appends := emission.appends state.builder
  rw [same] at appends
  generalize (step.run state.builder).2 = later at appends
  cases appends with
  | refused reason =>
      exact absurd (reason able source current) (Bool.eq_false_iff.mp unfinished)
  | appended _ now _ =>
      cases current.symm.trans now
      refine draft.rebuild ((draft.outlines.misuse _).emit active _ _ ?_) ?_ ?_
      · exact fun destination member =>
          draft.outlines.hasBlock.mp (able.destinations destination member).1
      · simp [Builder.withInstruction, Builder.withValues, Builder.modifyBlock]
      · simp [Builder.withInstruction, Builder.withValues, Builder.modifyBlock]

/-- An instruction that does not end the block is appended, or not. -/
theorem emit (draft : Draft held vars shape state) (active : shape.Active source)
    (step : Build α) (emission : Emission)
    (same : (emission.build.run state.builder).2 = (step.run state.builder).2)
    (plain : emission.operation.isTerminator = false) :
    Succeeds (build step) state fun value later => value = (step.run state.builder).1 ∧
      ∃ last, Shape.Flows source source shape last ∧ Draft held vars last later := by
  by_cases able : emission.operation.Able state.builder
  · obtain ⟨value, later, ran, becomes, drafted⟩ :=
      draft.append active step emission same able fun _ => []
    cases (build_run step state).symm.trans ran
    refine ⟨_, _, ran, becomes, rfl, _, ?_, drafted⟩
    rw [@Shape.emit_of_plain shape source ⟨[], emission.operation, []⟩ plain]
    exact .note active fun instruction equal => by cases equal; exact plain
  · refine .request (.emit emission) same ⟨rfl, shape, .refl active, ?_⟩
    have appends := emission.appends state.builder
    rw [same] at appends
    generalize (step.run state.builder).2 = later at appends
    cases appends with
    | refused => exact draft.rebuild (draft.outlines.misuse _) rfl rfl
    | appended possible => exact absurd possible able

/-- A block ends in a branch, and another one is entered and sealed. -/
theorem hop {rest : Lower β} {goal : β → State → Prop} (draft : Draft held vars shape state)
    (active : shape.Active source) (step : Build Unit) (emission : Emission)
    (same : (emission.build.run state.builder).2 = (step.run state.builder).2)
    (able : emission.operation.Able state.builder) (inside : label.index < shape.blocks)
    (unsealed : shape.isSealed label = false)
    (next : ∀ later, Draft held vars (shape.hop source emission.operation label) later →
      Succeeds rest later goal) :
    Succeeds (do
      build step
      build (Build.switchTo label)
      build (Build.sealBlock label)
      rest) state goal :=
  .andThen (draft.append active step emission same able fun _ => []) fun _ _ appended =>
    .andThen (appended.switchTo inside) fun _ _ switched =>
      .andThen (switched.sealBlock inside unsealed) fun _ later sealed => next later sealed

theorem able (draft : Draft held vars shape state) {operation : Operation}
    (targets : ∀ destination ∈ operation.destinations,
      destination.block.index < shape.blocks ∧ shape.isSealed destination.block = false)
    (branches : operation.destinations ≠ []) : operation.Able state.builder := by
  have all : ∀ destination ∈ operation.destinations,
      state.builder.hasBlock destination.block = true ∧
        (state.builder.state destination.block).isSealed = false := by
    intro destination member
    obtain ⟨inside, unsealed⟩ := targets destination member
    exact ⟨draft.hasBlock inside, (draft.outlines.isSealed _).trans unsealed⟩
  cases operation with
  | call => exact absurd rfl branches
  | _ => exact all

/-- A block ends in a jump, and another one is entered and sealed. -/
theorem jumps {rest : Lower β} {goal : β → State → Prop} {target : Label}
    (draft : Draft held vars shape state) (active : shape.Active source)
    (enterable : target.index < shape.blocks ∧ shape.isSealed target = false)
    (arguments : List Value) (inside : label.index < shape.blocks)
    (unsealed : shape.isSealed label = false)
    (next : ∀ later, Draft held vars (shape.hop source (.jump ⟨target, arguments⟩) label) later →
      Succeeds rest later goal) :
    Succeeds (do
      build (Build.jump ⟨target, arguments⟩)
      build (Build.switchTo label)
      build (Build.sealBlock label)
      rest) state goal := by
  refine draft.hop active _ (.jump ⟨target, arguments⟩) rfl (draft.able ?_ (by
    simp [Emission.operation, Operation.destinations])) inside unsealed next
  simpa [Emission.operation, Operation.destinations] using enterable

/-- Three blocks are made. -/
theorem creates {rest : Label → Label → Label → Lower β} {goal : β → State → Prop}
    (draft : Draft held vars shape state)
    (next : ∀ later, Draft held vars shape.create.create.create later →
      Succeeds (rest ⟨shape.blocks⟩ ⟨shape.blocks + 1⟩ ⟨shape.blocks + 2⟩) later goal) :
    Succeeds (do
      let first ← build Build.createBlock
      let second ← build Build.createBlock
      let third ← build Build.createBlock
      rest first second third) state goal := by
  refine .andThen draft.createBlock ?_
  rintro _ one ⟨rfl, draftOne⟩
  refine .andThen draftOne.createBlock ?_
  rintro _ two ⟨rfl, draftTwo⟩
  refine .andThen draftTwo.createBlock ?_
  rintro _ three ⟨rfl, draftThree⟩
  exact next three draftThree

/-- The arms of a condition are opened. -/
theorem fork {test : Value} {rest : Label → Label → Label → Value → Lower β}
    {goal : β → State → Prop} (draft : Draft held vars shape state)
    (active : shape.Active source)
    (next : ∀ result later, Draft held vars (shape.fork source test result) later →
      Succeeds (rest ⟨shape.blocks⟩ ⟨shape.blocks + 1⟩ ⟨shape.blocks + 2⟩ result) later goal) :
    Succeeds (do
      let trueBlock ← build Build.createBlock
      let falseBlock ← build Build.createBlock
      let merge ← build Build.createBlock
      let result ← build (Build.appendParameter merge .i64)
      build (Build.branch test ⟨trueBlock, []⟩ ⟨falseBlock, []⟩)
      build (Build.switchTo trueBlock)
      build (Build.sealBlock trueBlock)
      rest trueBlock falseBlock merge result) state goal := by
  refine draft.creates fun made draftMade => ?_
  have merge : (⟨shape.blocks + 2⟩ : Label).index < shape.create.create.create.blocks :=
    Nat.lt_succ_self _
  refine .andThen (draftMade.appendParameter merge .i64) fun result joined draftJoined => ?_
  have bare := draft.outlines.bare
  have filled : (shape.create.create.create.parameter ⟨shape.blocks + 2⟩ result).Active source :=
    ⟨active.current, Nat.lt_add_right 3 active.inside, active.unfinished⟩
  refine draftJoined.hop filled _ (.branch test ⟨⟨shape.blocks⟩, []⟩ ⟨⟨shape.blocks + 1⟩, []⟩) rfl
    (draftJoined.able ?_ (by simp [Emission.operation, Operation.destinations]))
    (Nat.lt_add_of_pos_right (show 0 < 3 by decide)) (bare.isSealed _ (Nat.le_refl _))
    (next result)
  simp only [Emission.operation, Operation.destinations, List.mem_cons, List.not_mem_nil,
    or_false, forall_eq_or_imp, forall_eq]
  exact ⟨⟨Nat.lt_add_of_pos_right (show 0 < 3 by decide), bare.isSealed _ (Nat.le_refl _)⟩,
    Nat.add_lt_add_left (show 1 < 3 by decide) _, bare.isSealed _ (Nat.le_add_right _ _)⟩

/-- A loop is opened. -/
theorem enter {limit : Value} {rest : Label → Label → Label → Value → Value → Lower β}
    {goal : β → State → Prop} (draft : Draft held vars shape state)
    (active : shape.Active source)
    (next : ∀ counter round one done later,
      Draft held vars (shape.enterLoop source limit counter round one done) later →
        Succeeds (rest ⟨shape.blocks⟩ ⟨shape.blocks + 1⟩ ⟨shape.blocks + 2⟩ round one) later
          goal) :
    Succeeds (do
      let header ← build Build.createBlock
      let loop ← build Build.createBlock
      let exit ← build Build.createBlock
      let counter ← build (Build.appendParameter header .i64)
      let round ← build (Build.appendParameter loop .i64)
      let one ← build (Build.constant .i64 1)
      build (Build.jump ⟨header, [one]⟩)
      build (Build.switchTo header)
      let done ← build (Build.compare .greater counter limit)
      build (Build.branch done ⟨exit, []⟩ ⟨loop, [counter]⟩)
      build (Build.switchTo loop)
      build (Build.sealBlock loop)
      rest header loop exit round one) state goal := by
  have bare := draft.outlines.bare
  have inHeader : shape.blocks < shape.blocks + 3 := Nat.lt_add_of_pos_right (by decide)
  have inLoop : shape.blocks + 1 < shape.blocks + 3 := Nat.add_lt_add_left (by decide) _
  refine draft.creates fun made draftMade => ?_
  refine .andThen (@appendParameter _ _ _ _ ⟨shape.blocks⟩ draftMade inHeader .i64)
    fun counter counted draftCounted => ?_
  refine .andThen (@appendParameter _ _ _ _ ⟨shape.blocks + 1⟩ draftCounted inLoop .i64)
    fun round rounded draftRounded => ?_
  have filled : ((shape.create.create.create.parameter ⟨shape.blocks⟩ counter).parameter
      ⟨shape.blocks + 1⟩ round).Active source :=
    ⟨active.current, Nat.lt_add_right 3 active.inside, active.unfinished⟩
  -- The number one and the jump to the header.
  refine .andThen (draftRounded.append filled (Build.constant .i64 1) (.constant .i64 1) rfl
    (List.forall_mem_nil _) fun one => [one]) fun one started draftStarted => ?_
  have filledStarted := @Shape.Active.emit _ _ filled ⟨[one], .constant .i64 1, []⟩ rfl
  refine .andThen (draftStarted.append filledStarted (Build.jump ⟨⟨shape.blocks⟩, [one]⟩)
    (.jump ⟨⟨shape.blocks⟩, [one]⟩) rfl (draftStarted.able ?_ (by
      simp [Emission.operation, Operation.destinations])) fun _ => []) fun _ left draftLeft => ?_
  · simpa [Emission.operation, Operation.destinations] using
      ⟨inHeader, bare.isSealed ⟨shape.blocks⟩ (Nat.le_refl _)⟩
  refine .andThen (@switchTo _ _ _ _ ⟨shape.blocks⟩ draftLeft inHeader)
    fun _ switched draftSwitched => ?_
  -- The comparison with the limit and the branch.
  have header := Shape.active_header bare active.inside counter round one
  refine .andThen (draftSwitched.append header (Build.compare .greater counter limit)
    (.compare .greater counter limit) rfl (List.forall_mem_nil _) fun done => [done])
    fun done compared draftCompared => ?_
  have headerCompared := @Shape.Active.emit _ _ header ⟨[done], .compare .greater counter limit, []⟩
    rfl
  refine draftCompared.hop headerCompared _
    (.branch done ⟨⟨shape.blocks + 2⟩, []⟩ ⟨⟨shape.blocks + 1⟩, [counter]⟩) rfl
    (draftCompared.able ?_ (by simp [Emission.operation, Operation.destinations])) inLoop
    (bare.isSealed ⟨shape.blocks + 1⟩ (Nat.le_add_right _ _)) (next counter round one done)
  simp only [Emission.operation, Operation.destinations, List.mem_cons, List.not_mem_nil,
    or_false, forall_eq_or_imp, forall_eq]
  exact ⟨⟨Nat.lt_succ_self _, bare.isSealed _ (Nat.le_add_right _ _)⟩, inLoop,
    bare.isSealed _ (Nat.le_add_right _ _)⟩

/-- A loop is closed. -/
theorem leaveLoop {next : Value} {header exit : Label} {rest : Lower β}
    {goal : β → State → Prop} (draft : Draft held vars shape state)
    (active : shape.Active source) (headerInside : header.index < shape.blocks)
    (exitInside : exit.index < shape.blocks) (headerUnsealed : shape.isSealed header = false)
    (exitUnsealed : shape.isSealed exit = false) (different : exit ≠ header)
    (goes : ∀ later, Draft held vars (shape.leaveLoop source next header exit) later →
      Succeeds rest later goal) :
    Succeeds (do
      build (Build.jump ⟨header, [next]⟩)
      build (Build.switchTo exit)
      build (Build.sealBlock header)
      build (Build.sealBlock exit)
      rest) state goal := by
  refine .andThen (draft.append active (Build.jump ⟨header, [next]⟩) (.jump ⟨header, [next]⟩) rfl
    (draft.able ?_ (by simp [Emission.operation, Operation.destinations])) fun _ => [])
    fun _ left draftLeft => ?_
  · simpa [Emission.operation, Operation.destinations] using ⟨headerInside, headerUnsealed⟩
  refine .andThen (draftLeft.switchTo exitInside) fun _ switched draftSwitched => ?_
  refine .andThen (draftSwitched.sealBlock headerInside headerUnsealed)
    fun _ closed draftClosed => ?_
  refine .andThen (draftClosed.sealBlock exitInside ?_) fun _ later drafted => goes later drafted
  simpa [Shape.close, Shape.switch, Shape.emit, Shape.note, different] using exitUnsealed

theorem useVariable (draft : Draft held vars shape state) (var : Variable) :
    Succeeds (build (Build.useVariable var)) state fun _ later => Draft held vars shape later :=
  .request (.useVariable var) rfl (draft.same (Build.useVariable_same var state.builder))

theorem createSlot (draft : Draft held vars shape state) (size : UInt32) :
    Succeeds (build (Build.createSlot size)) state fun _ later =>
      Draft held vars shape later :=
  .request (.createSlot size) rfl (draft.rebuild ⟨draft.outlines.blocks, draft.outlines.size,
    draft.outlines.current, draft.outlines.isSealed, draft.outlines.predecessors,
    draft.outlines.isTerminated, draft.outlines.bare⟩ rfl rfl)

theorem declareVariable (draft : Draft held vars shape state) (var : Variable)
    (type : MachineType) :
    Succeeds (build (Build.declareVariable var type)) state fun _ later =>
      Draft held vars shape later := by
  refine .request (.declareVariable var type) rfl ?_
  simp only [Build.declareVariable, StateT.run_bind, StateT.run_get, pure_bind]
  split
  · exact draft.same (.blame _ _)
  · exact draft.rebuild ⟨draft.outlines.blocks, draft.outlines.size,
      draft.outlines.current, draft.outlines.isSealed, draft.outlines.predecessors,
      draft.outlines.isTerminated, draft.outlines.bare⟩ rfl rfl

theorem defineVariable (draft : Draft held vars shape state) (var : Variable) (value : Value) :
    Succeeds (build (Build.defineVariable var value)) state fun _ later =>
      Draft held vars shape later :=
  .request (.defineVariable var value) rfl
    (draft.same (Build.defineVariable_same var value state.builder))

theorem bindName (draft : Draft held vars shape state) (name : String) (value : Value)
    (type : Ty) :
    Succeeds (Lowering.bindName name value) state fun _ later =>
      Draft held (vars.bind name type) shape later := by
  refine .get (.andThen (draft.declareVariable ⟨state.variableCount⟩ .i64)
    fun _ declared draftDeclared => ?_)
  refine .andThen (draftDeclared.defineVariable _ value) fun _ defined draftDefined =>
    .modify rfl ?_
  refine ⟨draftDefined.outlines, fun other known found => ?_, draftDefined.held,
    draftDefined.referred, draftDefined.imported⟩
  rw [List.lookup_cons]
  cases same : other == name with
  | true => exact ⟨_, rfl⟩
  | false =>
      refine draftDefined.bound other known ?_
      rwa [Variables.bind, Function.update_of_ne (beq_eq_false_iff_ne.mp same)] at found

theorem refer (draft : Draft held vars shape state) (external : External) {reference : Reference}
    (id : FunctionId) (place : reference = ⟨state.builder.function.references.size⟩)
    (gives : external.prototype.results ≠ []) :
    Draft (reference :: held) vars shape { state with
      builder := { state.builder with
        function := { state.builder.function with
          references := state.builder.function.references.push external }
        imports := (id, reference) :: state.builder.imports } } := by
  have new : Gives { state.builder with
      function := { state.builder.function with
        references := state.builder.function.references.push external }
      imports := (id, reference) :: state.builder.imports } reference :=
    ⟨external, by simp [place], gives⟩
  have old : ∀ other, Gives state.builder other → Gives { state.builder with
      function := { state.builder.function with
        references := state.builder.function.references.push external }
      imports := (id, reference) :: state.builder.imports } other := by
    rintro other ⟨known, found, results⟩
    refine ⟨known, ?_, results⟩
    have inside := (Array.getElem?_eq_some_iff.mp found).1
    rw [Array.getElem?_push, if_neg (Nat.ne_of_lt inside)]
    exact found
  refine ⟨⟨draft.outlines.blocks, draft.outlines.size, draft.outlines.current,
    draft.outlines.isSealed, draft.outlines.predecessors, draft.outlines.isTerminated,
    draft.outlines.bare⟩, draft.bound, ?_, fun name other found => ?_, fun other known found => ?_⟩
  · exact List.forall_mem_cons.mpr ⟨new, fun other member => old other (draft.held other member)⟩
  · exact old other (draft.referred name other found)
  · rw [List.lookup_cons] at found
    split at found
    · cases found
      exact new
    · exact old known (draft.imported other known found)

theorem importFunction (draft : Draft held vars shape state) {module : Module} {id : FunctionId}
    {declaration : Declaration} (found : module.declaration? id = some declaration)
    (gives : declaration.prototype.results ≠ []) :
    Succeeds (build (Build.importFunction module id)) state fun reference later =>
      Draft (reference :: held) vars shape later := by
  refine .request (.importFunction module id) rfl ?_
  simp only [Build.importFunction, StateT.run_bind, StateT.run_get, pure_bind, found]
  cases imported : state.builder.imports.lookup id with
  | some reference =>
      exact ⟨draft.outlines, draft.bound, List.forall_mem_cons.mpr
        ⟨draft.imported id reference imported, draft.held⟩, draft.referred, draft.imported⟩
  | none => exact draft.refer _ id rfl gives

theorem reference {setting : Setting} {known : SignatureTable} {tree : Expr Typing}
    {name : String} {signature : Signature} (draft : Draft held vars shape state)
    (supports : setting.Supports known) (found : known.find? name = some signature) :
    Succeeds (Lowering.reference setting tree name) state fun reference later =>
      Draft (reference :: held) vars shape later := by
  refine .get ?_
  obtain ⟨id, declaration, callable, declared, gives⟩ := supports name signature found
  cases referred : state.references.lookup name with
  | some reference =>
      exact .pure ⟨draft.outlines, draft.bound, List.forall_mem_cons.mpr
        ⟨draft.referred name reference referred, draft.held⟩, draft.referred, draft.imported⟩
  | none =>
      rw [callable]
      refine .andThen (draft.importFunction declared gives) fun reference imported drafted =>
        .andThen (.modify rfl ?_) fun _ _ holds => .pure holds
      refine ⟨drafted.outlines, drafted.bound, drafted.held, fun other known lookup => ?_,
        drafted.imported⟩
      rw [List.lookup_cons] at lookup
      split at lookup
      · cases lookup
        exact drafted.held reference List.mem_cons_self
      · exact drafted.referred other known lookup

end Draft

end Lowering

end ExprLang
