import ExprLang.Proofs.Ssa.Growth

/-!
# Values and their definitions

Every function under construction is in static single assignment form, its layout lists every
block that was filled once, and what is known of a variable has the type that the variable was
declared with.
-/

namespace ExprLang.Ssa

/-! ## Single assignment -/

theorem flatMap_modify_perm {parts : α → List β} {change : α → α} {new : List β}
    {items : List α} {index : Nat} (inside : index < items.length)
    (gain : (parts (change (items.get ⟨index, inside⟩))).Perm
      (new ++ parts (items.get ⟨index, inside⟩))) :
    ((items.modify index change).flatMap parts).Perm (new ++ items.flatMap parts) := by
  induction items generalizing index with
  | nil => cases inside
  | cons head rest induction =>
      cases index with
      | zero =>
          rw [List.modify_zero_cons, List.flatMap_cons, List.flatMap_cons, ← List.append_assoc]
          exact gain.append_right _
      | succ index =>
          rw [List.modify_succ_cons, List.flatMap_cons, List.flatMap_cons]
          have tail := induction (Nat.lt_of_succ_lt_succ inside) gain
          refine (tail.append_left _).trans ?_
          rw [← List.append_assoc, ← List.append_assoc]
          exact List.perm_append_comm.append_right _

namespace Builder

theorem definitions_modifyBlock (builder : Builder) {label : Label} {change : Block → Block}
    {new : List Value} (inside : builder.hasBlock label = true)
    (gain : (change (builder.function.block label)).definitions.Perm
      (new ++ (builder.function.block label).definitions)) :
    (builder.modifyBlock label change).function.definitions.Perm
      (new ++ builder.function.definitions) := by
  have place : label.index < builder.function.blocks.toList.length := by
    simpa [hasBlock] using inside
  have here : builder.function.blocks.toList.get ⟨label.index, place⟩ =
      builder.function.block label := by
    have bound : label.index < builder.function.blocks.size := by simpa using place
    simp [Function.block, Function.block?, bound]
  simp only [Function.definitions, modifyBlock, Array.toList_modify]
  apply flatMap_modify_perm place
  rw [here]
  exact gain

end Builder

namespace Builder

/-- One change of a block together with the values that it defines. -/
theorem singleAssignment_modifyBlock (builder : Builder) {label : Label}
    (change : Block → Block) (infos : List ValueInfo)
    (single : builder.function.SingleAssignment) (inside : builder.hasBlock label = true)
    (gain : (change (builder.function.block label)).definitions.Perm
      (builder.nextValues infos.length ++ (builder.function.block label).definitions)) :
    ({ builder with function := { builder.function with
        values := builder.function.values ++ infos.toArray } }.modifyBlock
      label change).function.SingleAssignment := by
  have whole := builder.definitions_modifyBlock inside gain
  refine whole.trans ?_
  simp only [modifyBlock, Array.size_append, List.size_toArray]
  refine (single.append_left _).trans (List.perm_append_comm.trans ?_)
  rw [nextValues, ← List.map_append, List.range_eq_range', List.range_eq_range',
    ← List.range'_append, Nat.zero_add, Nat.one_mul]

theorem singleAssignment_withParameter (builder : Builder) {label : Label}
    (single : builder.function.SingleAssignment) (inside : builder.hasBlock label = true)
    (type : MachineType) :
    (builder.withParameter label type).function.SingleAssignment := by
  have gain := builder.singleAssignment_modifyBlock
    (fun block => { block with parameters := block.parameters ++ [builder.nextValue] })
    [⟨type, true, label⟩] single inside (by
      simp only [Block.definitions, List.append_assoc]
      exact List.perm_middle)
  simpa [withParameter, newValue] using gain

theorem singleAssignment_withZero (builder : Builder) {label : Label}
    (single : builder.function.SingleAssignment) (inside : builder.hasBlock label = true)
    (type : MachineType) : (builder.withZero label type).function.SingleAssignment := by
  have gain := builder.singleAssignment_modifyBlock
    (fun block => { block with
      instructions := zeroInstruction type builder.nextValue :: block.instructions })
    [⟨type, false, label⟩] single inside (by
      simp only [Block.definitions, List.flatMap_cons, zeroInstruction, ← List.append_assoc]
      exact List.perm_append_comm.append_right _)
  simpa [withZero, newValue] using gain

theorem flatMap_changeLast (instructions : List Instruction) {parts : Instruction → List β}
    {change : Instruction → Instruction}
    (same : ∀ instruction, parts (change instruction) = parts instruction) :
    (instructions.dropLast ++ instructions.getLast?.toList.map change).flatMap parts =
      instructions.flatMap parts := by
  rcases List.eq_nil_or_concat instructions with empty | ⟨rest, last, split⟩
  · rw [empty]
    rfl
  · rw [split]
    simp [same]

theorem singleAssignment_withArgument (builder : Builder) {edge : Edge}
    (single : builder.function.SingleAssignment) (inside : builder.hasBlock edge.source = true)
    (value : Value) : (builder.withArgument edge value).function.SingleAssignment := by
  have whole : (builder.withArgument edge value).function.definitions.Perm
      ([] ++ builder.function.definitions) := by
    refine builder.definitions_modifyBlock inside ?_
    simp only [Block.definitions, List.nil_append]
    rw [flatMap_changeLast]
    intro instruction
    rfl
  exact whole.trans single

theorem singleAssignment_withInstruction (builder : Builder) {label : Label}
    (single : builder.function.SingleAssignment) (inside : builder.hasBlock label = true)
    (operation : Operation) (types : List MachineType) :
    (builder.withInstruction label operation types).function.SingleAssignment := by
  have gain := builder.singleAssignment_modifyBlock
    (fun block => { block with
      instructions := block.instructions ++
        [{ results := builder.nextValues types.length, operation }] })
    (types.map fun type => ⟨type, false, label⟩) single inside (by
      simp only [Block.definitions, List.flatMap_append, List.flatMap_singleton,
        List.length_map]
      rw [← List.append_assoc]
      exact List.perm_append_comm)
  rw [withInstruction, function_withEdges]
  exact gain

theorem singleAssignment_withBlock (builder : Builder)
    (single : builder.function.SingleAssignment) :
    builder.withBlock.function.SingleAssignment := by
  simpa [Function.SingleAssignment, withBlock, Function.definitions, Block.definitions,
    Block.empty] using single

theorem singleAssignment_withCurrent (builder : Builder) (label : Label)
    (single : builder.function.SingleAssignment) :
    (builder.withCurrent label).function.SingleAssignment := by
  rw [withCurrent]
  split <;> exact single

theorem type?_withParameter (builder : Builder) (label : Label) (type : MachineType) :
    (builder.withParameter label type).function.type? builder.nextValue = some type := by
  simp [withParameter, newValue, modifyBlock, nextValue, Function.type?, Function.value?]

theorem type?_withZero (builder : Builder) (label : Label) (type : MachineType) :
    (builder.withZero label type).function.type? builder.nextValue = some type := by
  simp [withZero, newValue, modifyBlock, nextValue, Function.type?, Function.value?]

end Builder

namespace Recording

variable {recording later : Recording}

theorem singleAssignment_start (id : FunctionId) (declaration : Declaration) :
    (Recording.start id declaration).builder.function.SingleAssignment := by
  simp [Function.SingleAssignment, Recording.start, History.start, Builder.start,
    Function.start, Function.definitions]

theorem singleAssignment_resolve (scripted : recording.Scripted)
    (single : recording.builder.function.SingleAssignment) (step : Resolve recording later) :
    later.builder.function.SingleAssignment := by
  cases step with
  | pend label var type inside unsealed unknown fresh declared =>
      exact recording.builder.singleAssignment_withParameter single inside type
  | zero label var type inside closed alone unknown fresh declared =>
      exact recording.builder.singleAssignment_withZero single inside type
  | inherit label var edge value inside closed only source fresh => exact single
  | join label var type inside closed several unknown fresh declared =>
      exact recording.builder.singleAssignment_withParameter single inside type
  | pass label edge var param value member next source =>
      exact recording.builder.singleAssignment_withArgument single
        (scripted.hasBlock_source member) value

theorem singleAssignment_move {entry : Option Label} (scripted : recording.Scripted)
    (single : recording.builder.function.SingleAssignment) (step : Move entry recording later) :
    later.builder.function.SingleAssignment := by
  cases step with
  | resolve step => exact singleAssignment_resolve scripted single step
  | create => exact recording.builder.singleAssignment_withBlock single
  | switch label inside left => exact recording.builder.singleAssignment_withCurrent label single
  | parameter label type inside ready early =>
      exact recording.builder.singleAssignment_withParameter single inside type
  | declare var type unknown => exact single
  | define label var type value current declared typed early => exact single
  | use label var value current holds early => exact single
  | close label inside unsealed complete => exact single
  | emit label operation types current unfinished operands fits =>
      exact recording.builder.singleAssignment_withInstruction single
        (scripted.current label current) operation types
  | refer external unknown => exact single
  | reserve size => exact single

/-! ## Types of variables -/

def Suits (recording : Recording) (var : Variable) (value : Value) : Prop :=
  ∃ type, recording.builder.declared.lookup var = some type ∧
    recording.builder.function.type? value = some type

theorem Suits.grows {var : Variable} {value : Value} (suits : recording.Suits var value)
    (grows : Grows recording later) : later.Suits var value := by
  obtain ⟨type, declared, typed⟩ := suits
  exact ⟨type, grows.declared var type declared, grows.type? typed⟩

structure Typed (recording : Recording) : Prop where
  incoming : ∀ label var value, recording.incoming label var = some value →
    recording.Suits var value
  defines : ∀ label var value, .define var value ∈ recording.script label →
    recording.Suits var value

namespace Typed

theorem start (id : FunctionId) (declaration : Declaration) :
    (Recording.start id declaration).Typed := by
  constructor
  · intro label var value received
    cases received
  · intro label var value member
    simp [Recording.start, History.start] at member

theorem known (typed : recording.Typed) (tracked : recording.Tracked) {label : Label}
    {var : Variable} {value : Value} (holds : recording.builder.known label var = some value) :
    recording.Suits var value := by
  rw [tracked.known label] at holds
  rcases settle_eq_some holds with before | member
  · exact typed.incoming label var value before
  · exact typed.defines label var value member

theorem receive (typed : recording.Typed) (grows : Grows recording later) {label : Label}
    {var : Variable} {value : Value} (suits : later.Suits var value)
    (incoming : later.incoming = recording.received label var value)
    (script : later.script = recording.script) : later.Typed := by
  constructor
  · intro other asked content received
    rw [incoming, received_eq] at received
    split at received
    · rename_i here
      cases received
      rw [here.2]
      exact suits
    · exact (typed.incoming other asked content received).grows grows
  · intro other asked content member
    rw [script] at member
    exact (typed.defines other asked content member).grows grows

theorem resolve (typed : recording.Typed) (tracked : recording.Tracked)
    (step : Resolve recording later) : later.Typed := by
  have grows := step.grows
  cases step with
  | pend label var type inside unsealed unknown fresh declared =>
      refine typed.receive grows ⟨type, declared, ?_⟩ rfl rfl
      exact recording.builder.type?_withParameter label type
  | zero label var type inside closed alone unknown fresh declared =>
      refine typed.receive grows ⟨type, declared, ?_⟩ rfl rfl
      exact recording.builder.type?_withZero label type
  | inherit label var edge value inside closed only source fresh =>
      exact typed.receive grows ((typed.known tracked source).grows grows) rfl rfl
  | join label var type inside closed several unknown fresh declared =>
      refine typed.receive grows ⟨type, declared, ?_⟩ rfl rfl
      exact recording.builder.type?_withParameter label type
  | pass label edge var param value member next source =>
      exact ⟨fun other asked content received =>
          (typed.incoming other asked content received).grows grows,
        fun other asked content defined =>
          (typed.defines other asked content defined).grows grows⟩

/-- A move that leaves alone what variables hold, except for one event of a script. -/
theorem of_script (typed : recording.Typed) (grows : Grows recording later)
    (incoming : later.incoming = recording.incoming)
    (script : ∀ label var value, .define var value ∈ later.script label →
      .define var value ∈ recording.script label ∨ later.Suits var value) : later.Typed := by
  constructor
  · intro label var value received
    rw [incoming] at received
    exact (typed.incoming label var value received).grows grows
  · intro label var value member
    rcases script label var value member with old | new
    · exact (typed.defines label var value old).grows grows
    · exact new

theorem move {entry : Option Label} (typed : recording.Typed) (tracked : recording.Tracked)
    (step : Move entry recording later) : later.Typed := by
  have grows := step.grows
  cases step with
  | resolve step => exact typed.resolve tracked step
  | define label var type value current declared suits early =>
      refine typed.of_script grows rfl fun other asked content member => ?_
      rcases recording.mem_noted.mp member with old | ⟨_, new⟩
      · exact .inl old
      · cases new
        exact .inr ⟨type, declared, suits⟩
  | use label var value current holds early =>
      refine typed.of_script grows rfl fun other asked content member => ?_
      rcases recording.mem_noted.mp member with old | ⟨_, new⟩
      · exact .inl old
      · cases new
  | emit label operation types current unfinished operands fits =>
      refine typed.of_script grows rfl fun other asked content member => ?_
      rcases recording.mem_noted.mp member with old | ⟨_, new⟩
      · exact .inl old
      · cases new
  | _ => exact typed.of_script grows rfl fun _ _ _ member => .inl member

end Typed

/-! ## Layout -/

structure Laid (recording : Recording) : Prop where
  placed : ∀ label, label ∈ recording.builder.function.layout ↔
    (recording.builder.state label).isPlaced = true
  nodup : recording.builder.function.layout.Nodup
  current : ∀ label, recording.builder.current = some label →
    (recording.builder.state label).isPlaced = true
  filled : ∀ label, recording.script label ≠ [] →
    (recording.builder.state label).isPlaced = true

namespace Laid

theorem start (id : FunctionId) (declaration : Declaration) :
    (Recording.start id declaration).Laid := by
  constructor
  · intro label
    simp [Recording.start, History.start, Builder.start, Function.start, Builder.state,
      BlockState.fresh]
  · exact List.nodup_nil
  · intro label current
    cases current
  · intro label nonempty
    exact absurd rfl nonempty

/-- A change that touches neither the layout nor what was filled. -/
theorem of_same (laid : recording.Laid)
    (layout : later.builder.function.layout = recording.builder.function.layout)
    (placed : ∀ label, (later.builder.state label).isPlaced =
      (recording.builder.state label).isPlaced)
    (current : later.builder.current = recording.builder.current)
    (filled : ∀ label, later.script label ≠ [] →
      recording.script label ≠ [] ∨ recording.builder.current = some label) : later.Laid := by
  constructor
  · intro label
    rw [layout, placed]
    exact laid.placed label
  · rw [layout]
    exact laid.nodup
  · intro label now
    rw [current] at now
    rw [placed]
    exact laid.current label now
  · intro label nonempty
    rw [placed]
    rcases filled label nonempty with old | now
    · exact laid.filled label old
    · exact laid.current label now

theorem resolve (laid : recording.Laid) (step : Resolve recording later) : later.Laid := by
  cases step with
  | pend label var type inside unsealed unknown fresh declared =>
      exact laid.of_same rfl (by simp [Recording.pend]) rfl fun _ => .inl
  | zero label var type inside closed alone unknown fresh declared =>
      exact laid.of_same rfl (by simp [Recording.zero]) rfl fun _ => .inl
  | inherit label var edge value inside closed only source fresh =>
      exact laid.of_same rfl (by simp [Recording.inherit]) rfl fun _ => .inl
  | join label var type inside closed several unknown fresh declared =>
      exact laid.of_same rfl (by simp [Recording.join]) rfl fun _ => .inl
  | pass label edge var param value member next source =>
      exact laid.of_same rfl (by simp [Recording.pass]) rfl fun _ => .inl

theorem switch (laid : recording.Laid) {label : Label}
    (inside : recording.builder.hasBlock label = true) : (recording.switch label).Laid := by
  have place := recording.inside inside
  have layout : (recording.switch label).builder.function.layout =
      recording.builder.function.layout ++
        if (recording.builder.state label).isPlaced then [] else [label] := by
    simp only [Recording.switch, Builder.withCurrent]
    split <;> simp
  have placed : ∀ other, ((recording.switch label).builder.state other).isPlaced =
      if other = label then true else (recording.builder.state other).isPlaced := by
    intro other
    simp only [Recording.switch, Builder.state_withCurrent _ _ _ place]
    split <;> rfl
  constructor
  · intro other
    rw [layout, placed, List.mem_append, laid.placed other]
    by_cases same : other = label
    · subst same
      cases (recording.builder.state other).isPlaced <;> simp
    · cases (recording.builder.state label).isPlaced <;> simp [same]
  · rw [layout]
    cases known : (recording.builder.state label).isPlaced with
    | true => simpa using laid.nodup
    | false =>
        have absent : label ∉ recording.builder.function.layout := by
          rw [laid.placed label, known]
          simp
        simp only [Bool.false_eq_true, if_false]
        exact List.nodup_append.mpr ⟨laid.nodup, List.nodup_singleton _, by
          intro other member last equal
          rw [List.mem_singleton] at equal
          grind⟩
  · intro other current
    cases current
    rw [placed, if_pos rfl]
  · intro other nonempty
    rw [placed]
    split
    · rfl
    · exact laid.filled other nonempty

theorem filled_noted {label : Label} (current : recording.builder.current = some label)
    (event : Event) (other : Label) (nonempty : recording.noted label event other ≠ []) :
    recording.script other ≠ [] ∨ recording.builder.current = some other := by
  by_cases same : other = label
  · rw [same]
    exact .inr current
  · rw [noted, Function.update_of_ne same] at nonempty
    exact .inl nonempty

theorem move {entry : Option Label} (laid : recording.Laid) (step : Move entry recording later) :
    later.Laid := by
  cases step with
  | resolve step => exact laid.resolve step
  | create => exact laid.of_same rfl (by simp [Recording.create]) rfl fun _ => .inl
  | switch label inside left => exact laid.switch inside
  | parameter label type inside ready early =>
      exact laid.of_same rfl (by simp [Recording.parameter]) rfl fun _ => .inl
  | declare var type unknown => exact laid.of_same rfl (fun _ => rfl) rfl fun _ => .inl
  | define label var type value current declared typed early =>
      exact laid.of_same rfl (by simp [Recording.define]) rfl (filled_noted current _)
  | use label var value current holds early =>
      exact laid.of_same rfl (fun _ => rfl) rfl (filled_noted current _)
  | close label inside unsealed complete =>
      exact laid.of_same rfl (by simp [Recording.close]) rfl fun _ => .inl
  | emit label operation types current unfinished operands fits =>
      refine laid.of_same ?_ (by simp [Recording.emit]) ?_ (filled_noted current _)
      · simp [Recording.emit, Builder.withInstruction, Builder.modifyBlock, Builder.withValues]
      · simp [Recording.emit, Builder.withInstruction, Builder.modifyBlock, Builder.withValues]
  | refer external unknown => exact laid.of_same rfl (fun _ => rfl) rfl fun _ => .inl
  | reserve size => exact laid.of_same rfl (fun _ => rfl) rfl fun _ => .inl

end Laid

end Recording

end ExprLang.Ssa
