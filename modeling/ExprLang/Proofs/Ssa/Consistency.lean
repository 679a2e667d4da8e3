import ExprLang.Proofs.Ssa.Recording
import ExprLang.Proofs.Ssa.Trail

/-!
# What holds of every recording

The account of a recording agrees with its builder after every move: the code of a block is
its zeros followed by its script, the known edges are those of the branches, and what is known
of a variable at the end of a block follows from its script and from what it held at the
start.
-/

namespace ExprLang.Ssa

namespace Recording

theorem inside (recording : Recording) {label : Label}
    (inside : recording.builder.hasBlock label = true) :
    label.index < recording.builder.states.size := by
  rw [recording.balanced]
  simpa [Builder.hasBlock] using inside

theorem state_of_absent (recording : Recording) {label : Label}
    (absent : recording.builder.hasBlock label = false) :
    recording.builder.state label = .fresh := by
  have outside : ¬ label.index < recording.builder.states.size := by
    rw [recording.balanced]
    simpa [Builder.hasBlock] using absent
  simp [Builder.state, outside]

/-! ## Scripts and terminators -/

/-- Only existing blocks have a script, and a terminator is the last instruction of it. -/
structure Scripted (recording : Recording) : Prop where
  existing : ∀ label, recording.script label ≠ [] → recording.builder.hasBlock label = true
  terminal : ∀ label before instruction behind,
    emitted (recording.script label) = before ++ instruction :: behind →
      instruction.isTerminator = true → behind = []
  code : ∀ label, (recording.builder.function.block label).instructions =
    (recording.zeros label).map (fun zero => Builder.zeroInstruction zero.1 zero.2) ++
      (emitted (recording.script label)).map
        (Instruction.extend fun side => recording.appended ⟨label, side⟩)
  edges : ∀ label edge, edge ∈ (recording.builder.state label).predecessors ↔
    ∃ instruction ∈ emitted (recording.script edge.source),
      ∃ destination, instruction.operation.destinations[edge.side]? = some destination ∧
        destination.block = label
  extended : ∀ edge, recording.appended edge ≠ [] →
    ∃ label, edge ∈ (recording.builder.state label).predecessors
  current : ∀ label, recording.builder.current = some label →
    recording.builder.hasBlock label = true

namespace Scripted

variable {recording : Recording}

theorem mem_code (scripted : recording.Scripted) {label : Label} {instruction : Instruction} :
    instruction ∈ (recording.builder.function.block label).instructions ↔
      (∃ zero ∈ recording.zeros label, Builder.zeroInstruction zero.1 zero.2 = instruction) ∨
        ∃ original ∈ emitted (recording.script label),
          original.extend (fun side => recording.appended ⟨label, side⟩) = instruction := by
  rw [scripted.code label, List.mem_append, List.mem_map, List.mem_map]

theorem isTerminated_iff (scripted : recording.Scripted) (label : Label) :
    (recording.builder.function.block label).isTerminated = true ↔
      ∃ instruction ∈ emitted (recording.script label), instruction.isTerminator = true := by
  rw [Block.isTerminated, scripted.code label]
  constructor
  · intro terminated
    rcases List.eq_nil_or_concat (emitted (recording.script label)) with empty | ⟨rest, last, split⟩
    · rw [empty, List.map_nil, List.append_nil] at terminated
      rcases List.eq_nil_or_concat (recording.zeros label) with none | ⟨zeros, zero, equal⟩
      · simp [none] at terminated
      · simp [equal, Builder.zeroInstruction, Instruction.isTerminator, Operation.isTerminator,
          Operation.opcode, Opcode.isTerminator] at terminated
    · refine ⟨last, by simp [split], ?_⟩
      simpa [split] using terminated
  · rintro ⟨instruction, member, terminator⟩
    obtain ⟨before, behind, split⟩ := List.append_of_mem member
    have empty := scripted.terminal label before instruction behind split terminator
    rw [split, empty]
    simpa using terminator

theorem plain_of_unterminated (scripted : recording.Scripted) {label : Label}
    (unfinished : (recording.builder.function.block label).isTerminated = false)
    {instruction : Instruction} (member : instruction ∈ emitted (recording.script label)) :
    instruction.isTerminator = false := by
  by_contra terminator
  have terminated := (scripted.isTerminated_iff label).mpr
    ⟨instruction, member, by simpa using terminator⟩
  rw [unfinished] at terminated
  cases terminated

theorem no_edge_of_unterminated (scripted : recording.Scripted) {label : Label}
    (unfinished : (recording.builder.function.block label).isTerminated = false)
    {target : Label} {edge : Edge} (source : edge.source = label) :
    edge ∉ (recording.builder.state target).predecessors := by
  intro member
  obtain ⟨instruction, emittedHere, destination, found, _⟩ :=
    (scripted.edges target edge).mp member
  rw [source] at emittedHere
  have plain := scripted.plain_of_unterminated unfinished emittedHere
  rw [Operation.destinations_eq_nil plain] at found
  cases found

theorem appended_of_unterminated (scripted : recording.Scripted) {label : Label}
    (unfinished : (recording.builder.function.block label).isTerminated = false) (side : Nat) :
    recording.appended ⟨label, side⟩ = [] := by
  by_contra extended
  obtain ⟨target, member⟩ := scripted.extended _ extended
  exact scripted.no_edge_of_unterminated unfinished rfl member

theorem plain_before (scripted : recording.Scripted) {label : Label}
    {before behind : List Instruction} {last : Instruction}
    (split : emitted (recording.script label) = before ++ last :: behind)
    {instruction : Instruction} (early : instruction ∈ before) :
    instruction.isTerminator = false := by
  obtain ⟨first, second, rfl⟩ := List.append_of_mem early
  by_contra ends
  have empty := scripted.terminal label first instruction (second ++ last :: behind)
    (by rw [split]; simp) (by simpa using ends)
  simp at empty

theorem split_of_edge (scripted : recording.Scripted) {label : Label} {edge : Edge}
    (member : edge ∈ (recording.builder.state label).predecessors) :
    ∃ before last, emitted (recording.script edge.source) = before ++ [last] ∧
      ∃ destination, last.operation.destinations[edge.side]? = some destination ∧
        destination.block = label := by
  obtain ⟨last, emittedHere, destination, found, target⟩ := (scripted.edges label edge).mp member
  have terminator : last.isTerminator = true := by
    by_contra plain
    rw [Operation.destinations_eq_nil (by simpa [Instruction.isTerminator] using plain)] at found
    cases found
  obtain ⟨before, behind, split⟩ := List.append_of_mem emittedHere
  cases scripted.terminal _ _ _ _ split terminator
  exact ⟨before, last, split, destination, found, target⟩

/-- A block has at most one instruction that leads anywhere. -/
theorem terminator_eq (scripted : recording.Scripted) {label : Label}
    {first second : Instruction} (member : first ∈ emitted (recording.script label))
    (memberThen : second ∈ emitted (recording.script label)) (ends : first.isTerminator = true)
    (endsThen : second.isTerminator = true) : first = second := by
  obtain ⟨before, behind, split⟩ := List.append_of_mem member
  obtain ⟨others, after, splitThen⟩ := List.append_of_mem memberThen
  cases scripted.terminal _ _ _ _ split ends
  cases scripted.terminal _ _ _ _ splitThen endsThen
  exact (List.cons.inj (List.append_inj' (split.symm.trans splitThen) rfl).2).1

theorem hasBlock_source (scripted : recording.Scripted) {label : Label} {edge : Edge}
    (member : edge ∈ (recording.builder.state label).predecessors) :
    recording.builder.hasBlock edge.source = true := by
  obtain ⟨instruction, emittedHere, _⟩ := (scripted.edges label edge).mp member
  apply scripted.existing
  intro empty
  rw [empty] at emittedHere
  cases emittedHere

end Scripted

namespace Scripted

variable {recording later : Recording}

theorem start (id : FunctionId) (declaration : Declaration) :
    (Recording.start id declaration).Scripted := by
  constructor
  · intro label nonempty
    exact absurd rfl nonempty
  · intro label before instruction behind split
    simp [Recording.start, History.start] at split
  · intro label
    simp [Recording.start, History.start, Builder.start, Function.start, Function.block,
      Function.block?, Block.empty]
  · intro label edge
    simp [Recording.start, History.start, Builder.start, Builder.state, BlockState.fresh]
  · intro edge extended
    exact absurd rfl extended
  · intro label current
    cases current

/-- The code of the block that an edge leaves, after the branch got one more argument. -/
theorem code_pass (scripted : recording.Scripted) {label : Label} {edge : Edge}
    (member : edge ∈ (recording.builder.state label).predecessors) (value : Value)
    (other : Label) :
    ((recording.pass edge value).builder.function.block other).instructions =
      ((recording.pass edge value).zeros other).map
          (fun zero => Builder.zeroInstruction zero.1 zero.2) ++
        (emitted ((recording.pass edge value).script other)).map (Instruction.extend fun side =>
          (recording.pass edge value).appended ⟨other, side⟩) := by
  simp only [pass, Builder.withArgument, Builder.block_modifyBlock,
    scripted.hasBlock_source member]
  by_cases same : other = edge.source
  · subst same
    obtain ⟨before, last, split, destination, found, _⟩ := scripted.split_of_edge member
    have unchanged (more : Nat → List Value) :
        before.map (Instruction.extend more) = before := by
      conv_rhs => rw [← List.map_id before]
      apply List.map_congr_left
      intro instruction early
      exact Instruction.extend_of_plain (scripted.plain_before split early) more
    have changed : (fun side => Function.update recording.appended edge
        (recording.appended edge ++ [value]) ⟨edge.source, side⟩) =
        Function.update (fun side => recording.appended ⟨edge.source, side⟩) edge.side
          (recording.appended edge ++ [value]) := by
      funext side
      by_cases equal : side = edge.side
      · subst equal
        simp
      · have different : (⟨edge.source, side⟩ : Edge) ≠ edge := by
          intro whole
          exact equal (congrArg Edge.side whole)
        simp [equal, different]
    have valid : edge.side < last.operation.destinations.length :=
      (List.getElem?_eq_some_iff.mp found).1
    have extension := @Operation.changeDestination_extend _ _
      (fun side => recording.appended ⟨edge.source, side⟩) valid value
    simp [scripted.code edge.source, split, unchanged, changed, Instruction.extend, extension]
  · have different (side : Nat) : (⟨other, side⟩ : Edge) ≠ edge := by
      intro whole
      exact same (congrArg Edge.source whole)
    simp [same, scripted.code other, different]

theorem resolve (scripted : recording.Scripted) (step : Resolve recording later) :
    later.Scripted := by
  cases step with
  | pend label var type inside unsealed unknown fresh declared =>
      constructor
      · simpa [pend] using scripted.existing
      · exact scripted.terminal
      · simpa [pend] using scripted.code
      · simpa [pend] using scripted.edges
      · simpa [pend] using scripted.extended
      · intro other current
        simpa [pend] using scripted.current other current
  | zero label var type inside closed alone unknown fresh declared =>
      constructor
      · simpa [zero] using scripted.existing
      · exact scripted.terminal
      · intro other
        simp only [zero, Builder.function_withKnown, Builder.block_withZero _ _ _ _ inside]
        by_cases same : other = label
        · subst same
          simp [scripted.code other]
        · simp [same, scripted.code other]
      · simpa [zero] using scripted.edges
      · simpa [zero] using scripted.extended
      · intro other current
        simpa [zero] using scripted.current other current
  | inherit label var edge value inside closed only source fresh =>
      constructor
      · exact scripted.existing
      · exact scripted.terminal
      · exact scripted.code
      · simpa [inherit] using scripted.edges
      · simpa [inherit] using scripted.extended
      · exact scripted.current
  | join label var type inside closed several unknown fresh declared =>
      constructor
      · simpa [join] using scripted.existing
      · exact scripted.terminal
      · simpa [join] using scripted.code
      · simpa [join] using scripted.edges
      · simpa [join] using scripted.extended
      · intro other current
        simpa [join] using scripted.current other current
  | pass label edge var param value member next source =>
      constructor
      · simpa [pass] using scripted.existing
      · exact scripted.terminal
      · exact scripted.code_pass member value
      · simpa [pass] using scripted.edges
      · intro other extended
        by_cases same : other = edge
        · subst same
          exact ⟨label, by simpa [pass] using member⟩
        · simp only [pass, Function.update_of_ne same] at extended
          simpa [pass] using scripted.extended other extended
      · intro other current
        simpa [pass] using scripted.current other current

theorem emit (scripted : recording.Scripted) {label : Label} {operation : Operation}
    {types : List MachineType} (current : recording.builder.current = some label)
    (unfinished : (recording.builder.function.block label).isTerminated = false)
    (fits : operation.Fits recording.builder types) :
    (recording.emit label operation types).Scripted := by
  have inside := scripted.current label current
  have targets : ∀ destination ∈ operation.destinations,
      destination.block.index < recording.builder.states.size := fun destination member =>
    recording.inside (fits.destination member).1
  constructor
  · intro other nonempty
    by_cases same : other = label
    · subst same
      simpa [Recording.emit] using inside
    · simp only [Recording.emit, noted, Function.update_of_ne same] at nonempty
      simpa [Recording.emit] using scripted.existing other nonempty
  · intro other before instruction behind split terminator
    by_cases same : other = label
    · subst same
      simp only [Recording.emit, noted, Function.update_self, emitted_append,
        emitted_instruction, emitted_nil] at split
      rcases List.eq_nil_or_concat behind with empty | ⟨rest, last, rfl⟩
      · exact empty
      · rw [List.concat_eq_append, ← List.cons_append, ← List.append_assoc] at split
        have member : instruction ∈ emitted (recording.script other) := by
          rw [(List.append_inj' split rfl).1]
          simp
        rw [scripted.plain_of_unterminated unfinished member] at terminator
        cases terminator
    · simp only [Recording.emit, noted, Function.update_of_ne same] at split
      exact scripted.terminal other before instruction behind split terminator
  · intro other
    simp only [Recording.emit, noted, Builder.block_withInstruction _ _ _ _ _ inside]
    by_cases same : other = label
    · subst same
      have unchanged := @Instruction.extend_nil
        { results := recording.builder.nextValues types.length, operation } _
        (scripted.appended_of_unterminated unfinished)
      simp [scripted.code other, unchanged]
    · simp [same, scripted.code other]
  · intro target edge
    simp only [Recording.emit, noted, Builder.state_withInstruction _ _ _ _ _ targets,
      List.mem_append, Builder.mem_edgesTo]
    by_cases same : edge.source = label
    · have absent : edge ∉ (recording.builder.state target).predecessors :=
        scripted.no_edge_of_unterminated unfinished same
      constructor
      · rintro (old | ⟨_, _, destination, found, block⟩)
        · exact absurd old absent
        · exact ⟨_, by simp [same]; exact .inr rfl, destination, found, block⟩
      · rintro ⟨instruction, member, destination, found, block⟩
        rw [same, Function.update_self, emitted_append] at member
        rcases List.mem_append.mp member with old | new
        · have plain := scripted.plain_of_unterminated unfinished old
          rw [Operation.destinations_eq_nil plain] at found
          cases found
        · cases List.mem_singleton.mp new
          exact .inr ⟨same, Nat.zero_le _, destination, found, block⟩
    · rw [scripted.edges target edge]
      simp [same]
  · intro edge extended
    obtain ⟨target, member⟩ := scripted.extended edge extended
    refine ⟨target, ?_⟩
    simp only [Recording.emit, Builder.state_withInstruction _ _ _ _ _ targets]
    exact List.mem_append_left _ member
  · intro other currently
    have same : (recording.emit label operation types).builder.current =
        recording.builder.current := by
      simp only [Recording.emit, Builder.withInstruction, Builder.current_withEdges]
      rfl
    rw [same] at currently
    simpa [Recording.emit] using scripted.current other currently

theorem move {entry : Option Label} (scripted : recording.Scripted)
    (step : Move entry recording later) : later.Scripted := by
  cases step with
  | resolve step => exact scripted.resolve step
  | create =>
      constructor
      · intro label nonempty
        have inside := scripted.existing label nonempty
        simp only [Builder.hasBlock, decide_eq_true_eq] at inside
        simp only [Recording.create, Builder.hasBlock_withBlock, decide_eq_true_eq]
        omega
      · exact scripted.terminal
      · simpa [Recording.create] using scripted.code
      · simpa [Recording.create] using scripted.edges
      · simpa [Recording.create] using scripted.extended
      · intro label current
        have inside := scripted.current label current
        simp only [Builder.hasBlock, decide_eq_true_eq] at inside
        simp only [Recording.create, Builder.hasBlock_withBlock, decide_eq_true_eq]
        omega
  | switch label inside left =>
      constructor
      · simpa [Recording.switch] using scripted.existing
      · exact scripted.terminal
      · simpa [Recording.switch] using scripted.code
      · simpa [Recording.switch] using scripted.edges
      · simpa [Recording.switch] using scripted.extended
      · intro other current
        cases current
        simpa [Recording.switch] using inside
  | parameter label type inside ready early =>
      constructor
      · simpa [Recording.parameter] using scripted.existing
      · exact scripted.terminal
      · simpa [Recording.parameter] using scripted.code
      · simpa [Recording.parameter] using scripted.edges
      · simpa [Recording.parameter] using scripted.extended
      · intro other current
        simpa [Recording.parameter] using scripted.current other current
  | declare var type unknown => exact ⟨scripted.existing, scripted.terminal, scripted.code,
      scripted.edges, scripted.extended, scripted.current⟩
  | define label var type value current declared typed early =>
      constructor
      · intro other nonempty
        by_cases equal : other = label
        · rw [equal]
          exact scripted.current label current
        · simp only [Recording.define, noted, Function.update_of_ne equal] at nonempty
          exact scripted.existing other nonempty
      · simpa [Recording.define] using scripted.terminal
      · simpa [Recording.define] using scripted.code
      · simpa [Recording.define] using scripted.edges
      · simpa [Recording.define] using scripted.extended
      · exact scripted.current
  | use label var value current holds early =>
      constructor
      · intro other nonempty
        by_cases equal : other = label
        · rw [equal]
          exact scripted.current label current
        · simp only [Recording.use, noted, Function.update_of_ne equal] at nonempty
          exact scripted.existing other nonempty
      · simpa [Recording.use] using scripted.terminal
      · simpa [Recording.use] using scripted.code
      · simpa [Recording.use] using scripted.edges
      · exact scripted.extended
      · exact scripted.current
  | close label inside unsealed complete =>
      constructor
      · exact scripted.existing
      · exact scripted.terminal
      · exact scripted.code
      · simpa [Recording.close] using scripted.edges
      · simpa [Recording.close] using scripted.extended
      · exact scripted.current
  | emit label operation types current unfinished operands fits =>
      exact scripted.emit current unfinished fits
  | refer external unknown => exact ⟨scripted.existing, scripted.terminal, scripted.code,
      scripted.edges, scripted.extended, scripted.current⟩
  | reserve size => exact ⟨scripted.existing, scripted.terminal, scripted.code,
      scripted.edges, scripted.extended, scripted.current⟩

end Scripted

def Plain (recording : Recording) : Prop :=
  ∀ label, ∀ instruction ∈ emitted (recording.script label), instruction.stray = []

theorem Plain.start (id : FunctionId) (declaration : Declaration) :
    (Recording.start id declaration).Plain := by
  intro label instruction member
  simp [Recording.start, History.start] at member

theorem Plain.move {recording later : Recording} {entry : Option Label}
    (plain : recording.Plain) (step : Move entry recording later) : later.Plain := by
  cases step with
  | resolve step => cases step <;> exact plain
  | define label var type value current declared typed early =>
      simpa [Plain, Recording.define] using plain
  | use label var value current holds early => simpa [Plain, Recording.use] using plain
  | emit label operation types current unfinished operands fits =>
      intro other instruction member
      rw [mem_emitted] at member
      rcases recording.mem_noted.mp member with old | ⟨_, new⟩
      · exact plain other instruction (mem_emitted.mpr old)
      · cases new
        rfl
  | _ => exact plain

end Recording

end ExprLang.Ssa
