import ExprLang.Proofs.Ssa.Assignment

/-!
# How blocks are linked

What a block takes over from the blocks before it: the arguments of a branch stand in the order
of the parameters that they are for, and each of them is what the variable holds at the end of
the block that the branch leaves.
-/

namespace ExprLang.Ssa

/-! ## What variables hold is kept -/

theorem Resolve.known {recording later : Recording} (step : Resolve recording later)
    {label : Label} {var : Variable} {value : Value}
    (holds : recording.builder.known label var = some value) :
    later.builder.known label var = some value := by
  cases step with
  | pend other asked type inside unsealed unknown fresh declared =>
      have place := recording.inside inside
      simp only [Recording.pend]
      rw [Builder.known_withKnown _ _ _ _ _ (by simpa using place)]
      split
      · rename_i here
        rw [here.1, here.2, unknown] at holds
        cases holds
      · simpa using holds
  | zero other asked type inside closed alone unknown fresh declared =>
      have place := recording.inside inside
      simp only [Recording.zero]
      rw [Builder.known_withKnown _ _ _ _ _ (by simpa using place)]
      split
      · rename_i here
        rw [here.1, here.2, unknown] at holds
        cases holds
      · simpa using holds
  | inherit other asked edge content inside closed only source fresh =>
      have place := recording.inside inside
      simp only [Recording.inherit]
      rw [Builder.known_withKnown _ _ _ _ _ place]
      split
      · rename_i here
        rw [here.1, here.2] at holds
        rcases fresh with ⟨unknown, _⟩ | ⟨twice, _⟩
        · rw [unknown] at holds
          cases holds
        · rw [← twice, holds]
      · exact holds
  | join other asked type inside closed several unknown fresh declared =>
      have place := recording.inside inside
      simp only [Recording.join]
      rw [Builder.known_withKnown _ _ _ _ _ (by simpa using place)]
      split
      · rename_i here
        rw [here.1, here.2, unknown] at holds
        cases holds
      · simpa using holds
  | pass other edge asked param content member next source => exact holds

theorem Resolves.known {recording later : Recording} (steps : Resolves recording later)
    {label : Label} {var : Variable} {value : Value}
    (holds : recording.builder.known label var = some value) :
    later.builder.known label var = some value := by
  induction steps with
  | refl => exact holds
  | tail _ step induction => exact step.known induction

theorem Resolves.known_ne_none {recording later : Recording} (steps : Resolves recording later)
    {label : Label} {var : Variable} (known : recording.builder.known label var ≠ none) :
    later.builder.known label var ≠ none := by
  obtain ⟨value, holds⟩ := Option.ne_none_iff_exists'.mp known
  simp [steps.known holds]

namespace Recording

variable {recording later : Recording}

/-! ## Edges and parameters -/

/-- Every edge is known once, and the parameters of a block are those that the caller asked
for and those that stand for variables. -/
structure Linked (recording : Recording) : Prop where
  distinct : ∀ label, (recording.builder.state label).predecessors.Nodup
  parameters : ∀ label, (recording.builder.function.block label).parameters.Perm
    (recording.explicit label ++ (recording.joined label).map Prod.snd)

theorem Scripted.target_unique (scripted : recording.Scripted) {first second : Label}
    {edge : Edge} (left : edge ∈ (recording.builder.state first).predecessors)
    (right : edge ∈ (recording.builder.state second).predecessors) : first = second := by
  obtain ⟨before, last, split, destination, found, target⟩ := scripted.split_of_edge left
  obtain ⟨again, final, equal, other, foundAgain, targetAgain⟩ := scripted.split_of_edge right
  rw [split] at equal
  have same := (List.append_inj' equal rfl).2
  cases same
  rw [found] at foundAgain
  cases foundAgain
  rw [← target, targetAgain]

theorem Scripted.isTerminated_source (scripted : recording.Scripted) {label : Label}
    {edge : Edge} (member : edge ∈ (recording.builder.state label).predecessors) :
    (recording.builder.function.block edge.source).isTerminated = true := by
  by_contra unfinished
  exact scripted.no_edge_of_unterminated (by simpa using unfinished) rfl member

end Recording

theorem Builder.edgesTo_nodup (source target : Label) (side : Nat)
    (destinations : List Destination) : (edgesTo source target side destinations).Nodup := by
  induction destinations generalizing side with
  | nil => exact List.nodup_nil
  | cons destination rest induction =>
      rw [edgesTo]
      split
      · refine List.nodup_cons.mpr ⟨?_, induction (side + 1)⟩
        intro member
        have later := (mem_edgesTo.mp member).2.1
        simp only [] at later
        omega
      · exact induction (side + 1)

namespace Recording

variable {recording later : Recording}

namespace Linked

theorem mem_explicit (linked : recording.Linked) {label : Label} {value : Value}
    (member : value ∈ recording.explicit label) :
    value ∈ (recording.builder.function.block label).parameters :=
  (linked.parameters label).mem_iff.mpr (List.mem_append_left _ member)

theorem mem_joined (linked : recording.Linked) {label : Label} {var : Variable} {value : Value}
    (member : (var, value) ∈ recording.joined label) :
    value ∈ (recording.builder.function.block label).parameters :=
  (linked.parameters label).mem_iff.mpr
    (List.mem_append_right _ (List.mem_map.mpr ⟨(var, value), member, rfl⟩))

theorem start (id : FunctionId) (declaration : Declaration) :
    (Recording.start id declaration).Linked := by
  constructor
  · intro label
    simp [Recording.start, History.start, Builder.start, Builder.state, BlockState.fresh]
  · intro label
    simp [Recording.start, History.start, Builder.start, Function.start, Function.block,
      Function.block?, Block.empty]

/-- A new parameter at the end, on the side of those for variables. -/
theorem parameters_joined (linked : recording.Linked) {label : Label}
    (inside : recording.builder.hasBlock label = true) (var : Variable) (type : MachineType)
    (other : Label) :
    ((recording.builder.withParameter label type).function.block other).parameters.Perm
      (recording.explicit other ++ (Function.update recording.joined label
        (recording.joined label ++ [(var, recording.builder.nextValue)]) other).map Prod.snd) := by
  rw [Builder.block_withParameter _ _ _ _ inside]
  by_cases same : other = label
  · subst same
    simp only [if_true, Function.update_self, List.map_append, List.map_cons, List.map_nil]
    rw [← List.append_assoc]
    exact (linked.parameters other).append_right _
  · simp only [same, if_false, Function.update_of_ne same]
    exact linked.parameters other

theorem resolve (linked : recording.Linked) (step : Resolve recording later) :
    later.Linked := by
  cases step with
  | pend label var type inside unsealed unknown fresh declared =>
      constructor
      · simpa [pend] using linked.distinct
      · exact linked.parameters_joined inside var type
  | zero label var type inside closed alone unknown fresh declared =>
      constructor
      · simpa [zero] using linked.distinct
      · simpa [zero] using linked.parameters
  | inherit label var edge value inside closed only source fresh =>
      constructor
      · simpa [inherit] using linked.distinct
      · exact linked.parameters
  | join label var type inside closed several unknown fresh declared =>
      constructor
      · simpa [join] using linked.distinct
      · exact linked.parameters_joined inside var type
  | pass label edge var param value member next source =>
      constructor
      · exact linked.distinct
      · simpa [pass] using linked.parameters

theorem move {entry : Option Label} (linked : recording.Linked)
    (scripted : recording.Scripted) (step : Move entry recording later) : later.Linked := by
  cases step with
  | resolve step => exact linked.resolve step
  | create =>
      constructor
      · simpa [Recording.create] using linked.distinct
      · simpa [Recording.create] using linked.parameters
  | switch label inside left =>
      constructor
      · simpa [Recording.switch] using linked.distinct
      · simpa [Recording.switch] using linked.parameters
  | parameter label type inside ready early =>
      constructor
      · exact linked.distinct
      · intro other
        simp only [Recording.parameter, Builder.block_withParameter _ _ _ _ inside]
        by_cases same : other = label
        · subst same
          simp only [if_true, Function.update_self]
          refine ((linked.parameters other).append_right _).trans ?_
          rw [List.append_assoc, List.append_assoc]
          exact List.perm_append_comm.append_left _
        · simp only [same, if_false, Function.update_of_ne same]
          exact linked.parameters other
  | declare var type unknown => exact ⟨linked.distinct, linked.parameters⟩
  | define label var type value current declared typed early =>
      exact ⟨by simpa [Recording.define] using linked.distinct, linked.parameters⟩
  | use label var value current holds early => exact ⟨linked.distinct, linked.parameters⟩
  | close label inside unsealed complete =>
      exact ⟨by simpa [Recording.close] using linked.distinct, linked.parameters⟩
  | emit label operation types current unfinished operands fits =>
      have targets : ∀ destination ∈ operation.destinations,
          destination.block.index < recording.builder.states.size := fun destination member =>
        recording.inside (fits.destination member).1
      constructor
      · intro other
        simp only [Recording.emit, Builder.state_withInstruction _ _ _ _ _ targets]
        refine List.nodup_append.mpr ⟨linked.distinct other, Builder.edgesTo_nodup _ _ _ _, ?_⟩
        intro edge old again new equal
        subst equal
        have source := (Builder.mem_edgesTo.mp new).1
        exact scripted.no_edge_of_unterminated unfinished source old
      · simpa [Recording.emit] using linked.parameters
  | refer external unknown => exact ⟨linked.distinct, linked.parameters⟩
  | reserve size => exact ⟨linked.distinct, linked.parameters⟩

end Linked

/-! ## Variables that can be relied on -/

/-- A value is what the variable of a parameter holds at the end of a block. -/
def Passes (recording : Recording) (source : Label) (joined : Variable × Value)
    (value : Value) : Prop :=
  recording.builder.known source joined.1 = some value

/-- If the caller keeps to the rules, nothing happens in a block behind its terminator, what a
variable holds at the start of a block comes from a zero, from the only predecessor or from a
parameter, and branches pass what the variables hold where they leave. -/
structure Reliable (entry : Label) (recording : Recording) : Prop where
  tidy : ∀ label before instruction behind,
    recording.script label = before ++ .instruction instruction :: behind →
      instruction.isTerminator = true → behind = []
  sources : ∀ label var value, recording.incoming label var = some value →
    (∃ type, (type, value) ∈ recording.zeros label) ∨
      ((recording.builder.state label).isSealed = true ∧
        ∃ edge, (recording.builder.state label).predecessors = [edge] ∧
          recording.builder.known edge.source var = some value) ∨
      (var, value) ∈ recording.joined label
  arguments : ∀ label edge, edge ∈ (recording.builder.state label).predecessors →
    List.Forall₂ (recording.Passes edge.source)
      ((recording.joined label).take (recording.appended edge).length) (recording.appended edge)
  ordered : ∀ label, label ≠ entry →
    ((recording.builder.state label).isSealed = false ∨
      (recording.builder.state label).predecessors ≠ []) →
    (recording.builder.function.block label).parameters =
      recording.explicit label ++ (recording.joined label).map Prod.snd

namespace Reliable

variable {entry : Label}

theorem start (id : FunctionId) (declaration : Declaration) :
    (Recording.start id declaration).Reliable entry := by
  constructor
  · intro label before instruction behind split
    simp [Recording.start, History.start] at split
  · intro label var value received
    cases received
  · intro label edge member
    simp [Recording.start, History.start, Builder.start, Builder.state, BlockState.fresh]
      at member
  · intro label _ _
    simp [Recording.start, History.start, Builder.start, Function.start, Function.block,
      Function.block?, Block.empty]

theorem appended_length_le (reliable : recording.Reliable entry) {label : Label} {edge : Edge}
    (member : edge ∈ (recording.builder.state label).predecessors) :
    (recording.appended edge).length ≤ (recording.joined label).length := by
  have equal := (reliable.arguments label edge member).length_eq
  rw [List.length_take] at equal
  omega

/-- The sources of what variables hold, when one more is known. -/
theorem sources_received (reliable : recording.Reliable entry) {label : Label}
    {var : Variable} {value : Value}
    (zeros : ∀ label item, item ∈ recording.zeros label → item ∈ later.zeros label)
    (joined : ∀ label item, item ∈ recording.joined label → item ∈ later.joined label)
    (isSealed : ∀ label, (later.builder.state label).isSealed =
      (recording.builder.state label).isSealed)
    (predecessors : ∀ label, (later.builder.state label).predecessors =
      (recording.builder.state label).predecessors)
    (known : ∀ label var value, recording.builder.known label var = some value →
      later.builder.known label var = some value)
    (new : (∃ type, (type, value) ∈ later.zeros label) ∨
      ((later.builder.state label).isSealed = true ∧
        ∃ edge, (later.builder.state label).predecessors = [edge] ∧
          later.builder.known edge.source var = some value) ∨
      (var, value) ∈ later.joined label)
    (other : Label) (asked : Variable) (content : Value)
    (received : recording.received label var value other asked = some content) :
    (∃ type, (type, content) ∈ later.zeros other) ∨
      ((later.builder.state other).isSealed = true ∧
        ∃ edge, (later.builder.state other).predecessors = [edge] ∧
          later.builder.known edge.source asked = some content) ∨
      (asked, content) ∈ later.joined other := by
  rw [received_eq] at received
  split at received
  · rename_i here
    cases received
    rw [here.1, here.2]
    exact new
  · rcases reliable.sources other asked content received with
      ⟨type, member⟩ | ⟨closed, edge, only, holds⟩ | member
    · exact .inl ⟨type, zeros other _ member⟩
    · refine .inr (.inl ⟨?_, edge, ?_, known _ _ _ holds⟩)
      · rw [isSealed]
        exact closed
      · rw [predecessors]
        exact only
    · exact .inr (.inr (joined other _ member))

/-- The arguments of branches, when a block has one more parameter for a variable. -/
theorem arguments_joined (reliable : recording.Reliable entry) {label : Label}
    {item : Variable × Value} {later : Recording}
    (known : ∀ label var value, recording.builder.known label var = some value →
      later.builder.known label var = some value)
    (other : Label) (edge : Edge)
    (member : edge ∈ (recording.builder.state other).predecessors) :
    List.Forall₂ (later.Passes edge.source)
      ((Function.update recording.joined label (recording.joined label ++ [item])
        other).take (recording.appended edge).length) (recording.appended edge) := by
  have short := reliable.appended_length_le member
  have holds : List.Forall₂ (later.Passes edge.source) _ _ :=
    (reliable.arguments other edge member).imp fun _ _ => known _ _ _
  by_cases same : other = label
  · subst same
    rw [Function.update_self, List.take_append_of_le_length short]
    exact holds
  · rw [Function.update_of_ne same]
    exact holds

theorem ordered_joined (reliable : recording.Reliable entry) {label : Label}
    (inside : recording.builder.hasBlock label = true)
    (here : (recording.builder.state label).isSealed = false ∨
      (recording.builder.state label).predecessors ≠ [])
    (var : Variable) (type : MachineType) (other : Label) (different : other ≠ entry)
    (either : (recording.builder.state other).isSealed = false ∨
      (recording.builder.state other).predecessors ≠ []) :
    ((recording.builder.withParameter label type).function.block other).parameters =
      recording.explicit other ++ (Function.update recording.joined label
        (recording.joined label ++ [(var, recording.builder.nextValue)]) other).map
          Prod.snd := by
  rw [Builder.block_withParameter _ _ _ _ inside]
  by_cases same : other = label
  · subst same
    simp [reliable.ordered other different here]
  · simp [same, reliable.ordered other different either]

theorem resolve (reliable : recording.Reliable entry) (scripted : recording.Scripted)
    (step : Resolve recording later) : later.Reliable entry := by
  have known : ∀ label var value, recording.builder.known label var = some value →
      later.builder.known label var = some value := fun _ _ _ => step.known
  cases step with
  | pend label var type inside unsealed unknown fresh declared =>
      constructor
      · exact reliable.tidy
      · refine reliable.sources_received (fun _ _ member => member) ?_ ?_ ?_ known ?_
        · exact fun other item member => (recording.joined_updated label _ other).subset member
        · simp [pend]
        · simp [pend]
        · exact .inr (.inr (by simp [pend]))
      · intro other edge member
        refine reliable.arguments_joined known other edge ?_
        simpa [pend] using member
      · intro other different either
        exact reliable.ordered_joined inside (.inl unsealed) var type other different
          (by simpa [pend] using either)
  | zero label var type inside closed alone unknown fresh declared =>
      constructor
      · exact reliable.tidy
      · refine reliable.sources_received ?_ (fun _ _ member => member) ?_ ?_ known ?_
        · intro other item member
          by_cases same : other = label
          · subst same
            simp [zero, member]
          · simpa [zero, same] using member
        · simp [zero]
        · simp [zero]
        · exact .inl ⟨type, by simp [zero]⟩
      · intro other edge member
        refine (reliable.arguments other edge (by simpa [zero] using member)).imp ?_
        exact fun _ _ => known _ _ _
      · intro other different either
        simpa [zero] using reliable.ordered other different (by simpa [zero] using either)
  | inherit label var edge value inside closed only source fresh =>
      constructor
      · exact reliable.tidy
      · refine reliable.sources_received (fun _ _ member => member) (fun _ _ member => member)
          ?_ ?_ known ?_
        · simp [inherit]
        · simp [inherit]
        · refine .inr (.inl ⟨by simpa [inherit] using closed, edge, by simpa [inherit] using only,
            known _ _ _ source⟩)
      · intro other link member
        refine (reliable.arguments other link (by simpa [inherit] using member)).imp ?_
        exact fun _ _ => known _ _ _
      · intro other different either
        exact reliable.ordered other different (by simpa [inherit] using either)
  | join label var type inside closed several unknown fresh declared =>
      constructor
      · exact reliable.tidy
      · refine reliable.sources_received (fun _ _ member => member) ?_ ?_ ?_ known ?_
        · exact fun other item member => (recording.joined_updated label _ other).subset member
        · simp [join]
        · simp [join]
        · exact .inr (.inr (by simp [join]))
      · intro other edge member
        refine reliable.arguments_joined known other edge ?_
        simpa [join] using member
      · intro other different either
        refine reliable.ordered_joined inside (.inr ?_) var type other different
          (by simpa [join] using either)
        intro empty
        simp [empty] at several
  | pass label edge var param value member next source =>
      constructor
      · exact reliable.tidy
      · exact reliable.sources
      · intro other link leads
        by_cases same : link = edge
        · subst same
          cases scripted.target_unique member leads
          have old := reliable.arguments label link member
          simp only [pass, Function.update_self, List.length_append, List.length_cons,
            List.length_nil, Nat.zero_add]
          rw [List.take_add_one, next]
          exact List.rel_append old (.cons source .nil)
        · simp only [pass, Function.update_of_ne same]
          exact reliable.arguments other link leads
      · simpa [pass] using reliable.ordered

/-- A move that leaves variables and links alone. -/
theorem of_same (reliable : recording.Reliable entry)
    (script : later.script = recording.script)
    (incoming : later.incoming = recording.incoming)
    (zeros : later.zeros = recording.zeros) (joined : later.joined = recording.joined)
    (appended : later.appended = recording.appended)
    (isSealed : ∀ label, (later.builder.state label).isSealed =
      (recording.builder.state label).isSealed)
    (predecessors : ∀ label, (later.builder.state label).predecessors =
      (recording.builder.state label).predecessors)
    (known : ∀ label, later.builder.known label = recording.builder.known label)
    (ordered : ∀ label, label ≠ entry →
      ((recording.builder.state label).isSealed = false ∨
        (recording.builder.state label).predecessors ≠ []) →
      (later.builder.function.block label).parameters =
        later.explicit label ++ (recording.joined label).map Prod.snd) :
    later.Reliable entry := by
  constructor
  · rw [script]
    exact reliable.tidy
  · simp only [incoming, zeros, joined, isSealed, predecessors, known]
    exact reliable.sources
  · intro label edge member
    rw [predecessors] at member
    rw [joined, appended]
    refine (reliable.arguments label edge member).imp fun item value holds => ?_
    rw [Passes, known]
    exact holds
  · simp only [joined, isSealed, predecessors]
    exact ordered

/-- An event in a block that is not terminated. -/
theorem tidy_noted (reliable : recording.Reliable entry) (scripted : recording.Scripted)
    {label : Label} (event : Event)
    (unfinished : (recording.builder.function.block label).isTerminated = false) :
    ∀ other before instruction behind,
      recording.noted label event other = before ++ .instruction instruction :: behind →
        instruction.isTerminator = true → behind = [] := by
  intro other before instruction behind split terminator
  rcases noted_split split with ⟨rest, old, equal⟩ | ⟨_, _, _, empty⟩
  · rw [equal, reliable.tidy other before instruction rest old terminator]
    split
    · rename_i same
      have member : instruction ∈ emitted (recording.script label) := by
        rw [mem_emitted, ← same, old]
        simp
      rw [scripted.plain_of_unterminated unfinished member] at terminator
      cases terminator
    · rfl
  · exact empty

theorem define (reliable : recording.Reliable entry) (scripted : recording.Scripted)
    {label : Label} (var : Variable) (value : Value)
    (current : recording.builder.current = some label)
    (unfinished : (recording.builder.function.block label).isTerminated = false) :
    (recording.define label var value).Reliable entry := by
  have place := recording.inside (scripted.current label current)
  -- Only terminated blocks are looked at from elsewhere, and this one is not.
  have known : ∀ target edge, edge ∈ (recording.builder.state target).predecessors →
      ∀ asked, (recording.define label var value).builder.known edge.source asked =
        recording.builder.known edge.source asked := by
    intro target edge member asked
    have different : edge.source ≠ label := by
      intro same
      have terminated := scripted.isTerminated_source member
      rw [same, unfinished] at terminated
      cases terminated
    simp only [Recording.define]
    rw [Builder.known_withKnown _ _ _ _ _ place, if_neg fun here => different here.1]
  constructor
  · exact reliable.tidy_noted scripted _ unfinished
  · intro other asked content received
    rcases reliable.sources other asked content received with
      zero | ⟨closed, edge, only, holds⟩ | member
    · exact .inl zero
    · refine .inr (.inl ⟨by simpa [Recording.define] using closed, edge,
        by simpa [Recording.define] using only, ?_⟩)
      rw [known other edge (by simp [only]) asked]
      exact holds
    · exact .inr (.inr member)
  · intro other edge member
    have leads : edge ∈ (recording.builder.state other).predecessors := by
      simpa [Recording.define] using member
    refine (reliable.arguments other edge leads).imp fun joined content holds => ?_
    rw [Passes, known other edge leads]
    exact holds
  · intro other different either
    exact reliable.ordered other different (by simpa [Recording.define] using either)

theorem parameter (reliable : recording.Reliable entry) (tracked : recording.Tracked)
    {label : Label} (type : MachineType) (inside : recording.builder.hasBlock label = true)
    (ready : (recording.builder.state label).pending = [])
    (early : label ≠ entry → (recording.builder.state label).predecessors = []) :
    (recording.parameter label type).Reliable entry := by
  refine reliable.of_same rfl rfl rfl rfl rfl (fun _ => rfl) (fun _ => rfl) (fun _ => rfl) ?_
  intro other different either
  have old := reliable.ordered other different either
  simp only [Recording.parameter, Builder.block_withParameter _ _ _ _ inside]
  by_cases same : other = label
  · subst same
    have unsealed : (recording.builder.state other).isSealed = false := by
      rcases either with unsealed | branched
      · exact unsealed
      · exact absurd (early different) branched
    have empty : recording.joined other = [] := by
      rw [← tracked.pending other unsealed, ready]
    rw [empty, List.map_nil, List.append_nil] at old
    simp [old, empty]
  · simpa [same] using old

theorem emit (reliable : recording.Reliable entry) (scripted : recording.Scripted)
    {label : Label} {operation : Operation} {types : List MachineType}
    (unfinished : (recording.builder.function.block label).isTerminated = false)
    (fits : operation.Fits recording.builder types) :
    (recording.emit label operation types).Reliable entry := by
  have targets : ∀ destination ∈ operation.destinations,
      destination.block.index < recording.builder.states.size := fun destination member =>
    recording.inside (fits.destination member).1
  have edges : ∀ other, ((recording.emit label operation types).builder.state
      other).predecessors = (recording.builder.state other).predecessors ++
        Builder.edgesTo label other 0 operation.destinations := by
    intro other
    simp only [Recording.emit, Builder.state_withInstruction _ _ _ _ _ targets]
  have closed : ∀ other, (recording.builder.state other).isSealed = true →
      Builder.edgesTo label other 0 operation.destinations = [] :=
    fun _ closed => fits.edgesTo_eq_nil closed label
  constructor
  · exact reliable.tidy_noted scripted _ unfinished
  · intro other asked content received
    rcases reliable.sources other asked content received with
      zero | ⟨ready, edge, only, holds⟩ | member
    · exact .inl zero
    · refine .inr (.inl ⟨by simpa [Recording.emit] using ready, edge, ?_, ?_⟩)
      · rw [edges, closed other ready, List.append_nil, only]
      · simpa [Recording.emit] using holds
    · exact .inr (.inr member)
  · intro other edge member
    rw [edges, List.mem_append] at member
    rcases member with old | new
    · refine (reliable.arguments other edge old).imp fun item value holds => ?_
      rw [Passes, Recording.emit, Builder.known_withInstruction]
      exact holds
    · have source := (Builder.mem_edgesTo.mp new).1
      have empty : recording.appended edge = [] := by
        rw [show edge = ⟨label, edge.side⟩ by rw [← source]]
        exact scripted.appended_of_unterminated unfinished edge.side
      simp [Recording.emit, empty]
  · intro other different either
    have before : (recording.builder.state other).isSealed = false ∨
        (recording.builder.state other).predecessors ≠ [] := by
      rcases either with unsealed | branched
      · exact .inl (by simpa [Recording.emit] using unsealed)
      · cases ready : (recording.builder.state other).isSealed with
        | false => exact .inl rfl
        | true =>
            rw [edges, closed other ready, List.append_nil] at branched
            exact .inr branched
    simpa [Recording.emit] using reliable.ordered other different before

theorem move (reliable : recording.Reliable entry) (scripted : recording.Scripted)
    (tracked : recording.Tracked) (step : Move (some entry) recording later) :
    later.Reliable entry := by
  cases step with
  | resolve step => exact reliable.resolve scripted step
  | create =>
      refine reliable.of_same rfl rfl rfl rfl rfl ?_ ?_ ?_ ?_
      · simp [Recording.create]
      · simp [Recording.create]
      · simp [Recording.create]
      · simpa [Recording.create] using reliable.ordered
  | switch label inside left =>
      refine reliable.of_same rfl rfl rfl rfl rfl ?_ ?_ ?_ ?_
      · simp [Recording.switch]
      · simp [Recording.switch]
      · simp [Recording.switch]
      · simpa [Recording.switch] using reliable.ordered
  | parameter label type inside ready early =>
      exact reliable.parameter tracked type inside ready (early entry rfl)
  | declare var type unknown =>
      exact reliable.of_same rfl rfl rfl rfl rfl (fun _ => rfl) (fun _ => rfl) (fun _ => rfl)
        reliable.ordered
  | define label var type value current declared typed early =>
      exact reliable.define scripted var value current (early rfl)
  | use label var value current holds early =>
      exact ⟨reliable.tidy_noted scripted _ (early rfl), reliable.sources, reliable.arguments,
        reliable.ordered⟩
  | close label inside unsealed complete =>
      have place := recording.inside inside
      constructor
      · exact reliable.tidy
      · intro other asked content received
        rcases reliable.sources other asked content received with
          zero | ⟨closed, edge, only, holds⟩ | member
        · exact .inl zero
        · refine .inr (.inl ⟨?_, edge, by simpa [Recording.close] using only,
            by simpa [Recording.close] using holds⟩)
          simp only [Recording.close, Builder.state_withSeal _ _ _ place]
          split
          · rfl
          · exact closed
        · exact .inr (.inr member)
      · intro other edge member
        refine (reliable.arguments other edge (by simpa [Recording.close] using member)).imp
          fun item value holds => ?_
        rw [Passes, Recording.close, Builder.known_withSeal]
        exact holds
      · intro other different either
        refine reliable.ordered other different ?_
        simp only [Recording.close, Builder.state_withSeal _ _ _ place] at either
        by_cases same : other = label
        · subst same
          exact .inl unsealed
        · simpa [same] using either
  | emit label operation types current unfinished operands fits =>
      exact reliable.emit scripted unfinished fits
  | refer external unknown =>
      exact reliable.of_same rfl rfl rfl rfl rfl (fun _ => rfl) (fun _ => rfl) (fun _ => rfl)
        reliable.ordered
  | reserve size =>
      exact reliable.of_same rfl rfl rfl rfl rfl (fun _ => rfl) (fun _ => rfl) (fun _ => rfl)
        reliable.ordered

end Reliable

end Recording

/-! ## Sound recordings

Everything that holds of a recording, whatever was done so far.
-/

structure Sound (recording : Recording) : Prop where
  scripted : recording.Scripted
  tracked : recording.Tracked
  typed : recording.Typed
  laid : recording.Laid
  linked : recording.Linked
  plain : recording.Plain
  single : recording.builder.function.SingleAssignment

namespace Sound

variable {recording later : Recording}

theorem start (id : FunctionId) (declaration : Declaration) :
    Sound (.start id declaration) where
  scripted := .start id declaration
  tracked := .start id declaration
  typed := .start id declaration
  laid := .start id declaration
  linked := .start id declaration
  plain := .start id declaration
  single := Recording.singleAssignment_start id declaration

theorem move {entry : Option Label} (sound : Sound recording)
    (step : Move entry recording later) : Sound later where
  scripted := sound.scripted.move step
  tracked := sound.tracked.move sound.scripted step
  typed := sound.typed.move sound.tracked step
  laid := sound.laid.move step
  linked := sound.linked.move sound.scripted step
  plain := sound.plain.move step
  single := Recording.singleAssignment_move sound.scripted sound.single step

theorem moves {entry : Option Label} (sound : Sound recording)
    (steps : Moves entry recording later) : Sound later := by
  induction steps with
  | refl => exact sound
  | tail _ step induction => exact induction.move step

theorem resolves (sound : Sound recording) (steps : Resolves recording later) : Sound later :=
  sound.moves (@Resolves.moves none _ _ steps)

theorem stray (sound : Sound recording) {label : Label} {instruction : Instruction}
    (member : instruction ∈ (recording.builder.function.block label).instructions) :
    instruction.stray = [] := by
  obtain ⟨zero, _, rfl⟩ | ⟨original, listed, rfl⟩ := sound.scripted.mem_code.mp member
  · rfl
  · exact sound.plain label original listed

theorem joined_length_le (sound : Sound recording) (label : Label) :
    (recording.joined label).length ≤ recording.builder.declared.length := by
  have inside : (recording.joined label).map Prod.fst ⊆
      recording.builder.declared.map Prod.fst := by
    intro var member
    obtain ⟨⟨asked, value⟩, joined, rfl⟩ := List.mem_map.mp member
    have received := sound.tracked.joins label asked value joined
    obtain ⟨type, declared, _⟩ := sound.typed.incoming label asked value received
    obtain ⟨before, behind, split, _⟩ := List.lookup_eq_some_iff.mp declared
    exact List.mem_map.mpr ⟨(asked, type), by simp [split], rfl⟩
  have short := (sound.tracked.distinct label).length_le_of_subset inside
  simpa using short

end Sound

theorem Recording.Reliable.moves {entry : Label} {recording later : Recording}
    (reliable : recording.Reliable entry) (sound : Sound recording)
    (steps : Moves (some entry) recording later) : later.Reliable entry := by
  induction steps with
  | refl => exact reliable
  | tail before step induction =>
      have middle := sound.moves before
      exact induction.move middle.scripted middle.tracked step

end ExprLang.Ssa
