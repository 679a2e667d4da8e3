import ExprLang.Proofs.Ssa.History

/-!
# Single changes of a builder

What the steps of building do to a builder, one change at a time, and what a block and its
state look like after each of them.
-/

namespace ExprLang.Ssa

namespace Builder

/-! ## Looking at blocks and states -/

theorem block_modifyBlock (builder : Builder) (label other : Label) (change : Block → Block) :
    (builder.modifyBlock label change).function.block other =
      if other = label ∧ builder.hasBlock label then change (builder.function.block label)
      else builder.function.block other := by
  simp only [modifyBlock, Function.block, Function.block?, hasBlock, Array.getElem?_modify]
  by_cases same : other = label
  · subst same
    by_cases inside : other.index < builder.function.blocks.size
    · simp [inside]
    · simp [inside]
  · have different : label.index ≠ other.index := by
      intro equal
      apply same
      cases other
      cases label
      exact congrArg Label.mk equal.symm
    simp [same, different]

theorem state_modifyState (builder : Builder) (label other : Label)
    (change : BlockState → BlockState) :
    (builder.modifyState label change).state other =
      if other = label ∧ label.index < builder.states.size then change (builder.state label)
      else builder.state other := by
  simp only [modifyState, state, Array.getD_eq_getD_getElem?, Array.getElem?_modify]
  by_cases same : other = label
  · subst same
    by_cases inside : other.index < builder.states.size
    · simp [inside]
    · simp [inside]
  · have different : label.index ≠ other.index := by
      intro equal
      apply same
      cases other
      cases label
      exact congrArg Label.mk equal.symm
    simp [same, different]

@[simp] theorem state_modifyBlock (builder : Builder) (label other : Label)
    (change : Block → Block) :
    (builder.modifyBlock label change).state other = builder.state other := rfl

@[simp] theorem function_modifyState (builder : Builder) (label : Label)
    (change : BlockState → BlockState) :
    (builder.modifyState label change).function = builder.function := rfl

@[simp] theorem blocks_size_modifyBlock (builder : Builder) (label : Label)
    (change : Block → Block) :
    (builder.modifyBlock label change).function.blocks.size = builder.function.blocks.size := by
  simp [modifyBlock]

@[simp] theorem states_size_modifyState (builder : Builder) (label : Label)
    (change : BlockState → BlockState) :
    (builder.modifyState label change).states.size = builder.states.size := by
  simp [modifyState]

@[simp] theorem hasBlock_modifyBlock (builder : Builder) (label other : Label)
    (change : Block → Block) :
    (builder.modifyBlock label change).hasBlock other = builder.hasBlock other := by
  simp [hasBlock]

@[simp] theorem hasBlock_modifyState (builder : Builder) (label other : Label)
    (change : BlockState → BlockState) :
    (builder.modifyState label change).hasBlock other = builder.hasBlock other := rfl

/-! ## The changes -/

def known (builder : Builder) (label : Label) (var : Variable) : Option Value :=
  (builder.state label).known.lookup var

def nextValue (builder : Builder) : Value :=
  ⟨builder.function.values.size⟩

def withParameter (builder : Builder) (label : Label) (type : MachineType) : Builder :=
  (builder.newValue ⟨type, true, label⟩).2.modifyBlock label fun block =>
    { block with parameters := block.parameters ++ [builder.nextValue] }

def zeroInstruction (type : MachineType) (value : Value) : Instruction :=
  { results := [value], operation := .constant type 0 }

def withZero (builder : Builder) (label : Label) (type : MachineType) : Builder :=
  (builder.newValue ⟨type, false, label⟩).2.modifyBlock label fun block =>
    { block with
      instructions := zeroInstruction type builder.nextValue :: block.instructions }

def withKnown (builder : Builder) (label : Label) (var : Variable) (value : Value) : Builder :=
  builder.modifyState label fun state => { state with known := (var, value) :: state.known }

def withPending (builder : Builder) (label : Label) (var : Variable) (value : Value) :
    Builder :=
  builder.modifyState label fun state =>
    { state with pending := state.pending ++ [(var, value)] }

def withArgument (builder : Builder) (edge : Edge) (value : Value) : Builder :=
  builder.modifyBlock edge.source fun block =>
    { block with
      instructions := block.instructions.dropLast ++
        block.instructions.getLast?.toList.map fun last =>
          { last with
            operation := last.operation.changeDestination
              (fun destination =>
                { destination with arguments := destination.arguments ++ [value] })
              edge.side } }

def withSeal (builder : Builder) (label : Label) : Builder :=
  builder.modifyState label fun state => { state with pending := [], isSealed := true }

def withBlock (builder : Builder) : Builder :=
  { builder with
    function := { builder.function with blocks := builder.function.blocks.push .empty }
    states := builder.states.push .fresh }

def withCurrent (builder : Builder) (label : Label) : Builder :=
  { if (builder.state label).isPlaced then builder
    else
      { builder.modifyState label fun state => { state with isPlaced := true } with
        function := { builder.function with layout := builder.function.layout ++ [label] } }
    with current := some label }

def nextValues (builder : Builder) (count : Nat) : List Value :=
  (List.range' builder.function.values.size count).map Value.mk

def withValues (builder : Builder) (label : Label) (types : List MachineType) : Builder :=
  { builder with
    function := { builder.function with
      values := builder.function.values ++ (types.map fun type => ⟨type, false, label⟩).toArray } }

/-- The edges to a block among the destinations of a branch, of which the first has the given
number. -/
def edgesTo (source target : Label) : (side : Nat) → List Destination → List Edge
  | _, [] => []
  | side, destination :: rest =>
    if destination.block = target then ⟨source, side⟩ :: edgesTo source target (side + 1) rest
    else edgesTo source target (side + 1) rest

def withEdges (builder : Builder) (source : Label) : (side : Nat) → List Destination → Builder
  | _, [] => builder
  | side, destination :: rest =>
    (builder.modifyState destination.block fun state =>
      { state with predecessors := state.predecessors ++ [⟨source, side⟩] }).withEdges source
        (side + 1) rest

def withInstruction (builder : Builder) (label : Label) (operation : Operation)
    (types : List MachineType) : Builder :=
  ((builder.withValues label types).modifyBlock label fun block =>
    { block with
      instructions := block.instructions ++
        [{ results := builder.nextValues types.length, operation }] }).withEdges label 0
    operation.destinations

/-! ## Blocks after a change -/

section Blocks

variable (builder : Builder) (label other : Label)

@[simp] theorem block_newValue (info : ValueInfo) :
    (builder.newValue info).2.function.block other = builder.function.block other := rfl

@[simp] theorem hasBlock_newValue (info : ValueInfo) :
    (builder.newValue info).2.hasBlock other = builder.hasBlock other := rfl

@[simp] theorem block_withValues (types : List MachineType) :
    (builder.withValues label types).function.block other = builder.function.block other := rfl

@[simp] theorem hasBlock_withValues (types : List MachineType) :
    (builder.withValues label types).hasBlock other = builder.hasBlock other := rfl

theorem block_withParameter (type : MachineType) (inside : builder.hasBlock label) :
    (builder.withParameter label type).function.block other =
      if other = label then
        { builder.function.block label with
          parameters := (builder.function.block label).parameters ++ [builder.nextValue] }
      else builder.function.block other := by
  rw [withParameter, block_modifyBlock]
  simp [inside]

theorem block_withZero (type : MachineType) (inside : builder.hasBlock label) :
    (builder.withZero label type).function.block other =
      if other = label then
        { builder.function.block label with
          instructions := zeroInstruction type builder.nextValue ::
            (builder.function.block label).instructions }
      else builder.function.block other := by
  rw [withZero, block_modifyBlock]
  simp [inside]

theorem field_modifyBlock (field : Block → α) {change : Block → Block}
    (same : ∀ block, field (change block) = field block) :
    field ((builder.modifyBlock label change).function.block other) =
      field (builder.function.block other) := by
  rw [block_modifyBlock]
  split
  · rename_i condition
    rw [same, condition.1]
  · rfl

@[simp] theorem instructions_withParameter (type : MachineType) :
    ((builder.withParameter label type).function.block other).instructions =
      (builder.function.block other).instructions :=
  field_modifyBlock _ label other Block.instructions fun _ => rfl

@[simp] theorem parameters_withZero (type : MachineType) :
    ((builder.withZero label type).function.block other).parameters =
      (builder.function.block other).parameters :=
  field_modifyBlock _ label other Block.parameters fun _ => rfl

@[simp] theorem parameters_withArgument (edge : Edge) (value : Value) :
    ((builder.withArgument edge value).function.block other).parameters =
      (builder.function.block other).parameters :=
  field_modifyBlock builder edge.source other Block.parameters fun _ => rfl

@[simp] theorem block_withBlock :
    builder.withBlock.function.block other = builder.function.block other := by
  simp only [withBlock, Function.block, Function.block?, Array.getElem?_push]
  by_cases last : other.index = builder.function.blocks.size
  · simp [last]
  · simp [last]

@[simp] theorem function_withKnown (var : Variable) (value : Value) :
    (builder.withKnown label var value).function = builder.function := rfl

@[simp] theorem function_withPending (var : Variable) (value : Value) :
    (builder.withPending label var value).function = builder.function := rfl

@[simp] theorem function_withSeal : (builder.withSeal label).function = builder.function := rfl

@[simp] theorem function_withEdges (side : Nat) (destinations : List Destination) :
    (builder.withEdges label side destinations).function = builder.function := by
  induction destinations generalizing builder side with
  | nil => rfl
  | cons destination rest induction => simp [withEdges, induction]

@[simp] theorem block_withCurrent :
    (builder.withCurrent label).function.block other = builder.function.block other := by
  simp only [withCurrent]
  split <;> rfl

@[simp] theorem parameters_withInstruction (operation : Operation) (types : List MachineType) :
    ((builder.withInstruction label operation types).function.block other).parameters =
      (builder.function.block other).parameters := by
  rw [withInstruction, function_withEdges]
  exact field_modifyBlock _ label other Block.parameters fun _ => rfl

@[simp] theorem current_withEdges (side : Nat) (destinations : List Destination) :
    (builder.withEdges label side destinations).current = builder.current := by
  induction destinations generalizing builder side with
  | nil => rfl
  | cons destination rest induction =>
      rw [withEdges, induction]
      rfl

@[simp] theorem declared_withEdges (side : Nat) (destinations : List Destination) :
    (builder.withEdges label side destinations).declared = builder.declared := by
  induction destinations generalizing builder side with
  | nil => rfl
  | cons destination rest induction =>
      rw [withEdges, induction]
      rfl

@[simp] theorem states_size_withEdges (side : Nat) (destinations : List Destination) :
    (builder.withEdges label side destinations).states.size = builder.states.size := by
  induction destinations generalizing builder side with
  | nil => rfl
  | cons destination rest induction =>
      rw [withEdges, induction]
      simp

@[simp] theorem id_withEdges (side : Nat) (destinations : List Destination) :
    (builder.withEdges label side destinations).id = builder.id := by
  induction destinations generalizing builder side with
  | nil => rfl
  | cons destination rest induction =>
      simp only [withEdges]
      rw [induction]
      rfl

@[simp] theorem imports_withEdges (side : Nat) (destinations : List Destination) :
    (builder.withEdges label side destinations).imports = builder.imports := by
  induction destinations generalizing builder side with
  | nil => rfl
  | cons destination rest induction =>
      rw [withEdges, induction]
      rfl

theorem block_withInstruction (operation : Operation) (types : List MachineType)
    (inside : builder.hasBlock label) :
    (builder.withInstruction label operation types).function.block other =
      if other = label then
        { builder.function.block label with
          instructions := (builder.function.block label).instructions ++
            [{ results := builder.nextValues types.length, operation }] }
      else builder.function.block other := by
  rw [withInstruction, function_withEdges, block_modifyBlock]
  simp [inside]

end Blocks

/-! ## States after a change -/

section States

variable (builder : Builder) (label other : Label)

@[simp] theorem state_withParameter (type : MachineType) :
    (builder.withParameter label type).state other = builder.state other := rfl

@[simp] theorem state_withZero (type : MachineType) :
    (builder.withZero label type).state other = builder.state other := rfl

@[simp] theorem state_withArgument (edge : Edge) (value : Value) :
    (builder.withArgument edge value).state other = builder.state other := rfl

@[simp] theorem state_withBlock : builder.withBlock.state other = builder.state other := by
  simp only [withBlock, state, Array.getD_eq_getD_getElem?, Array.getElem?_push]
  by_cases last : other.index = builder.states.size
  · simp [last]
  · simp [last]

theorem state_withKnown (var : Variable) (value : Value)
    (inside : label.index < builder.states.size) :
    (builder.withKnown label var value).state other =
      if other = label then
        { builder.state label with known := (var, value) :: (builder.state label).known }
      else builder.state other := by
  simp [withKnown, state_modifyState, inside]

theorem state_withPending (var : Variable) (value : Value)
    (inside : label.index < builder.states.size) :
    (builder.withPending label var value).state other =
      if other = label then
        { builder.state label with
          pending := (builder.state label).pending ++ [(var, value)] }
      else builder.state other := by
  simp [withPending, state_modifyState, inside]

theorem state_withSeal (inside : label.index < builder.states.size) :
    (builder.withSeal label).state other =
      if other = label then { builder.state label with pending := [], isSealed := true }
      else builder.state other := by
  simp [withSeal, state_modifyState, inside]

theorem state_withCurrent (inside : label.index < builder.states.size) :
    (builder.withCurrent label).state other =
      if other = label then { builder.state label with isPlaced := true }
      else builder.state other := by
  by_cases placed : (builder.state label).isPlaced
  · by_cases same : other = label
    · subst same
      have whole : builder.state other = { builder.state other with isPlaced := true } := by
        rw [← placed]
      simp only [withCurrent, placed, if_true]
      exact whole
    · simp [withCurrent, placed, same]
      rfl
  · have view : (builder.withCurrent label).state other =
        (builder.modifyState label fun state => { state with isPlaced := true }).state other := by
      simp only [withCurrent, placed]
      rfl
    rw [view, state_modifyState]
    simp [inside]

theorem state_withEdges (side : Nat) (destinations : List Destination)
    (inside : ∀ destination ∈ destinations, destination.block.index < builder.states.size) :
    (builder.withEdges label side destinations).state other =
      { builder.state other with
        predecessors := (builder.state other).predecessors ++
          edgesTo label other side destinations } := by
  induction destinations generalizing builder side with
  | nil => simp [withEdges, edgesTo]
  | cons destination rest induction =>
      have first := inside destination List.mem_cons_self
      rw [withEdges, induction _ _ (by
        intro later member
        rw [states_size_modifyState]
        exact inside later (List.mem_cons_of_mem destination member))]
      rw [state_modifyState]
      by_cases same : destination.block = other
      · subst same
        simp [first, edgesTo]
      · have different : other ≠ destination.block := fun equal => same equal.symm
        simp [different, same, edgesTo]

theorem state_withInstruction (operation : Operation) (types : List MachineType)
    (inside : ∀ destination ∈ operation.destinations,
      destination.block.index < builder.states.size) :
    (builder.withInstruction label operation types).state other =
      { builder.state other with
        predecessors := (builder.state other).predecessors ++
          edgesTo label other 0 operation.destinations } := by
  rw [withInstruction, state_withEdges]
  · rfl
  · exact inside

theorem field_modifyState (field : BlockState → α) {change : BlockState → BlockState}
    (same : ∀ state, field (change state) = field state) :
    field ((builder.modifyState label change).state other) = field (builder.state other) := by
  rw [state_modifyState]
  split
  · rename_i condition
    rw [same, condition.1]
  · rfl

@[simp] theorem isSealed_withKnown (var : Variable) (value : Value) :
    ((builder.withKnown label var value).state other).isSealed =
      (builder.state other).isSealed :=
  field_modifyState builder label other BlockState.isSealed fun _ => rfl

@[simp] theorem isPlaced_withKnown (var : Variable) (value : Value) :
    ((builder.withKnown label var value).state other).isPlaced =
      (builder.state other).isPlaced :=
  field_modifyState builder label other BlockState.isPlaced fun _ => rfl

@[simp] theorem predecessors_withKnown (var : Variable) (value : Value) :
    ((builder.withKnown label var value).state other).predecessors =
      (builder.state other).predecessors :=
  field_modifyState builder label other BlockState.predecessors fun _ => rfl

@[simp] theorem pending_withKnown (var : Variable) (value : Value) :
    ((builder.withKnown label var value).state other).pending =
      (builder.state other).pending :=
  field_modifyState builder label other BlockState.pending fun _ => rfl

@[simp] theorem isSealed_withPending (var : Variable) (value : Value) :
    ((builder.withPending label var value).state other).isSealed =
      (builder.state other).isSealed :=
  field_modifyState builder label other BlockState.isSealed fun _ => rfl

@[simp] theorem isPlaced_withPending (var : Variable) (value : Value) :
    ((builder.withPending label var value).state other).isPlaced =
      (builder.state other).isPlaced :=
  field_modifyState builder label other BlockState.isPlaced fun _ => rfl

@[simp] theorem predecessors_withPending (var : Variable) (value : Value) :
    ((builder.withPending label var value).state other).predecessors =
      (builder.state other).predecessors :=
  field_modifyState builder label other BlockState.predecessors fun _ => rfl

@[simp] theorem known_withPending (var : Variable) (value : Value) :
    (builder.withPending label var value).known other = builder.known other := by
  funext asked
  exact field_modifyState builder label other (fun state => state.known.lookup asked)
    fun _ => rfl

@[simp] theorem isPlaced_withSeal :
    ((builder.withSeal label).state other).isPlaced = (builder.state other).isPlaced :=
  field_modifyState builder label other BlockState.isPlaced fun _ => rfl

@[simp] theorem predecessors_withSeal :
    ((builder.withSeal label).state other).predecessors =
      (builder.state other).predecessors :=
  field_modifyState builder label other BlockState.predecessors fun _ => rfl

@[simp] theorem known_withSeal : (builder.withSeal label).known other = builder.known other := by
  funext asked
  exact field_modifyState builder label other (fun state => state.known.lookup asked)
    fun _ => rfl

theorem field_withCurrent (field : BlockState → α)
    (same : ∀ state : BlockState, field { state with isPlaced := true } = field state) :
    field ((builder.withCurrent label).state other) = field (builder.state other) := by
  by_cases placed : (builder.state label).isPlaced
  · simp only [withCurrent, placed]
    rfl
  · simp only [withCurrent, placed]
    exact field_modifyState builder label other field same

@[simp] theorem isSealed_withCurrent :
    ((builder.withCurrent label).state other).isSealed = (builder.state other).isSealed :=
  field_withCurrent builder label other BlockState.isSealed fun _ => rfl

@[simp] theorem predecessors_withCurrent :
    ((builder.withCurrent label).state other).predecessors =
      (builder.state other).predecessors :=
  field_withCurrent builder label other BlockState.predecessors fun _ => rfl

@[simp] theorem pending_withCurrent :
    ((builder.withCurrent label).state other).pending = (builder.state other).pending :=
  field_withCurrent builder label other BlockState.pending fun _ => rfl

@[simp] theorem known_withCurrent :
    (builder.withCurrent label).known other = builder.known other := by
  funext asked
  exact field_withCurrent builder label other (fun state => state.known.lookup asked)
    fun _ => rfl

theorem field_withEdges (field : BlockState → α) (side : Nat) (destinations : List Destination)
    (same : ∀ (state : BlockState) (edges : List Edge),
      field { state with predecessors := edges } = field state) :
    field ((builder.withEdges label side destinations).state other) =
      field (builder.state other) := by
  induction destinations generalizing builder side with
  | nil => rfl
  | cons destination rest induction =>
      rw [withEdges, induction]
      exact field_modifyState builder destination.block other field fun state => same state _

@[simp] theorem isSealed_withInstruction (operation : Operation) (types : List MachineType) :
    ((builder.withInstruction label operation types).state other).isSealed =
      (builder.state other).isSealed :=
  field_withEdges _ label other BlockState.isSealed 0 operation.destinations fun _ _ => rfl

@[simp] theorem isPlaced_withInstruction (operation : Operation) (types : List MachineType) :
    ((builder.withInstruction label operation types).state other).isPlaced =
      (builder.state other).isPlaced :=
  field_withEdges _ label other BlockState.isPlaced 0 operation.destinations fun _ _ => rfl

@[simp] theorem pending_withInstruction (operation : Operation) (types : List MachineType) :
    ((builder.withInstruction label operation types).state other).pending =
      (builder.state other).pending :=
  field_withEdges _ label other BlockState.pending 0 operation.destinations fun _ _ => rfl

@[simp] theorem known_withInstruction (operation : Operation) (types : List MachineType) :
    (builder.withInstruction label operation types).known other = builder.known other := by
  funext asked
  exact field_withEdges _ label other (fun state => state.known.lookup asked) 0
    operation.destinations fun _ _ => rfl

@[simp] theorem known_withParameter (type : MachineType) :
    (builder.withParameter label type).known other = builder.known other := rfl

@[simp] theorem known_withZero (type : MachineType) :
    (builder.withZero label type).known other = builder.known other := rfl

@[simp] theorem known_withArgument (edge : Edge) (value : Value) :
    (builder.withArgument edge value).known other = builder.known other := rfl

@[simp] theorem known_withBlock : builder.withBlock.known other = builder.known other := by
  funext asked
  rw [known, known, state_withBlock]

theorem known_withKnown (var : Variable) (value : Value)
    (inside : label.index < builder.states.size) (asked : Variable) :
    (builder.withKnown label var value).known other asked =
      if other = label ∧ asked = var then some value else builder.known other asked := by
  rw [known, known, state_withKnown builder label other var value inside]
  by_cases same : other = label
  · subst same
    by_cases equal : asked = var
    · simp [equal]
    · have different : (asked == var) = false := by simpa using equal
      simp [equal, List.lookup_cons, different]
  · simp [same]

/-- The edges to a block among destinations, the first of which has the number `side`. -/
theorem mem_edgesTo {source target : Label} {side : Nat} {destinations : List Destination}
    {edge : Edge} :
    edge ∈ edgesTo source target side destinations ↔
      edge.source = source ∧ side ≤ edge.side ∧
        ∃ destination, destinations[edge.side - side]? = some destination ∧
          destination.block = target := by
  induction destinations generalizing side with
  | nil => simp [edgesTo]
  | cons head rest induction =>
      have shift (later : side + 1 ≤ edge.side) :
          (head :: rest)[edge.side - side]? = rest[edge.side - (side + 1)]? := by
        rw [show edge.side - side = (edge.side - (side + 1)) + 1 by omega,
          List.getElem?_cons_succ]
      have tail : edge ∈ edgesTo source target (side + 1) rest ↔
          edge.source = source ∧ side < edge.side ∧ ∃ destination,
            (head :: rest)[edge.side - side]? = some destination ∧
              destination.block = target := by
        rw [induction]
        constructor
        · rintro ⟨same, later, found⟩
          rw [← shift later] at found
          exact ⟨same, later, found⟩
        · rintro ⟨same, later, found⟩
          rw [shift later] at found
          exact ⟨same, later, found⟩
      by_cases same : head.block = target
      · rw [edgesTo, if_pos same, List.mem_cons, tail]
        constructor
        · rintro (rfl | ⟨equal, later, found⟩)
          · exact ⟨rfl, Nat.le_refl _, head, by simp, same⟩
          · exact ⟨equal, Nat.le_of_lt later, found⟩
        · rintro ⟨equal, later, found⟩
          rcases Nat.lt_or_eq_of_le later with less | first
          · exact .inr ⟨equal, less, found⟩
          · left
            cases edge
            cases equal
            cases first
            rfl
      · rw [edgesTo, if_neg same, tail]
        constructor
        · rintro ⟨equal, later, found⟩
          exact ⟨equal, Nat.le_of_lt later, found⟩
        · rintro ⟨equal, later, destination, found, block⟩
          refine ⟨equal, ?_, destination, found, block⟩
          rcases Nat.lt_or_eq_of_le later with less | first
          · exact less
          · rw [← first, Nat.sub_self, List.getElem?_cons_zero] at found
            cases found
            exact absurd block same

end States

/-! ## Sizes after a change -/

section Sizes

variable (builder : Builder) (label : Label)

@[simp] theorem hasBlock_withParameter (type : MachineType) (other : Label) :
    (builder.withParameter label type).hasBlock other = builder.hasBlock other := by
  simp [withParameter]

@[simp] theorem hasBlock_withZero (type : MachineType) (other : Label) :
    (builder.withZero label type).hasBlock other = builder.hasBlock other := by
  simp [withZero]

@[simp] theorem hasBlock_withKnown (var : Variable) (value : Value) (other : Label) :
    (builder.withKnown label var value).hasBlock other = builder.hasBlock other := rfl

@[simp] theorem hasBlock_withPending (var : Variable) (value : Value) (other : Label) :
    (builder.withPending label var value).hasBlock other = builder.hasBlock other := rfl

@[simp] theorem hasBlock_withArgument (edge : Edge) (value : Value) (other : Label) :
    (builder.withArgument edge value).hasBlock other = builder.hasBlock other := by
  simp [withArgument]

@[simp] theorem hasBlock_withSeal (other : Label) :
    (builder.withSeal label).hasBlock other = builder.hasBlock other := rfl

@[simp] theorem hasBlock_withCurrent (other : Label) :
    (builder.withCurrent label).hasBlock other = builder.hasBlock other := by
  simp only [withCurrent]
  split <;> rfl

@[simp] theorem hasBlock_withEdges (side : Nat) (destinations : List Destination)
    (other : Label) :
    (builder.withEdges label side destinations).hasBlock other = builder.hasBlock other := by
  simp [hasBlock]

@[simp] theorem hasBlock_withInstruction (operation : Operation) (types : List MachineType)
    (other : Label) :
    (builder.withInstruction label operation types).hasBlock other =
      builder.hasBlock other := by
  simp [withInstruction]

theorem hasBlock_withBlock (other : Label) :
    builder.withBlock.hasBlock other =
      decide (other.index < builder.function.blocks.size + 1) := by
  simp [withBlock, hasBlock]

@[simp] theorem states_size_withParameter (type : MachineType) :
    (builder.withParameter label type).states.size = builder.states.size := rfl

@[simp] theorem states_size_withZero (type : MachineType) :
    (builder.withZero label type).states.size = builder.states.size := rfl

@[simp] theorem states_size_withKnown (var : Variable) (value : Value) :
    (builder.withKnown label var value).states.size = builder.states.size := by
  simp [withKnown]

@[simp] theorem states_size_withPending (var : Variable) (value : Value) :
    (builder.withPending label var value).states.size = builder.states.size := by
  simp [withPending]

end Sizes

end Builder
end ExprLang.Ssa
