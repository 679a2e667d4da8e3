import ExprLang.Proofs.Ssa.Construction

/-!
# The shape of a function under construction

The shape is what only the caller of a builder decides on. Lookups do not change it, so it is
known exactly after each deed.
-/

namespace ExprLang.Ssa

/-- The blocks of a function under construction: how many there are, which one is filled, and
for each one what was put into it, whether it is sealed and placed, from where it can be
entered, and its explicit parameters. -/
@[ext]
structure Shape where
  blocks : Nat
  current : Option Label
  script : Label → List Event
  isSealed : Label → Bool
  isPlaced : Label → Bool
  predecessors : Label → List Edge
  explicit : Label → List Value

namespace Shape

def create (shape : Shape) : Shape :=
  { shape with blocks := shape.blocks + 1 }

def switch (shape : Shape) (label : Label) : Shape :=
  { shape with
    current := some label
    isPlaced := Function.update shape.isPlaced label true }

def parameter (shape : Shape) (label : Label) (value : Value) : Shape :=
  { shape with
    explicit := Function.update shape.explicit label (shape.explicit label ++ [value]) }

def close (shape : Shape) (label : Label) : Shape :=
  { shape with isSealed := Function.update shape.isSealed label true }

def note (shape : Shape) (label : Label) (event : Event) : Shape :=
  { shape with script := Function.update shape.script label (shape.script label ++ [event]) }

def emit (shape : Shape) (label : Label) (instruction : Instruction) : Shape :=
  { shape.note label (.instruction instruction) with
    predecessors := fun target => shape.predecessors target ++
      Builder.edgesTo label target 0 instruction.operation.destinations }

theorem emit_of_plain (shape : Shape) (label : Label) {instruction : Instruction}
    (plain : instruction.isTerminator = false) :
    shape.emit label instruction = shape.note label (.instruction instruction) := by
  simp [emit, note, Operation.destinations_eq_nil plain, Builder.edgesTo]

def Terminated (shape : Shape) (label : Label) : Prop :=
  ∃ instruction ∈ emitted (shape.script label), instruction.isTerminator = true

structure Bare (shape : Shape) : Prop where
  script : ∀ label, shape.blocks ≤ label.index → shape.script label = []
  isSealed : ∀ label, shape.blocks ≤ label.index → shape.isSealed label = false
  isPlaced : ∀ label, shape.blocks ≤ label.index → shape.isPlaced label = false
  predecessors : ∀ label, shape.blocks ≤ label.index → shape.predecessors label = []
  explicit : ∀ label, shape.blocks ≤ label.index → shape.explicit label = []

end Shape

namespace Recording

def shape (recording : Recording) : Shape where
  blocks := recording.builder.function.blocks.size
  current := recording.builder.current
  script := recording.script
  isSealed label := (recording.builder.state label).isSealed
  isPlaced label := (recording.builder.state label).isPlaced
  predecessors label := (recording.builder.state label).predecessors
  explicit := recording.explicit

variable {recording : Recording}

theorem hasBlock_iff (recording : Recording) (label : Label) :
    recording.builder.hasBlock label = true ↔ label.index < recording.shape.blocks := by
  simp [Builder.hasBlock, shape]

theorem bare (sound : Sound recording) : recording.shape.Bare := by
  have absent : ∀ label : Label, recording.shape.blocks ≤ label.index →
      recording.builder.hasBlock label = false := by
    intro label outside
    rw [← Bool.not_eq_true, hasBlock_iff]
    omega
  constructor
  · intro label outside
    by_contra nonempty
    have exist := sound.scripted.existing label nonempty
    rw [absent label outside] at exist
    cases exist
  · intro label outside
    simp [shape, recording.state_of_absent (absent label outside), BlockState.fresh]
  · intro label outside
    simp [shape, recording.state_of_absent (absent label outside), BlockState.fresh]
  · intro label outside
    simp [shape, recording.state_of_absent (absent label outside), BlockState.fresh]
  · intro label outside
    have parameters := (sound.linked.parameters label).length_eq
    have none : recording.builder.function.block? label = none := by
      simpa [Function.block?, shape] using outside
    simp only [Function.block, none, Option.getD_none, Block.empty, List.length_nil,
      List.length_append] at parameters
    have empty : (recording.explicit label).length = 0 := by omega
    exact List.length_eq_zero_iff.mp empty

theorem terminated_iff (sound : Sound recording) (label : Label) :
    (recording.builder.function.block label).isTerminated = true ↔
      recording.shape.Terminated label :=
  sound.scripted.isTerminated_iff label

end Recording

theorem Keeps.shape {recording later : Recording} (keeps : Keeps recording later) :
    later.shape = recording.shape := by
  have blocks : later.shape.blocks = recording.shape.blocks := by
    have inside : ∀ index : Nat, index < later.shape.blocks ↔ index < recording.shape.blocks := by
      intro index
      rw [← later.hasBlock_iff ⟨index⟩, ← recording.hasBlock_iff ⟨index⟩, keeps.hasBlock]
    have left := inside later.shape.blocks
    have right := inside recording.shape.blocks
    omega
  exact Shape.ext blocks keeps.current keeps.script (funext keeps.isSealed)
    (funext keeps.isPlaced) (funext keeps.predecessors) keeps.explicit

/-! ## The shape after a deed -/

namespace Recording

variable {recording : Recording}

@[simp] theorem shape_create (recording : Recording) :
    recording.create.shape = recording.shape.create := by
  refine Shape.ext ?_ rfl rfl ?_ ?_ ?_ rfl
  · simp [shape, create, Shape.create, Builder.withBlock]
  · simp [shape, create, Shape.create]
  · simp [shape, create, Shape.create]
  · simp [shape, create, Shape.create]

theorem shape_switch {label : Label} (inside : recording.builder.hasBlock label = true) :
    (recording.switch label).shape = recording.shape.switch label := by
  refine Shape.ext ?_ rfl rfl ?_ ?_ ?_ rfl
  · simp only [shape, switch, Shape.switch, Builder.withCurrent]
    split <;> rfl
  · simp [shape, switch, Shape.switch]
  · funext other
    simp only [shape, switch, Shape.switch,
      Builder.state_withCurrent _ _ _ (recording.inside inside), Function.update_apply]
    split <;> rfl
  · simp [shape, switch, Shape.switch]

@[simp] theorem shape_parameter (recording : Recording) (label : Label) (type : MachineType) :
    (recording.parameter label type).shape =
      recording.shape.parameter label recording.builder.nextValue := by
  refine Shape.ext ?_ rfl rfl rfl rfl rfl rfl
  simp [shape, parameter, Shape.parameter, Builder.withParameter, Builder.newValue]

@[simp] theorem shape_declare (recording : Recording) (var : Variable) (type : MachineType) :
    (recording.declare var type).shape = recording.shape := rfl

@[simp] theorem shape_define (recording : Recording) (label : Label) (var : Variable)
    (value : Value) :
    (recording.define label var value).shape =
      recording.shape.note label (.define var value) := by
  refine Shape.ext rfl rfl rfl ?_ ?_ ?_ rfl
  · simp [shape, define, Shape.note]
  · simp [shape, define, Shape.note]
  · simp [shape, define, Shape.note]

@[simp] theorem shape_use (recording : Recording) (label : Label) (var : Variable)
    (value : Value) :
    (recording.use label var value).shape = recording.shape.note label (.use var value) := rfl

theorem shape_close {label : Label} (inside : recording.builder.hasBlock label = true) :
    (recording.close label).shape = recording.shape.close label := by
  refine Shape.ext rfl rfl rfl ?_ ?_ ?_ rfl
  · funext other
    simp only [shape, close, Shape.close,
      Builder.state_withSeal _ _ _ (recording.inside inside), Function.update_apply]
    split <;> rfl
  · simp [shape, close, Shape.close]
  · simp [shape, close, Shape.close]

theorem shape_emit {label : Label} {operation : Operation} {types : List MachineType}
    (fits : operation.Fits recording.builder types) :
    (recording.emit label operation types).shape = recording.shape.emit label
      { results := recording.builder.nextValues types.length, operation } := by
  have targets : ∀ destination ∈ operation.destinations,
      destination.block.index < recording.builder.states.size := fun destination member =>
    recording.inside (fits.destination member).1
  refine Shape.ext ?_ ?_ rfl ?_ ?_ ?_ rfl
  · simp [shape, emit, Shape.emit, Shape.note, Builder.withInstruction, Builder.withValues]
  · simp [shape, emit, Shape.emit, Shape.note, Builder.withInstruction, Builder.withValues]
    rfl
  · simp [shape, emit, Shape.emit, Shape.note]
  · simp [shape, emit, Shape.emit, Shape.note]
  · funext other
    simp only [shape, emit, Shape.emit, Shape.note,
      Builder.state_withInstruction _ _ _ _ _ targets]

@[simp] theorem shape_refer (recording : Recording) (external : External) :
    (recording.refer external).shape = recording.shape := rfl

@[simp] theorem shape_reserve (recording : Recording) (size : UInt32) :
    (recording.reserve size).shape = recording.shape := rfl

end Recording

namespace Performs

variable {entry : Option Label} {recording later : Recording}

theorem shape_create (performs : Performs entry .create recording later) :
    later.shape = recording.shape.create := by
  cases performs
  simp

theorem shape_switch {label : Label} (performs : Performs entry (.switch label) recording later) :
    later.shape = recording.shape.switch label := by
  cases performs with
  | switch _ inside _ => exact Recording.shape_switch inside

theorem shape_parameter {label : Label} {type : MachineType}
    (performs : Performs entry (.parameter label type) recording later) :
    later.shape = recording.shape.parameter label recording.builder.nextValue := by
  cases performs
  simp

theorem shape_declare {var : Variable} {type : MachineType}
    (performs : Performs entry (.declare var type) recording later) :
    later.shape = recording.shape := by
  cases performs
  simp

theorem shape_define {label : Label} {var : Variable} {value : Value}
    (performs : Performs entry (.define var value) recording later)
    (current : recording.shape.current = some label) :
    later.shape = recording.shape.note label (.define var value) := by
  cases performs with
  | define other _ _ _ same =>
      cases same.symm.trans current
      simp

theorem shape_use {label : Label} {var : Variable} {value : Value}
    (performs : Performs entry (.use var value) recording later)
    (current : recording.shape.current = some label) :
    later.shape = recording.shape.note label (.use var value) := by
  cases performs with
  | use other _ _ looked _ same =>
      have keeps := looked.keeps
      rw [keeps.current] at same
      cases same.symm.trans current
      rw [Recording.shape_use, keeps.shape]

theorem shape_close {label : Label} (performs : Performs entry (.close label) recording later) :
    later.shape = recording.shape.close label := by
  cases performs with
  | close _ looked _ inside =>
      rw [Recording.shape_close inside, looked.keeps.shape]

theorem shape_emit {label : Label} {operation : Operation} {types : List MachineType}
    (performs : Performs entry (.emit operation types) recording later)
    (current : recording.shape.current = some label) :
    later.shape = recording.shape.emit label
      { results := recording.builder.nextValues types.length, operation } := by
  cases performs with
  | emit other _ _ same _ _ fits =>
      cases same.symm.trans current
      exact Recording.shape_emit fits

theorem shape_refer {external : External}
    (performs : Performs entry (.refer external) recording later) :
    later.shape = recording.shape := by
  cases performs
  simp

theorem shape_reserve {size : UInt32}
    (performs : Performs entry (.reserve size) recording later) :
    later.shape = recording.shape := by
  cases performs
  simp

end Performs

end ExprLang.Ssa
