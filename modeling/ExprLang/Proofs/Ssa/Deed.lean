import ExprLang.Proofs.Ssa.Resolution

/-!
# Deeds

What the caller of a builder gets done with one request. Reading a variable and sealing a block
may first resolve variables; every other deed is a single move. After each deed all branches
pass the arguments that they have to.
-/

namespace ExprLang.Ssa

inductive Deed where
  | create
  | switch (label : Label)
  | parameter (label : Label) (type : MachineType)
  | declare (var : Variable) (type : MachineType)
  | define (var : Variable) (value : Value)
  | use (var : Variable) (value : Value)
  | close (label : Label)
  | emit (operation : Operation) (types : List MachineType)
  | refer (external : External)
  | reserve (size : UInt32)

inductive Performs (entry : Option Label) : Deed → Recording → Recording → Prop
  | create {recording : Recording} : Performs entry .create recording recording.create
  | switch {recording : Recording} (label : Label)
      (inside : recording.builder.hasBlock label = true)
      (left : ∀ old, recording.builder.current = some old →
        (recording.builder.function.block old).instructions = [] ∨
          (recording.builder.function.block old).isTerminated = true) :
      Performs entry (.switch label) recording (recording.switch label)
  | parameter {recording : Recording} (label : Label) (type : MachineType)
      (inside : recording.builder.hasBlock label = true)
      (ready : (recording.builder.state label).pending = [])
      (early : ∀ first, entry = some first → label ≠ first →
        (recording.builder.state label).predecessors = []) :
      Performs entry (.parameter label type) recording (recording.parameter label type)
  | declare {recording : Recording} (var : Variable) (type : MachineType)
      (unknown : recording.builder.declared.lookup var = none) :
      Performs entry (.declare var type) recording (recording.declare var type)
  | define {recording : Recording} (label : Label) (var : Variable) (type : MachineType)
      (value : Value)
      (current : recording.builder.current = some label)
      (declared : recording.builder.declared.lookup var = some type)
      (typed : recording.builder.function.type? value = some type)
      (early : entry.isSome → (recording.builder.function.block label).isTerminated = false) :
      Performs entry (.define var value) recording (recording.define label var value)
  | use {recording middle : Recording} (label : Label) (var : Variable) (value : Value)
      (looked : Resolves recording middle) (settled : middle.Settled)
      (current : middle.builder.current = some label)
      (holds : middle.builder.known label var = some value)
      (early : entry.isSome → (middle.builder.function.block label).isTerminated = false) :
      Performs entry (.use var value) recording (middle.use label var value)
  | close {recording middle : Recording} (label : Label)
      (looked : Resolves recording middle) (settled : (middle.close label).Settled)
      (inside : middle.builder.hasBlock label = true)
      (unsealed : (middle.builder.state label).isSealed = false)
      (complete : ∀ edge ∈ (middle.builder.state label).predecessors,
        (middle.appended edge).length = (middle.joined label).length) :
      Performs entry (.close label) recording (middle.close label)
  | emit {recording : Recording} (label : Label) (operation : Operation)
      (types : List MachineType)
      (current : recording.builder.current = some label)
      (unfinished : (recording.builder.function.block label).isTerminated = false)
      (operands : ∀ value ∈ operation.operands,
        (recording.builder.function.value? value).isSome = true)
      (fits : operation.Fits recording.builder types) :
      Performs entry (.emit operation types) recording (recording.emit label operation types)
  | refer {recording : Recording} (external : External)
      (unknown : recording.builder.imports.lookup external.id = none) :
      Performs entry (.refer external) recording (recording.refer external)
  | reserve {recording : Recording} (size : UInt32) :
      Performs entry (.reserve size) recording (recording.reserve size)

inductive PerformsAll (entry : Option Label) : List Deed → Recording → Recording → Prop
  | nil {recording : Recording} : PerformsAll entry [] recording recording
  | cons {recording middle later : Recording} {deed : Deed} {deeds : List Deed}
      (first : Performs entry deed recording middle)
      (rest : PerformsAll entry deeds middle later) :
      PerformsAll entry (deed :: deeds) recording later

variable {entry : Option Label} {recording middle later : Recording} {deed : Deed}
  {deeds others : List Deed}

theorem Performs.moves (performs : Performs entry deed recording later) :
    Moves entry recording later := by
  cases performs with
  | create => exact .single .create
  | switch label inside left => exact .single (.switch label inside left)
  | parameter label type inside ready early =>
      exact .single (.parameter label type inside ready early)
  | declare var type unknown => exact .single (.declare var type unknown)
  | define label var type value current declared typed early =>
      exact .single (.define label var type value current declared typed early)
  | use label var value looked settled current holds early =>
      exact looked.moves.tail (.use label var value current holds early)
  | close label looked settled inside unsealed complete =>
      exact looked.moves.tail (.close label inside unsealed complete)
  | emit label operation types current unfinished operands fits =>
      exact .single (.emit label operation types current unfinished operands fits)
  | refer external unknown => exact .single (.refer external unknown)
  | reserve size => exact .single (.reserve size)

theorem PerformsAll.moves (performs : PerformsAll entry deeds recording later) :
    Moves entry recording later := by
  induction performs with
  | nil => exact .refl
  | cons first _ induction => exact first.moves.trans induction

theorem PerformsAll.append (first : PerformsAll entry deeds recording middle)
    (second : PerformsAll entry others middle later) :
    PerformsAll entry (deeds ++ others) recording later := by
  induction first with
  | nil => exact second
  | cons done _ induction => exact .cons done (induction second)

theorem PerformsAll.single (performs : Performs entry deed recording later) :
    PerformsAll entry [deed] recording later :=
  .cons performs .nil

namespace Recording.Settled

theorem start (id : FunctionId) (declaration : Declaration) :
    (Recording.start id declaration).Settled := by
  intro label edge member
  simp [Recording.start, History.start, Builder.start, Builder.state, BlockState.fresh] at member

/-- A deed that changes neither parameters for variables nor links. -/
theorem of_same (settled : recording.Settled)
    (joined : later.joined = recording.joined) (appended : later.appended = recording.appended)
    (isSealed : ∀ label, (later.builder.state label).isSealed =
      (recording.builder.state label).isSealed)
    (predecessors : ∀ label, (later.builder.state label).predecessors =
      (recording.builder.state label).predecessors) : later.Settled := by
  intro label edge member
  rw [predecessors] at member
  have old := settled label edge member
  rw [due] at old ⊢
  rw [appended, joined, isSealed]
  exact old

theorem emit (settled : recording.Settled) (scripted : recording.Scripted) {label : Label}
    {operation : Operation} {types : List MachineType}
    (unfinished : (recording.builder.function.block label).isTerminated = false)
    (fits : operation.Fits recording.builder types) :
    (recording.emit label operation types).Settled := by
  have targets : ∀ destination ∈ operation.destinations,
      destination.block.index < recording.builder.states.size := fun destination member =>
    recording.inside (fits.destination member).1
  intro other edge member
  simp only [Recording.emit, Builder.state_withInstruction _ _ _ _ _ targets, due]
    at member ⊢
  rcases List.mem_append.mp member with old | new
  · exact settled other edge old
  · obtain ⟨source, _, destination, found, rfl⟩ := Builder.mem_edgesTo.mp new
    have unsealed := (fits.destination (List.mem_of_getElem? found)).2
    have empty : recording.appended edge = [] := by
      rw [show edge = ⟨label, edge.side⟩ by rw [← source]]
      exact scripted.appended_of_unterminated unfinished edge.side
    simp [empty, unsealed]

theorem performs (settled : recording.Settled) (scripted : recording.Scripted)
    (step : Performs entry deed recording later) : later.Settled := by
  cases step with
  | create => exact settled.of_same rfl rfl (by simp [create]) (by simp [create])
  | switch label inside left =>
      exact settled.of_same rfl rfl (by simp [switch]) (by simp [switch])
  | parameter label type inside ready early =>
      exact settled.of_same rfl rfl (fun _ => rfl) (fun _ => rfl)
  | declare var type unknown => exact settled.of_same rfl rfl (fun _ => rfl) (fun _ => rfl)
  | define label var type value current declared typed early =>
      exact settled.of_same rfl rfl (by simp [define]) (by simp [define])
  | use label var value looked settledThen current holds early =>
      exact settledThen.of_same rfl rfl (fun _ => rfl) (fun _ => rfl)
  | close label looked settledThen inside unsealed complete => exact settledThen
  | emit label operation types current unfinished operands fits =>
      exact settled.emit scripted unfinished fits
  | refer external unknown => exact settled.of_same rfl rfl (fun _ => rfl) (fun _ => rfl)
  | reserve size => exact settled.of_same rfl rfl (fun _ => rfl) (fun _ => rfl)

theorem performsAll (settled : recording.Settled) (sound : Sound recording)
    (steps : PerformsAll entry deeds recording later) : later.Settled := by
  induction steps with
  | nil => exact settled
  | cons first _ induction =>
      exact induction (settled.performs sound.scripted first) (sound.moves first.moves)

end Recording.Settled

/-! ## What only some deeds change -/

def Deed.isLocal : Deed → Bool
  | .declare _ _ | .refer _ => false
  | _ => true

def Deed.widens : Deed → Option Label
  | .parameter label _ => some label
  | _ => none

def Deed.looks : Deed → Bool
  | .use _ _ | .close _ => true
  | _ => false

structure SameTables (recording later : Recording) : Prop where
  declared : later.builder.declared = recording.builder.declared
  imports : later.builder.imports = recording.builder.imports
  references : later.builder.function.references = recording.builder.function.references

theorem SameTables.trans {first middle last : Recording} (left : SameTables first middle)
    (right : SameTables middle last) : SameTables first last :=
  ⟨right.declared.trans left.declared, right.imports.trans left.imports,
    right.references.trans left.references⟩

theorem sameTables_of_performs {entry : Option Label} {deed : Deed} {recording later : Recording}
    (performs : Performs entry deed recording later) (plain : deed.isLocal = true) :
    SameTables recording later := by
  cases performs with
  | create | parameter | reserve => exact ⟨rfl, rfl, rfl⟩
  | switch label inside left =>
      simp only [Recording.switch, Builder.withCurrent]
      split <;> exact ⟨rfl, rfl, rfl⟩
  | declare | refer => cases plain
  | define => exact ⟨rfl, rfl, rfl⟩
  | use label var value looked =>
      exact ⟨looked.keeps.declared, looked.keeps.imports, looked.keeps.references⟩
  | close label looked =>
      exact ⟨looked.keeps.declared, looked.keeps.imports, looked.keeps.references⟩
  | emit label operation types =>
      have edges : ∀ (builder : Builder) (side : Nat) (destinations : List Destination),
          (builder.withEdges label side destinations).declared = builder.declared ∧
          (builder.withEdges label side destinations).imports = builder.imports ∧
          (builder.withEdges label side destinations).function = builder.function := by
        intro builder side destinations
        induction destinations generalizing builder side with
        | nil => exact ⟨rfl, rfl, rfl⟩
        | cons destination rest induction => exact induction _ (side + 1)
      simp only [Recording.emit, Builder.withInstruction]
      exact ⟨(edges _ _ _).1, (edges _ _ _).2.1, by rw [(edges _ _ _).2.2]; rfl⟩

theorem sameTables_of_performsAll {entry : Option Label} {deeds : List Deed}
    {recording later : Recording} (performs : PerformsAll entry deeds recording later)
    (plain : deeds.all Deed.isLocal = true) : SameTables recording later := by
  induction performs with
  | nil => exact ⟨rfl, rfl, rfl⟩
  | cons first _ induction =>
      rw [List.all_cons, Bool.and_eq_true] at plain
      exact (sameTables_of_performs first plain.1).trans (induction plain.2)

/-! ## What is added to scripts -/

inductive Deed.Adds : Deed → Event → Prop
  | define {var : Variable} {value : Value} : Adds (.define var value) (.define var value)
  | use {var : Variable} {value : Value} : Adds (.use var value) (.use var value)
  | emit {operation : Operation} {types : List MachineType} {instruction : Instruction}
      (same : instruction.operation = operation) :
      Adds (.emit operation types) (.instruction instruction)

theorem Performs.adds {entry : Option Label} {deed : Deed} {recording later : Recording}
    (performs : Performs entry deed recording later) {label : Label} {event : Event}
    (member : event ∈ later.script label) : event ∈ recording.script label ∨ deed.Adds event := by
  cases performs with
  | define place var type value =>
      rcases recording.mem_noted.mp member with old | ⟨_, rfl⟩
      · exact .inl old
      · exact .inr .define
  | @use _ middle place var value looked =>
      rcases middle.mem_noted.mp member with old | ⟨_, rfl⟩
      · exact .inl (looked.keeps.script ▸ old)
      · exact .inr .use
  | close place looked => exact .inl (looked.keeps.script ▸ member)
  | emit place operation types =>
      rcases recording.mem_noted.mp member with old | ⟨_, rfl⟩
      · exact .inl old
      · exact .inr (.emit rfl)
  | _ => exact .inl member

theorem PerformsAll.adds {entry : Option Label} {deeds : List Deed} {recording later : Recording}
    (performs : PerformsAll entry deeds recording later) {label : Label} {event : Event}
    (member : event ∈ later.script label) :
    event ∈ recording.script label ∨ ∃ deed ∈ deeds, deed.Adds event := by
  induction performs with
  | nil => exact .inl member
  | cons first _ induction =>
      rcases induction member with middle | ⟨deed, done, adds⟩
      · refine (first.adds middle).imp_right fun adds => ⟨_, List.mem_cons_self, adds⟩
      · exact .inr ⟨deed, List.mem_cons_of_mem _ done, adds⟩

end ExprLang.Ssa
