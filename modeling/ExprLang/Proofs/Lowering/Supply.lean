import ExprLang.Proofs.Lowering.Idiom

/-!
# What branches pass

Every branch of lowered code passes a word for each parameter that its target was given.
-/

namespace ExprLang

namespace Ssa.Shape

variable {shape : Shape} {source label : Label} {new instruction : Instruction}

theorem mem_emitted_emit : instruction ∈ emitted ((shape.emit source new).script label) ↔
    instruction ∈ emitted (shape.script label) ∨ label = source ∧ instruction = new := by
  by_cases same : label = source
  · subst same
    simp [emit, note]
  · simp [emit, note, same]

theorem emitted_note {event : Event} (other : ∀ instruction, event ≠ .instruction instruction) :
    emitted ((shape.note source event).script label) = emitted (shape.script label) := by
  by_cases same : label = source
  · subst same
    cases event with
    | instruction instruction => exact absurd rfl (other instruction)
    | define | use => simp [note]
  · simp [note, same]

end Ssa.Shape

namespace Lowering

open Ssa

variable {setting : Setting} {names : List String} {first middle last : Stage} {source : Label}
  {destination : Destination}

/-- A branch passes a word for each parameter that a block was given. -/
structure Stage.Supplies (stage : Stage) (destination : Destination) : Prop where
  inside : destination.block.index < stage.blocks
  length : destination.arguments.length = (stage.shape.explicit destination.block).length
  typed : ∀ argument ∈ destination.arguments, stage.HasType argument .i64

def Stage.Supplied (stage : Stage) : Prop :=
  ∀ label, ∀ instruction ∈ emitted (stage.shape.script label),
    ∀ destination ∈ instruction.operation.destinations, stage.Supplies destination

structure Widens (first last : Stage) : Prop where
  reaches : Reaches first last
  blocks : first.blocks ≤ last.blocks
  explicit : ∀ label : Label, label.index < first.blocks →
    last.shape.explicit label = first.shape.explicit label

theorem Stage.Supplies.widens (supplies : first.Supplies destination)
    (widens : Widens first last) : last.Supplies destination where
  inside := Nat.lt_of_lt_of_le supplies.inside widens.blocks
  length := by rw [supplies.length, widens.explicit _ supplies.inside]
  typed argument member := (supplies.typed argument member).reaches widens.reaches

theorem Stage.Supplies.none {stage : Stage} {label : Label} (inside : label.index < stage.blocks)
    (explicit : stage.shape.explicit label = []) : stage.Supplies ⟨label, []⟩ :=
  ⟨inside, by rw [explicit], by simp⟩

theorem Stage.Supplies.one {stage : Stage} {label : Label} {parameter argument : Value}
    (inside : label.index < stage.blocks) (explicit : stage.shape.explicit label = [parameter])
    (typed : stage.HasType argument .i64) : stage.Supplies ⟨label, [argument]⟩ :=
  ⟨inside, by rw [explicit]; rfl, by simpa using typed⟩

theorem Widens.of_flows {target : Label} (reaches : Reaches first last)
    (flows : Shape.Flows source target first.shape last.shape) : Widens first last :=
  ⟨reaches, flows.before.blocks, flows.apart.explicit⟩

namespace Stage.Supplied

theorem widens (supplied : first.Supplied) (widens : Widens first last)
    (added : ∀ label, ∀ instruction ∈ emitted (last.shape.script label),
      instruction ∈ emitted (first.shape.script label) ∨
        ∀ destination ∈ instruction.operation.destinations, last.Supplies destination) :
    last.Supplied := by
  intro label instruction member destination leads
  obtain old | new := added label instruction member
  · exact (supplied label instruction old destination leads).widens widens
  · exact new destination leads

/-- A block ends with a branch that passes what its target was given. -/
theorem emits (supplied : first.Supplied) (reaches : Reaches first last) {shape : Shape}
    {instruction : Instruction} (becomes : last.shape = shape)
    (blocks : shape.blocks = first.shape.blocks)
    (script : shape.script = (first.shape.emit source instruction).script)
    (explicit : shape.explicit = first.shape.explicit)
    (supplies : ∀ destination ∈ instruction.operation.destinations,
      first.Supplies destination) : last.Supplied := by
  subst becomes
  have widens : Widens first last := ⟨reaches, blocks.ge, fun _ _ => by rw [explicit]⟩
  refine supplied.widens widens fun label other member => ?_
  rw [script, Shape.mem_emitted_emit] at member
  obtain old | ⟨-, rfl⟩ := member
  · exact .inl old
  · exact .inr fun destination leads => (supplies destination leads).widens widens

theorem emit (supplied : first.Supplied) {operation : Operation} {types : List MachineType}
    (does : Does [.emit operation types] first last)
    (current : first.shape.current = some source)
    (plain : operation.destinations = []) : last.Supplied :=
  supplied.emits does.reaches (does.emit_shape current) rfl rfl rfl (by simp [plain])

theorem hop (supplied : first.Supplied) {operation : Operation} {target : Label}
    (does : Does (hopping operation target) first last)
    (current : first.shape.current = some source)
    (supplies : ∀ destination ∈ operation.destinations, first.Supplies destination) :
    last.Supplied :=
  supplied.emits does.reaches (does.hop_shape current) rfl rfl rfl supplies

theorem same (supplied : first.Supplied) (reaches : Reaches first last) {shape : Shape}
    (becomes : last.shape = shape) (blocks : shape.blocks = first.shape.blocks)
    (script : ∀ label, emitted (shape.script label) = emitted (first.shape.script label))
    (explicit : shape.explicit = first.shape.explicit) : last.Supplied := by
  subst becomes
  exact supplied.widens ⟨reaches, blocks.ge, fun _ _ => by rw [explicit]⟩
    fun label instruction member => .inl (script label ▸ member)

theorem use (supplied : first.Supplied) {var : Variable} {value : Value}
    (does : Does [.use var value] first last) (current : first.shape.current = some source) :
    last.Supplied :=
  supplied.same does.reaches (does.use_shape current) rfl
    (fun _ => Shape.emitted_note (by simp)) rfl

theorem bind (supplied : first.Supplied) {name : String} {value : Value}
    (binds : Binds name value first last) (current : first.shape.current = some source) :
    last.Supplied :=
  supplied.same binds.reaches (binds.shape current) rfl
    (fun _ => Shape.emitted_note (by simp)) rfl

theorem of_shape (supplied : first.Supplied) (reaches : Reaches first last)
    (shape : last.shape = first.shape) : last.Supplied :=
  supplied.same reaches shape rfl (fun _ => rfl) rfl

end Stage.Supplied

/-! ## Branches and loops -/

theorem Forks.supplied {test result : Value} (forks : Forks test first result last)
    (sound : Sound first.recording) (active : first.shape.Active source)
    (supplied : first.Supplied) :
    last.Supplied ∧ last.shape.explicit ⟨first.blocks + 2⟩ = [result] := by
  have bare : first.shape.Bare := Recording.bare sound
  have opened := forks.shape active.current
  obtain ⟨creates, merges, branches⟩ := forks
  rename_i made joined
  have shape : joined.shape =
      first.shape.create.create.create.parameter ⟨first.blocks + 2⟩ made.next := by
    rw [merges.parameter_shape, creates.create_shape]
  have blocks : joined.blocks = first.blocks + 3 := congrArg Shape.blocks shape
  have explicit : ∀ label : Label, label.index ≠ first.blocks + 2 →
      joined.shape.explicit label = first.shape.explicit label := by
    intro label other
    rw [shape]
    refine Function.update_of_ne ?_ _ _
    rwa [ne_eq, Label.eq_iff]
  have fresh : joined.Supplied := by
    refine supplied.widens ⟨creates.reaches.trans merges.reaches, by omega, fun label inside => ?_⟩
      fun label instruction member => .inl ?_
    · exact explicit label (by omega)
    · rwa [shape] at member
  have empty : ∀ index, first.blocks ≤ index → index < first.blocks + 2 →
      joined.Supplies ⟨⟨index⟩, []⟩ := by
    intro index outside below
    refine .none (by simp only; omega) ?_
    rw [explicit ⟨index⟩ (Nat.ne_of_lt below), bare.explicit ⟨index⟩ outside]
  constructor
  · refine fresh.hop branches (by rw [shape]; exact active.current) ?_
    simp only [Operation.destinations, List.mem_cons, List.not_mem_nil, or_false,
      forall_eq_or_imp, forall_eq]
    exact ⟨empty _ (Nat.le_refl _) (by omega), empty _ (by omega) (by omega)⟩
  · have none := bare.explicit ⟨first.blocks + 2⟩ (Nat.le_add_right _ _)
    rw [opened]
    simp [Shape.fork, Shape.hop, Shape.parameter, Shape.create, Shape.switch, Shape.close,
      Shape.emit, Shape.note, none]

theorem Enters.supplied {limit round one : Value} (enters : Enters limit first round one last)
    (sound : Sound first.recording) (active : first.shape.Active source)
    (supplied : first.Supplied) :
    last.Supplied ∧ ∃ counter, last.shape.explicit ⟨first.blocks⟩ = [counter] := by
  have bare : first.shape.Bare := Recording.bare sound
  obtain ⟨creates, counts, rounds, starts, jumps, compares, branches⟩ := enters
  rename_i made counted rounded started jumped compared
  have shape : rounded.shape =
      (first.shape.create.create.create.parameter ⟨first.blocks⟩ made.next).parameter
        ⟨first.blocks + 1⟩ counted.next := by
    rw [rounds.parameter_shape, counts.parameter_shape, creates.create_shape]
  have blocks : rounded.blocks = first.blocks + 3 := congrArg Shape.blocks shape
  have header : rounded.shape.explicit ⟨first.blocks⟩ = [made.next] := by
    have none := bare.explicit ⟨first.blocks⟩ (Nat.le_refl _)
    simp [shape, Shape.parameter, Shape.create, none]
  have loop : rounded.shape.explicit ⟨first.blocks + 1⟩ = [counted.next] := by
    have none := bare.explicit ⟨first.blocks + 1⟩ (Nat.le_add_right _ _)
    simp [shape, Shape.parameter, Shape.create, none]
  have exit : rounded.shape.explicit ⟨first.blocks + 2⟩ = [] := by
    have none := bare.explicit ⟨first.blocks + 2⟩ (Nat.le_add_right _ _)
    simp [shape, Shape.parameter, Shape.create, none]
  have fresh : rounded.Supplied := by
    refine supplied.widens ⟨creates.reaches.trans (counts.reaches.trans rounds.reaches),
      by omega, fun label inside => ?_⟩ fun label instruction member => .inl ?_
    · rw [shape]
      have notHeader : label ≠ ⟨first.blocks⟩ := by
        rw [ne_eq, Label.eq_iff]
        exact Nat.ne_of_lt inside
      have notLoop : label ≠ ⟨first.blocks + 1⟩ := by
        rw [ne_eq, Label.eq_iff]
        exact Nat.ne_of_lt (Nat.lt_succ_of_lt inside)
      simp [Shape.parameter, Shape.create, notHeader, notLoop]
    · rwa [shape] at member
  have startedShape := starts.emit_shape
    (show rounded.shape.current = some source by rw [shape]; exact active.current)
  have jumpedShape := jumps.jump_shape
    (show started.shape.current = some source by rw [startedShape, shape]; exact active.current)
  have comparedShape := compares.emit_shape
    (show jumped.shape.current = some ⟨first.blocks⟩ by rw [jumpedShape]; rfl)
  have startedBlocks : started.blocks = first.blocks + 3 := by
    rw [Stage.blocks, startedShape]
    exact blocks
  have comparedBlocks : compared.blocks = first.blocks + 3 := by
    rw [← startedBlocks, Stage.blocks, comparedShape, jumpedShape]
    rfl
  have startedExplicit : started.shape.explicit = rounded.shape.explicit := by
    rw [startedShape]
    rfl
  have comparedExplicit : compared.shape.explicit = rounded.shape.explicit := by
    rw [comparedShape, jumpedShape, ← startedExplicit]
    rfl
  have begun : started.Supplied := fresh.emit starts (by rw [shape]; exact active.current) rfl
  have entered : jumped.Supplied := by
    refine begun.emits jumps.reaches jumpedShape rfl rfl rfl ?_
    simp only [Operation.destinations, List.mem_singleton, forall_eq]
    exact .one (by simp only; omega) (startedExplicit ▸ header) starts.emit_hasType
  have tested : compared.Supplied := entered.emit compares (by rw [jumpedShape]; rfl) rfl
  have counterTyped : compared.HasType made.next .i64 :=
    counts.parameter_hasType.reaches (rounds.reaches.trans (starts.reaches.trans
      (jumps.reaches.trans compares.reaches)))
  constructor
  · refine tested.hop branches (by rw [comparedShape, jumpedShape]; rfl) ?_
    simp only [Operation.destinations, List.mem_cons, List.not_mem_nil, or_false,
      forall_eq_or_imp, forall_eq]
    exact ⟨.none (by simp only; omega) (comparedExplicit ▸ exit),
      .one (by simp only; omega) (comparedExplicit ▸ loop) counterTyped⟩
  · refine ⟨made.next, ?_⟩
    rw [branches.hop_shape (by rw [comparedShape, jumpedShape]; rfl), ← header,
      ← comparedExplicit]
    rfl

/-- Both arms of a condition pass a word to what joins them. -/
theorem Forks.joined_supplied {test result left right : Value}
    {opened filled turned done : Stage} (forks : Forks test first result opened)
    (sound : Sound first.recording) (active : first.shape.Active source)
    (leftArm : Fills opened filled)
    (turns : Does (hopping (.jump ⟨⟨first.blocks + 2⟩, [left]⟩) ⟨first.blocks + 1⟩)
      filled turned)
    (rightArm : Fills turned done)
    (joins : Does (hopping (.jump ⟨⟨first.blocks + 2⟩, [right]⟩) ⟨first.blocks + 2⟩)
      done last)
    (leftTyped : filled.HasType left .i64) (rightTyped : done.HasType right .i64)
    (onLeft : opened.shape.Active ⟨first.blocks⟩ → opened.Supplied → filled.Supplied)
    (onRight : turned.shape.Active ⟨first.blocks + 1⟩ → turned.Supplied → done.Supplied)
    (supplied : first.Supplied) : last.Supplied := by
  obtain ⟨leftEnd, rightEnd, inLeft, toLeft, inRight, toRight, -⟩ :=
    forks.flows sound active leftArm turns rightArm joins
  obtain ⟨start, joint⟩ := forks.supplied sound active supplied
  have openedBlocks : opened.blocks = first.blocks + 3 := by
    rw [Stage.blocks, forks.shape active.current]
    rfl
  have toRightArm := Widens.of_flows rightArm.reaches toRight
  have toLeftArm := Widens.of_flows leftArm.reaches toLeft
  have turnedShape := turns.hop_shape toLeft.active.current
  have jointFilled : filled.shape.explicit ⟨first.blocks + 2⟩ = [result] := by
    rw [toLeftArm.explicit _ (by simp only; omega), joint]
  have turnedBlocks : turned.blocks = filled.blocks := by
    rw [Stage.blocks, turnedShape]
    rfl
  have inside : first.blocks + 2 < filled.blocks :=
    Nat.lt_of_lt_of_le (by omega) toLeftArm.blocks
  have turned : turned.Supplied := by
    refine (onLeft inLeft start).hop turns toLeft.active.current ?_
    simp only [Operation.destinations, List.mem_singleton, forall_eq]
    exact .one inside jointFilled leftTyped
  have jointDone : done.shape.explicit ⟨first.blocks + 2⟩ = [result] := by
    rw [toRightArm.explicit _ (by simp only; omega), turnedShape]
    exact jointFilled
  refine (onRight inRight turned).hop joins toRight.active.current ?_
  simp only [Operation.destinations, List.mem_singleton, forall_eq]
  exact .one (Nat.lt_of_lt_of_le (turnedBlocks ▸ inside) toRightArm.blocks) jointDone rightTyped

/-- The body of a loop passes the next counter to its start. -/
theorem Enters.left_supplied {name : String} {limit round one : Value}
    {opened inside filled advanced : Stage}
    (enters : Enters limit first round one opened) (sound : Sound first.recording)
    (active : first.shape.Active source)
    (binds : Binds name round opened inside)
    (inLoop : Fills inside filled)
    (advances : Does [.emit (.arithmetic .add round one) [.i64]] filled advanced)
    (leaves : Does (leaving filled.next first.blocks) advanced last)
    (onBody : inside.shape.Active ⟨first.blocks + 1⟩ → inside.Supplied → filled.Supplied)
    (supplied : first.Supplied) : last.Supplied := by
  obtain ⟨bodyEnd, inBody, toInside, toEnd, toAdvanced, -⟩ :=
    enters.flows sound active binds inLoop advances leaves
  obtain ⟨start, counter, header⟩ := enters.supplied sound active supplied
  have openedBlocks : opened.blocks = first.blocks + 3 := by
    obtain ⟨_, _, shape⟩ := enters.shape active.current
    rw [Stage.blocks, shape]
    rfl
  have toBinding := Widens.of_flows binds.reaches toInside
  have throughBody := Widens.of_flows inLoop.reaches toEnd
  have toAddition := Widens.of_flows advances.reaches toAdvanced
  have ready : advanced.Supplied :=
    (onBody toInside.active (start.bind binds inBody.current)).emit advances toEnd.active.current
      rfl
  have early : first.blocks < opened.blocks := by omega
  have earlier := Nat.lt_of_lt_of_le early toBinding.blocks
  have late := Nat.lt_of_lt_of_le earlier throughBody.blocks
  have headerAdvanced : advanced.shape.explicit ⟨first.blocks⟩ = [counter] := by
    rw [toAddition.explicit ⟨first.blocks⟩ late, throughBody.explicit ⟨first.blocks⟩ earlier,
      toBinding.explicit ⟨first.blocks⟩ early, header]
  refine ready.emits leaves.reaches (leaves.leave_shape toAdvanced.active.current) rfl rfl rfl ?_
  simp only [Operation.destinations, List.mem_singleton, forall_eq]
  exact .one (Nat.lt_of_lt_of_le late toAddition.blocks) headerAdvanced advances.emit_hasType

/-! ## Lowered code -/

theorem Lowers.supplied {work : Work} {values : List Value}
    (lowers : Lowers setting work first values last) :
    ∀ {names source}, Sound first.recording → Tabled setting names first →
      first.shape.Active source → first.Supplied → last.Supplied := by
  induction lowers with
  | integer emits | boolean emits =>
      intro names source _ _ active supplied
      exact supplied.emit emits active.current rfl
  | ident _ uses =>
      intro names source _ _ active supplied
      exact supplied.use uses active.current
  | comparison onLeft onRight compares widens left right =>
      intro names source sound tabled active supplied
      have soundThen := onLeft.reaches.sound sound
      obtain ⟨middle, toMiddle⟩ := onLeft.flows sound active
      obtain ⟨target, toTarget⟩ := onRight.flows soundThen toMiddle.active
      have compared := compares.emit_flows rfl toTarget.active
      have ready := right soundThen (onLeft.tabled tabled) toMiddle.active
        (left sound tabled active supplied)
      exact (ready.emit compares toTarget.active.current rfl).emit widens
        compared.active.current rfl
  | arithmetic onLeft onRight emits left right =>
      intro names source sound tabled active supplied
      have soundThen := onLeft.reaches.sound sound
      obtain ⟨middle, toMiddle⟩ := onLeft.flows sound active
      obtain ⟨target, toTarget⟩ := onRight.flows soundThen toMiddle.active
      have ready := right soundThen (onLeft.tabled tabled) toMiddle.active
        (left sound tabled active supplied)
      exact ready.emit emits toTarget.active.current rfl
  | bind onValue binds inner =>
      intro names source sound tabled active supplied
      obtain ⟨target, toTarget⟩ := onValue.flows sound active
      exact (inner sound tabled active supplied).bind binds toTarget.active.current
  | sequence onLeft _ left right =>
      intro names source sound tabled active supplied
      obtain ⟨middle, toMiddle⟩ := onLeft.flows sound active
      exact right (onLeft.reaches.sound sound) (onLeft.tabled tabled) toMiddle.active
        (left sound tabled active supplied)
  | call refers onArguments emits arguments =>
      intro names source sound tabled active supplied
      have named := supplied.of_shape refers.reaches refers.shape
      rw [← refers.shape] at active
      have soundNamed := refers.reaches.sound sound
      obtain ⟨target, toTarget⟩ := onArguments.flows soundNamed active
      exact (arguments soundNamed (refers.tabled tabled) active named).emit emits
        toTarget.active.current rfl
  | conditional onTest forks leftArm turns rightArm joins test left right =>
      intro names source sound tabled active supplied
      obtain ⟨middle, toMiddle⟩ := onTest.flows sound active
      have soundTested := onTest.reaches.sound sound
      have soundOpened := forks.reaches.sound soundTested
      have tabledOpened := forks.tabled (onTest.tabled tabled)
      have soundTurned := turns.reaches.sound (leftArm.reaches.sound soundOpened)
      have tabledTurned := turns.tabled rfl (leftArm.tabled tabledOpened)
      exact forks.joined_supplied soundTested toMiddle.active leftArm.fills turns rightArm.fills
        joins (leftArm.hasType soundOpened tabledOpened _ List.mem_cons_self)
        (rightArm.hasType soundTurned tabledTurned _ List.mem_cons_self)
        (left soundOpened tabledOpened) (right soundTurned tabledTurned)
        (test sound tabled active supplied)
  | each onBound enters binds inLoop advances leaves emits bound body =>
      intro names source sound tabled active supplied
      obtain ⟨middle, toMiddle⟩ := onBound.flows sound active
      have soundLimited := onBound.reaches.sound sound
      have soundOpened := enters.reaches.sound soundLimited
      have tabledOpened := enters.tabled (onBound.tabled tabled)
      obtain ⟨-, -, -, -, -, toExit⟩ := enters.flows soundLimited toMiddle.active binds
        inLoop.fills advances leaves
      exact (enters.left_supplied soundLimited toMiddle.active binds inLoop.fills advances leaves
        (body (binds.reaches.sound soundOpened) (binds.tabled tabledOpened))
        (bound sound tabled active supplied)).emit emits toExit.active.current rfl
  | array reserves counts starts stores locates elements =>
      intro names source sound tabled active supplied
      have reserved := supplied.of_shape reserves.reaches reserves.reserve_shape
      rw [← reserves.reserve_shape] at active
      have soundReserved := reserves.reaches.sound sound
      have counted := counts.emit_flows rfl active
      have started := starts.emit_flows rfl counted.active
      have soundStarted := starts.reaches.sound (counts.reaches.sound soundReserved)
      have tabledStarted := starts.tabled rfl (counts.tabled rfl (reserves.tabled rfl tabled))
      obtain ⟨target, toTarget⟩ := stores.flows soundStarted started.active
      have begun := (reserved.emit counts active.current rfl).emit starts counted.active.current
        rfl
      exact (elements soundStarted tabledStarted started.active begun).emit locates
        toTarget.active.current rfl
  | index onTarget onPosition ones words places scales locates loads target position =>
      intro names source sound tabled active supplied
      have soundThen := onTarget.reaches.sound sound
      obtain ⟨middle, toMiddle⟩ := onTarget.flows sound active
      obtain ⟨last, toLast⟩ := onPosition.flows soundThen toMiddle.active
      have one := ones.emit_flows rfl toLast.active
      have word := words.emit_flows rfl one.active
      have placed := places.emit_flows rfl word.active
      have scaled := scales.emit_flows rfl placed.active
      have located := locates.emit_flows rfl scaled.active
      have ready := position soundThen (onTarget.tabled tabled) toMiddle.active
        (target sound tabled active supplied)
      have factors := (ready.emit ones toLast.active.current rfl).emit words one.active.current rfl
      have offset := (factors.emit places word.active.current rfl).emit scales
        placed.active.current rfl
      exact (offset.emit locates scaled.active.current rfl).emit loads located.active.current rfl
  | length onTarget loads target =>
      intro names source sound tabled active supplied
      obtain ⟨last, toLast⟩ := onTarget.flows sound active
      exact (target sound tabled active supplied).emit loads toLast.active.current rfl
  | nil | stop =>
      intro names source _ _ _ supplied
      exact supplied
  | cons onHead _ head tail =>
      intro names source sound tabled active supplied
      obtain ⟨middle, toMiddle⟩ := onHead.flows sound active
      exact tail (onHead.reaches.sound sound) (onHead.tabled tabled) toMiddle.active
        (head sound tabled active supplied)
  | store onHead stores _ head tail =>
      intro names source sound tabled active supplied
      obtain ⟨middle, toMiddle⟩ := onHead.flows sound active
      have stored := stores.emit_flows rfl toMiddle.active
      have ready := (head sound tabled active supplied).emit stores toMiddle.active.current rfl
      exact tail (stores.reaches.sound (onHead.reaches.sound sound))
        (stores.tabled rfl (onHead.tabled tabled)) stored.active ready

end Lowering

end ExprLang
