import ExprLang.Proofs.Lowering.Supply
import ExprLang.Proofs.Ssa.Ledger
import ExprLang.Proofs.Ssa.Numbering

/-!
# Lowered functions are accepted

If nothing was done wrong while a body was lowered, nothing is left to be complained about: every
block is sealed and ends in its only terminator, branches pass what is wanted, and the function
gives back one word.
-/

namespace ExprLang

open Ssa

namespace Ssa

/-! ## The entry -/

variable {recording later : Recording} {entry : Option Label} {label : Label}

theorem Resolve.joined_closed (step : Resolve recording later)
    (closed : (recording.builder.state label).isSealed = true)
    (alone : (recording.builder.state label).predecessors = []) :
    later.joined label = recording.joined label := by
  cases step with
  | pend other var type inside unsealed unknown fresh declared =>
      refine Function.update_of_ne ?_ _ _
      rintro rfl
      exact Bool.false_ne_true (unsealed.symm.trans closed)
  | join other var type inside sealed several unknown fresh declared =>
      refine Function.update_of_ne ?_ _ _
      rintro rfl
      simp [alone] at several
  | zero | inherit | pass => rfl

theorem Moves.joined_closed (moves : Moves entry recording later)
    (closed : (recording.builder.state label).isSealed = true)
    (alone : (recording.builder.state label).predecessors = []) :
    later.joined label = recording.joined label := by
  induction moves with
  | refl => rfl
  | tail earlier step same =>
      obtain ⟨closedThen, sameEdges⟩ := (Moves.grows earlier).isSealed label closed
      rw [← same]
      cases step with
      | resolve step => exact step.joined_closed closedThen (sameEdges.trans alone)
      | _ => rfl

namespace Function

variable {function : Function}

theorem block?_isSome {label : Label} :
    (function.block? label).isSome = true ↔ label.index < function.blocks.size := by
  simp [block?]

theorem sameTypes_of_words {arguments parameters : List Value}
    (same : arguments.length = parameters.length)
    (passed : ∀ value ∈ arguments, function.type? value = some .i64)
    (wanted : ∀ value ∈ parameters, function.type? value = some .i64) :
    List.Forall₂ function.SameType arguments parameters := by
  rw [List.forall₂_iff_zip]
  refine ⟨same, fun {argument parameter} member => ?_⟩
  obtain ⟨left, right⟩ := List.of_mem_zip member
  exact ⟨.i64, passed argument left, wanted parameter right⟩

theorem haveTypes_of_words {values : List Value} {types : List MachineType}
    (same : values.length = types.length)
    (given : ∀ value ∈ values, function.type? value = some .i64)
    (wanted : ∀ type ∈ types, type = .i64) : function.HaveTypes values types := by
  rw [HaveTypes, List.forall₂_iff_zip]
  refine ⟨same, fun {value type} member => ?_⟩
  obtain ⟨left, right⟩ := List.of_mem_zip member
  rw [wanted type right]
  exact given value left

end Function

end Ssa

namespace Lowering

variable {setting : Setting} {definition : TypedDefinition} {id : FunctionId}
  {declaration : Declaration} {bound lowered last : Stage} {result : Value} {names : List String}
  {values : List Value}

theorem BindsAll.supplied {first : Stage} (binds : BindsAll names values first last)
    {source : Label} (active : first.shape.Active source) (supplied : first.Supplied) :
    last.Supplied := by
  induction binds with
  | nil => exact supplied
  | cons binds _ induction =>
      exact induction (binds.flows active).active (supplied.bind binds active.current)

namespace Compiles

theorem placed (compiles : Compiles setting definition id declaration bound lowered result last)
    {label : Label} (inside : label.index < last.blocks) :
    (last.recording.builder.state label).isPlaced = true ∧
      (last.recording.builder.state label).isSealed = true := by
  obtain ⟨target, active, shape⟩ := compiles.shape
  obtain ⟨binds, lowers, returns⟩ := compiles
  change last.shape.isPlaced label = true ∧ last.shape.isSealed label = true
  rw [Stage.blocks, shape] at inside
  rw [shape]
  obtain ⟨placed, closed, -⟩ := body_blocks binds lowers inside
  exact ⟨placed, closed⟩

theorem terminated
    (compiles : Compiles setting definition id declaration bound lowered result last)
    {label : Label} (inside : label.index < last.blocks) :
    (last.recording.builder.function.block label).isTerminated = true := by
  rw [Recording.terminated_iff compiles.sound]
  change last.shape.Terminated label
  obtain ⟨target, active, shape⟩ := compiles.shape
  obtain ⟨binds, lowers, returns⟩ := compiles
  obtain ⟨final, flows⟩ := body_flows binds lowers
  cases active.current.symm.trans flows.active.current
  rw [Stage.blocks, shape] at inside
  by_cases ends : label = target
  · subst ends
    refine ⟨⟨[], .ret [result], []⟩, ?_, rfl⟩
    rw [shape, Shape.mem_emitted_emit]
    exact .inr ⟨rfl, rfl⟩
  · rw [shape]
    refine ((Shape.Before.refl _).emit target _).terminated ?_
    by_cases first : label = firstBlock
    · subst first
      exact flows.left (Ne.symm ends)
    · refine (flows.inner label ?_ inside).2 ends
      rw [Stage.shape_opened]
      exact Nat.one_le_iff_ne_zero.mpr fun zero => first (Label.eq_iff.mpr zero)

theorem supplied (compiles : Compiles setting definition id declaration bound lowered result last) :
    last.Supplied := by
  obtain ⟨target, active, -⟩ := compiles.shape
  obtain ⟨binds, lowers, returns⟩ := compiles
  have ready := Stage.ready_opened id declaration setting
  obtain ⟨source, opened⟩ := ready.active
  have nothing : (Stage.opened id declaration).Supplied := by
    intro label instruction member
    rw [Stage.shape_opened] at member
    cases member
  have whole := lowers.supplied (binds.reaches.sound ready.sound) (binds.tabled ready.tabled)
    (binds.flows opened).active (binds.supplied opened nothing)
  exact whole.emit returns active.current rfl

theorem entered (compiles : Compiles setting definition id declaration bound lowered result last) :
    (last.recording.builder.state firstBlock).predecessors = [] ∧
      last.recording.joined firstBlock = [] ∧
      (last.recording.builder.function.block firstBlock).parameters =
        Stage.inputs declaration := by
  have linked := compiles.sound.linked
  obtain ⟨target, active, shape⟩ := compiles.shape
  obtain ⟨binds, lowers, returns⟩ := compiles
  have moves := (binds.reaches.trans (lowers.reaches.trans returns.reaches)).moves
  have closed : (Stage.opened id declaration).shape.isSealed firstBlock = true := by
    simp [Stage.shape_opened]
  have alone : (Stage.opened id declaration).shape.predecessors firstBlock = [] := by
    simp [Stage.shape_opened]
  have joined : last.recording.joined firstBlock = [] := by
    rw [moves.joined_closed closed alone, ← List.length_eq_zero_iff]
    have sound := (Stage.ready_opened id declaration setting).sound
    have all := (sound.linked.parameters firstBlock).length_eq
    have asked : (Stage.opened id declaration).recording.explicit firstBlock =
        Stage.inputs declaration := by
      change (Stage.opened id declaration).shape.explicit firstBlock = _
      simp [Stage.shape_opened]
    rw [Stage.parameters_opened, asked] at all
    simpa using all
  have explicit : last.recording.explicit firstBlock = Stage.inputs declaration := by
    obtain ⟨final, flows⟩ := body_flows binds lowers
    have same := flows.apart.explicit firstBlock (by simp [Stage.shape_opened, firstBlock])
    change last.shape.explicit firstBlock = _
    rw [shape]
    refine same.trans ?_
    simp [Stage.shape_opened]
  refine ⟨((Moves.grows moves).isSealed firstBlock closed).2.trans alone, joined, ?_⟩
  have longer := Moves.parameters moves firstBlock
  rw [Stage.parameters_opened] at longer
  refine (longer.eq_of_length ?_).symm
  rw [(linked.parameters firstBlock).length_eq, joined, explicit]
  simp

/-- Branches lead where they may and pass what is wanted there. -/
theorem leads (compiles : Compiles setting definition id declaration bound lowered result last)
    (idiomatic : last.recording.builder.function.Idiomatic) {label : Label}
    {instruction : Instruction} {destination : Destination}
    (member : instruction ∈ (last.recording.builder.function.block label).instructions)
    (leads : destination ∈ instruction.destinations) :
    last.recording.builder.function.Leads firstBlock destination := by
  have sound := compiles.sound
  have moves := compiles.moves
  obtain ⟨alone, -⟩ := compiles.entered
  rcases sound.scripted.mem_code.mp member with ⟨zero, _, rfl⟩ | ⟨original, here, rfl⟩
  · cases leads
  rw [Instruction.destinations, Instruction.extend, sound.plain label original here,
    List.append_nil] at leads
  obtain ⟨side, found⟩ := List.mem_iff_getElem?.mp leads
  rw [Operation.destinations_extend, Option.map_eq_some_iff] at found
  obtain ⟨given, found, rfl⟩ := found
  have edge : (⟨label, side⟩ : Edge) ∈
      (last.recording.builder.state given.block).predecessors :=
    (sound.scripted.edges given.block ⟨label, side⟩).mpr ⟨original, here, given, found, rfl⟩
  obtain ⟨inside, length, typed⟩ := compiles.supplied label original here given
    (List.mem_of_getElem? found)
  obtain ⟨placed, closed⟩ := compiles.placed inside
  have different : given.block ≠ firstBlock := by
    intro same
    rw [same, alone] at edge
    cases edge
  refine ⟨different, (sound.laid.placed given.block).mpr placed, ?_, ?_⟩
  · exact Function.block?_isSome.mpr inside
  · have matched := (Recording.Matched.start id declaration).moves (Sound.start id declaration)
      moves
    have reliable := (Recording.Reliable.start id declaration).moves (Sound.start id declaration)
      moves
    have added := Recording.sameType_appended sound compiles.settled matched edge
    rw [if_pos closed, matched.introduced] at added
    have wanted := idiomatic.parameters given.block
    rw [reliable.ordered given.block different (.inr (List.ne_nil_of_mem edge))] at wanted ⊢
    refine List.rel_append (Function.sameTypes_of_words length typed fun value asked => ?_) added
    exact wanted value (List.mem_append_left _ asked)

/-- A function is accepted if it was lowered without a misuse. -/
theorem accepted (compiles : Compiles setting definition id declaration bound lowered result last)
    (wordy : setting.module.Wordy)
    (words : ∀ type ∈ declaration.prototype.parameters, type = .i64)
    (one : declaration.prototype.results = [.i64])
    (clean : last.recording.builder.misuse = none) :
    last.recording.builder.finalize = .ok () := by
  have sound := compiles.sound
  have bare := Recording.bare sound
  have idiomatic := compiles.idiomatic wordy words
  obtain ⟨-, -, inputs⟩ := compiles.entered
  have prototype : last.recording.builder.function.prototype = declaration.prototype :=
    (Moves.grows compiles.moves).prototype
  have inside : ∀ label : Label, (last.recording.builder.state label).isPlaced = true →
      label.index < last.blocks := by
    intro label placed
    by_contra outside
    exact Bool.false_ne_true ((bare.isPlaced label (Nat.not_lt.mp outside)).symm.trans placed)
  have first : firstBlock.index < last.blocks := by
    refine inside firstBlock ((sound.laid.placed firstBlock).mp ?_)
    exact List.mem_of_mem_head? compiles.entry
  refine Builder.finalize_eq_ok.mpr ⟨clean, fun label placed => ?_, fun label entered => ?_,
    firstBlock, compiles.entry, Function.block?_isSome.mpr first, ?_, fun label member => ?_⟩
  · exact (compiles.placed (inside label placed)).2
  · by_contra unplaced
    refine entered (bare.predecessors label (Nat.not_lt.mp fun below => unplaced ?_))
    exact (compiles.placed below).1
  · rw [prototype]
    refine Function.haveTypes_of_words ?_ (idiomatic.parameters firstBlock) words
    simp [inputs, Stage.inputs]
  · have below := inside label ((sound.laid.placed label).mp member)
    refine ⟨Function.block?_isSome.mpr below, compiles.terminated below, ?_, ?_, ?_⟩
    · intro before instruction behind split ends
      exact Recording.terminal_code sound.scripted split ends
    · intro instruction here destination leads
      exact compiles.leads idiomatic here leads
    · intro instruction here values returned
      obtain ⟨types, proper, -⟩ := idiomatic.instructions label instruction here
      rw [returned] at proper
      cases proper with
      | ret word =>
          rw [prototype, one]
          exact .cons word .nil

end Compiles

end Lowering

end ExprLang
