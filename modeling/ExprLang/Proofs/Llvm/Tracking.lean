import ExprLang.Proofs.Llvm.Representation

/-!
# Activations of functions that are written

An activation of a function without memory, and one of what is written for the function. Main
statements: one follows the other, instruction by instruction, and names stand for the words of
registers after each of them.
-/

namespace ExprLang

/-! ## Ways through functions -/

namespace Ssa

def Function.Passed (function : Function) (earlier : List Label) (label : Label) (place : Nat)
    (value : Value) : Prop :=
  value ∈ (function.block label).definedBefore place ∨
    ∃ passed ∈ earlier, value ∈ (function.block passed).definitions

section Passed

variable {function : Function} {earlier : List Label} {label target : Label} {place : Nat}
  {value : Value} {instruction : Instruction}

theorem Function.Passed.of_succ
    (found : (function.block label).instructions[place]? = some instruction)
    (passed : function.Passed earlier label (place + 1) value) :
    function.Passed earlier label place value ∨ value ∈ instruction.results := by
  rcases passed with here | before
  · rw [Block.definedBefore, List.take_add_one, found, List.flatMap_append, ← List.append_assoc,
      List.mem_append] at here
    exact here.imp .inl (by simp)
  · exact .inl (.inr before)

/-- The last instruction of a block defines nothing; the next block defines its parameters. -/
theorem Function.Passed.of_next
    (last : (function.block label).instructions.drop place = [instruction])
    (nothing : instruction.results = [])
    (passed : function.Passed (label :: earlier) target 0 value) :
    value ∈ (function.block target).parameters ∨ function.Passed earlier label place value := by
  rcases passed with here | ⟨other, member, defined⟩
  · rw [Block.definedBefore, List.take_zero, List.flatMap_nil, List.append_nil] at here
    exact .inl here
  · rcases List.mem_cons.mp member with rfl | before
    · rw [Block.definitions, ← List.take_append_drop place (function.block other).instructions,
        last, List.flatMap_append, List.flatMap_singleton, nothing, List.append_nil] at defined
      exact .inr (.inl defined)
    · exact .inr (.inr ⟨other, before, defined⟩)

theorem of_cons_eq_drop {instructions behind : List Instruction}
    (split : instruction :: behind = instructions.drop place) :
    instructions[place]? = some instruction ∧ behind = instructions.drop (place + 1) := by
  constructor
  · have head := congrArg List.head? split
    rw [List.head?_cons, List.head?_drop] at head
    exact head.symm
  · have tail := congrArg List.tail split
    rwa [List.tail_cons, List.tail_drop] at tail

theorem Machine.isTerminator_of_compute {slots registers : Array Int64} {memory : Memory}
    {outcome : Except Trap Int64}
    (computed : compute function slots registers memory instruction.operation = some outcome) :
    instruction.isTerminator = false := by
  rw [Instruction.isTerminator, Operation.isTerminator]
  cases operation : instruction.operation with
  | branch | jump | ret | malformed => simp [operation, compute] at computed
  | _ => rfl

end Passed

end Ssa

namespace Llvm

open Ssa (Value Label)

/-! ## Activations -/

section Code

variable {function : Ssa.Function} {operands : Operands} {label : Label} {count : Nat}
  {instruction : Ssa.Instruction} {behind : List Ssa.Instruction} {written : List Assignment}
  {terminator : Terminator}

theorem Renders.isTerminator
    (renders : Renders function operands label count instruction written) :
    instruction.isTerminator = false := by
  cases renders <;> rfl

theorem Closes.isTerminator
    (closes : Closes operands label count instruction written terminator) :
    instruction.isTerminator = true := by
  cases closes <;> rfl

theorem RendersAll.plain
    (code : RendersAll function operands label count (instruction :: behind) written terminator)
    (plain : instruction.isTerminator = false) :
    ∃ here more, written = here ++ more ∧
      Renders function operands label count instruction here ∧
      RendersAll function operands label (count + here.length) behind more terminator := by
  cases code with
  | close closes => cases plain.symm.trans closes.isTerminator
  | cons renders rest => exact ⟨_, _, rfl, renders, rest⟩

theorem RendersAll.last
    (code : RendersAll function operands label count (instruction :: behind) written terminator)
    (ends : instruction.isTerminator = true) :
    behind = [] ∧ Closes operands label count instruction written terminator := by
  cases code with
  | close closes => exact ⟨rfl, closes⟩
  | cons renders _ => cases renders.isTerminator.symm.trans ends

end Code

/-- An activation executes what is written for the function of another one. Control is in the same
place, and the operands of all values that were defined on the way represent the words of their
registers, apart from some values that are still to come. -/
inductive Tracks (module : Ssa.Module) (progress : Progress) (frame : Ssa.Frame)
    (pending : List Value) (activation : Activation) : Prop
  | intro {id : Ssa.FunctionId} {entry : Label} {earlier : List Label} {place count : Nat}
      (inside : module.body? id = some frame.function)
      (renders : RendersFunction frame.function entry progress activation.function)
      (here : activation.label = frame.block)
      (trail : frame.function.Trail (frame.block :: earlier))
      (rest : frame.rest = (frame.function.block frame.block).instructions.drop place)
      (code : RendersAll frame.function progress.operands frame.block count frame.rest
        activation.rest activation.terminator)
      (mirrors : ∀ value, frame.function.Passed earlier frame.block place value →
        value ∉ pending →
          Mirrors progress.operands frame.registers activation.contents value)

namespace Tracks

variable {module : Ssa.Module} {progress : Progress} {frame : Ssa.Frame} {activation : Activation}
  {instruction : Ssa.Instruction} {behind : List Ssa.Instruction}

theorem renders {pending : List Value} (tracks : Tracks module progress frame pending activation) :
    ∃ entry, RendersFunction frame.function entry progress activation.function := by
  obtain ⟨_, renders, _⟩ := tracks
  exact ⟨_, renders⟩

theorem body? {pending : List Value} (tracks : Tracks module progress frame pending activation) :
    ∃ id, module.body? id = some frame.function := by
  obtain ⟨inside, _⟩ := tracks
  exact ⟨_, inside⟩

theorem member (tracks : Tracks module progress frame [] activation)
    (next : frame.rest = instruction :: behind) :
    instruction ∈ (frame.function.block frame.block).instructions := by
  obtain ⟨_, _, _, _, rest, _⟩ := tracks
  exact List.mem_of_getElem? (Ssa.of_cons_eq_drop (next.symm.trans rest)).1

theorem uses (tracks : Tracks module progress frame [] activation)
    (next : frame.rest = instruction :: behind) {value : Value} (used : value ∈ instruction.uses) :
    Mirrors progress.operands frame.registers activation.contents value := by
  obtain ⟨_, renders, _, trail, rest, _, mirrors⟩ := tracks
  have found := (Ssa.of_cons_eq_drop (next.symm.trans rest)).1
  apply mirrors value _ List.not_mem_nil
  exact renders.lowered.dominated.available _ _ _ found value used _ trail

theorem proceed (tracks : Tracks module progress frame [] activation)
    (next : frame.rest = instruction :: behind) (plain : instruction.isTerminator = false) :
    ∃ count here more, activation.rest = here ++ more ∧
      Renders frame.function progress.operands frame.block count instruction here ∧
      Tracks module progress { frame with rest := behind } instruction.results
        { activation with rest := more } := by
  obtain ⟨inside, renders, here, trail, rest, code, mirrors⟩ := tracks
  rw [next] at rest code
  obtain ⟨found, ahead⟩ := Ssa.of_cons_eq_drop rest
  obtain ⟨written, more, split, rendered, others⟩ := code.plain plain
  refine ⟨_, written, more, split, rendered, .intro inside renders here trail ahead others ?_⟩
  intro value passed new
  exact mirrors value ((passed.of_succ found).resolve_right new) List.not_mem_nil

theorem last (tracks : Tracks module progress frame [] activation)
    (next : frame.rest = instruction :: behind) (ends : instruction.isTerminator = true) :
    ∃ count, Closes progress.operands frame.block count instruction activation.rest
      activation.terminator := by
  obtain ⟨_, _, _, _, _, code, _⟩ := tracks
  rw [next] at code
  exact ⟨_, (code.last ends).2⟩

/-- The result of an instruction has come. -/
theorem receive {result : Value} {word : Int64} {registers : Array Int64} {contents : Contents}
    (tracks : Tracks module progress frame [result] activation)
    (written : registers[result.index]? = some word)
    (kept : ∀ value, value ≠ result →
      registers[value.index]? = frame.registers[value.index]?)
    (represents : Represents progress.operands contents result word)
    (others : ∀ value, value ≠ result →
      contents (.value value) = activation.contents (.value value)) :
    Tracks module progress { frame with registers } [] { activation with contents } := by
  obtain ⟨inside, renders, here, trail, rest, code, mirrors⟩ := tracks
  refine .intro inside renders here trail rest code fun value passed _ => ?_
  by_cases same : value = result
  · subst same
    exact ⟨word, written, represents⟩
  · apply (mirrors value passed (List.mem_singleton.not.mpr same)).of_same (kept value same)
    exact others value same

end Tracks

/-! ## Blocks -/

theorem reserved_of_scalar {body : Ssa.Function} (scalar : body.Scalar) (label : Label) :
    reserved body label = [] := by
  simp [reserved, reservations, scalar.slots]

namespace RendersFunction

variable {body : Ssa.Function} {entry label : Label} {progress : Progress} {function : Function}

theorem block?_eq (renders : RendersFunction body entry progress function)
    (placed : label ∈ body.layout) :
    ∃ block, function.block? label = some block ∧
      RendersBlock body progress.operands label block := by
  obtain ⟨block, member, written⟩ := renders.exists_block placed
  have found := Ssa.find?_of_nodup renders.nodup member
  rw [written.labelled] at found
  exact ⟨block, found, written⟩

theorem lookup_parameter (renders : RendersFunction body entry progress function)
    (placed : label ∈ body.layout) {value : Value}
    (member : value ∈ (body.block label).parameters) :
    progress.operands.lookup value = some (.result (.value value) .word) := by
  obtain ⟨operand, found⟩ := parameterOperands_knows.mpr ⟨label, placed, member⟩
  have type : body.type value = .i64 := by
    rw [Ssa.Function.type, renders.lowered.idiomatic.parameters label value member]
    rfl
  obtain ⟨rfl, _⟩ := lookup_parameterOperands found
  rw [renders.covers.parameters _ _ found, type]
  rfl

theorem code_of_scalar (scalar : body.Scalar) {block : Block} {operands : Operands}
    (written : RendersBlock body operands label block) :
    ∃ terminator, block.terminator = some terminator ∧
      RendersAll body operands label 0 (body.block label).instructions block.assignments
        terminator := by
  obtain ⟨assignments, terminator, same, ends, code⟩ := written.code
  rw [reserved_of_scalar scalar, List.nil_append] at same
  rw [reserved_of_scalar scalar] at code
  exact ⟨terminator, ends, same ▸ code⟩

end RendersFunction

/-- Control passes to a block: its parameters and its phis are given the same words. -/
theorem Tracks.goTo {module : Ssa.Module} {progress : Progress} {frame : Ssa.Frame}
    {activation : Activation} (tracks : Tracks module progress frame [] activation)
    (scalar : frame.function.Scalar) {instruction : Ssa.Instruction}
    {behind instructions : List Ssa.Instruction}
    (next : frame.rest = instruction :: behind) {destination : Ssa.Destination}
    (exit : destination ∈ instruction.operation.destinations) {registers : Array Int64}
    (went : Ssa.Machine.follow frame.function frame.registers destination =
      some (instructions, registers)) {contents : Contents}
    (same : ∀ value, contents (.value value) = activation.contents (.value value)) :
    ∃ later, activation.function.goTo contents activation.label destination.block = some later ∧
      Tracks module progress ⟨frame.function, destination.block, instructions, registers,
        frame.slots, frame.floor⟩ [] later := by
  have member := tracks.member next
  have arguments : ∀ value ∈ destination.arguments,
      Mirrors progress.operands frame.registers contents value := fun value passed =>
    (tracks.uses next (List.mem_append_right _ (List.mem_flatMap.mpr
      ⟨destination, List.mem_append_left _ exit, passed⟩))).of_same rfl (same value)
  obtain ⟨inside, renders, here, trail, rest, code, mirrors⟩ := tracks
  have lowered := renders.lowered
  have placed := lowered.placed ⟨_, trail⟩
  have leaves : destination ∈ frame.function.exits frame.block :=
    List.mem_flatMap.mpr ⟨instruction, member, exit⟩
  obtain ⟨different, placedThen, _, fits⟩ := lowered.leads placed leaves
  obtain ⟨words, read, _, written, rfl⟩ := Ssa.Machine.follow_eq_some.mp went
  obtain ⟨block, foundThen, rendered⟩ := renders.block?_eq placedThen
  obtain ⟨terminator, ends, codeThen⟩ := RendersFunction.code_of_scalar scalar rendered
  have joined := rendered.join_eq lowered placed leaves renders.covers.typed
    (fun value => renders.covers.knows_argument lowered placed leaves) read arguments
  refine ⟨⟨activation.function, destination.block, block.assignments, terminator,
    contents.assign (frame.function.block destination.block).parameters words⟩, ?_, ?_⟩
  · rw [Function.goTo, foundThen, here]
    simp [ends, joined]
  · have leads : destination.block ∈ (frame.function.block frame.block).successors := by
      have successors := lowered.exits_map_block placed
      rw [Ssa.Function.successors] at successors
      rw [← successors]
      exact List.mem_map_of_mem leaves
    rw [next] at rest code
    have ending : instruction.isTerminator = true := by
      by_contra plain
      rw [Bool.not_eq_true] at plain
      rw [Ssa.Operation.destinations_eq_nil plain] at exit
      cases exit
    obtain ⟨rfl, _⟩ := code.last ending
    have nothing := Drafting.results_of_ends
      (lowered.idiomatic.instructions _ _ member) ending
    have count := (Ssa.readAll_eq_some.mp read).length_eq
    refine .intro inside renders rfl (.next _ _ _ trail leads) List.drop_zero.symm codeThen ?_
    intro value passed _
    apply Mirrors.assign written
      (List.nodup_append.mp (lowered.dominated.single.block_nodup destination.block)).1
      (fits.length_eq.symm.trans count) (fun _ => renders.lookup_parameter placedThen)
    intro other
    have before := (passed.of_next rest.symm nothing).resolve_left other
    exact (mirrors value before List.not_mem_nil).of_same rfl (same value)

/-- Control enters a function: its parameters are given the same words. -/
theorem RendersFunction.enter?_eq {module : Ssa.Module} {body : Ssa.Function} {entry : Label}
    {progress : Progress} {function : Function}
    (renders : RendersFunction body entry progress function) (scalar : body.Scalar)
    {id : Ssa.FunctionId} (inside : module.body? id = some body) {words : List Int64} {depth : Nat}
    {memory grown : Ssa.Memory} {frame : Ssa.Frame}
    (entered : Ssa.enter body words depth memory = .ok (frame, grown)) :
    function.blocks ≠ [] ∧ ∃ activation, function.enter? (words.map .word) = some activation ∧
      Tracks module progress frame [] activation := by
  have lowered := renders.lowered
  have first := lowered.verified.first
  have placed : entry ∈ body.layout := List.mem_of_head? first
  obtain ⟨own, member, _⟩ := renders.exists_block placed
  have nonempty : function.blocks ≠ [] := List.ne_nil_of_mem member
  refine ⟨nonempty, ?_⟩
  rw [Ssa.enter] at entered
  split at entered
  · cases entered
  rename_i wanted
  split at entered
  · cases entered
  obtain ⟨slots, other, target, registers, _, same, found, written, rfl⟩ :=
    Ssa.activate_eq_ok.mp entered
  cases first.symm.trans same
  have block : body.block entry = target := by
    rw [Ssa.Function.block, found]
    rfl
  subst block
  have count : (body.block entry).parameters.length = words.length :=
    lowered.verified.parameters.length_eq.trans (not_not.mp wanted).symm
  have head := List.head?_eq_some_head nonempty
  have label := renders.head head
  obtain ⟨_, rendered⟩ := renders.of_mem (List.head_mem nonempty)
  rw [label] at rendered
  obtain ⟨terminator, ends, code⟩ := RendersFunction.code_of_scalar scalar rendered
  have widths : (words.map Content.word).map Content.width =
      function.parameters.map Parameter.width := by
    rw [renders.parameters, List.map_map, List.map_map]
    change words.map (fun _ => Width.word) =
      (body.block entry).parameters.map fun _ => Width.word
    rw [List.map_const', List.map_const', count]
  refine ⟨⟨function, entry, (function.blocks.head nonempty).assignments, terminator,
    Contents.assign (fun _ => none) (body.block entry).parameters words⟩, ?_, ?_⟩
  · rw [Function.enter?, head]
    simp only [Option.bind_eq_bind, Option.bind_some, ends, if_pos widths, label]
    rw [renders.parameters, parameterContents_eq]
    rfl
  · refine .intro inside renders rfl (.entry entry first) List.drop_zero.symm code ?_
    intro value passed _
    apply Mirrors.assign written
      (List.nodup_append.mp (lowered.dominated.single.block_nodup entry)).1 count
      (fun _ => renders.lookup_parameter placed)
    intro other
    rcases passed with here | ⟨_, early, _⟩
    · rw [Ssa.Block.definedBefore, List.take_zero, List.flatMap_nil, List.append_nil] at here
      exact absurd here other
    · cases early

/-! ## Instructions -/

namespace Tracks

variable {module : Ssa.Module} {progress : Progress} {frame : Ssa.Frame} {activation : Activation}
  {instruction : Ssa.Instruction} {behind : List Ssa.Instruction} {environment : Environment σ}

/-- An instruction computes a word. -/
theorem compute (tracks : Tracks module progress frame [] activation)
    (scalar : frame.function.Scalar) (next : frame.rest = instruction :: behind)
    {memory : Ssa.Memory} {word : Int64} {result : Value} {others : List Value}
    (computed : Ssa.Machine.compute frame.function frame.slots frame.registers memory
      instruction.operation = some (.ok word))
    (results : instruction.results = result :: others)
    (inside : result.index < frame.registers.size)
    (fits : instruction.operation.overflows frame.registers = false) :
    ∃ later, (∀ waiting host, Machine.Reaches environment ⟨activation, waiting, host⟩
        ⟨later, waiting, host⟩) ∧
      Tracks module progress
        { frame with
          rest := behind
          registers := frame.registers.setIfInBounds result.index word } [] later := by
  obtain ⟨entry, renders⟩ := tracks.renders
  have member := tracks.member next
  have mirrors : ∀ value ∈ instruction.operation.operands,
      Mirrors progress.operands frame.registers activation.contents value := fun value operand =>
    tracks.uses next (List.mem_append_left _ operand)
  obtain ⟨count, here, more, split, rendered, ahead⟩ :=
    tracks.proceed next (Ssa.Machine.isTerminator_of_compute computed)
  obtain ⟨own, contents, single, computes⟩ := @Renders.computes _ environment _ _ _ _ _ _ _ _
    rendered scalar member (renders.lowered.idiomatic.instructions _ _ member)
    renders.covers.typed mirrors _ _ _ computed fits
  cases single.symm.trans results
  rw [single] at ahead
  refine ⟨{ activation with rest := more, contents }, fun waiting host => ?_, ?_⟩
  · obtain ⟨function, label, _, terminator, before⟩ := activation
    subst split
    exact computes.reaches function label more terminator waiting host
  · have written : (frame.registers.setIfInBounds result.index word)[result.index]? =
        some word := by
      simp [inside]
    apply ahead.receive written
    · intro value different
      apply Array.getElem?_setIfInBounds_ne
      exact fun same => different (congrArg Value.mk same).symm
    · exact computes.represents
    · exact computes.others

/-- The result of a call has come. -/
theorem resume {result : Value} {word : Int64} {registers : Array Int64}
    (tracks : Tracks module progress frame [result] activation)
    (known : progress.operands.lookup result = some (.result (.value result) .word))
    (written : Ssa.writeAll frame.registers [result] [word] = some registers) :
    Tracks module progress { frame with registers } []
      { activation with contents :=
        activation.contents.set (some (.value result)) (.word word) } := by
  have holds := Ssa.writeAll_of_nodup written (List.nodup_singleton result) rfl
  rw [List.forall₂_cons] at holds
  apply tracks.receive holds.1
  · intro value different
    exact Ssa.writeAll_of_not_mem written (List.mem_singleton.not.mpr different)
  · have width : (Content.word word).width = .word := rfl
    exact Represents.set activation.contents (width ▸ known)
  · intro value different
    exact Contents.set_of_ne _ _ (different ∘ Name.value.inj)

/-- A function is called with the words that are read. -/
theorem call (tracks : Tracks module progress frame [] activation)
    (next : frame.rest = instruction :: behind) {reference : Ssa.Reference}
    {arguments : List Value} (operation : instruction.operation = .call reference arguments)
    {words : List Int64} (read : Ssa.readAll frame.registers arguments = some words)
    {external : Ssa.External}
    (found : frame.function.references[reference.index]? = some external) :
    ∃ result inputs more, instruction.results = [result] ∧
      progress.operands.lookup result = some (.result (.value result) .word) ∧
      activation.rest = ⟨some (.value result), .call .word external.name inputs⟩ :: more ∧
      inputs.mapM (Operand.content? activation.contents) = some (words.map .word) ∧
      Tracks module progress { frame with rest := behind } [result]
        { activation with rest := more } := by
  obtain ⟨entry, renders⟩ := tracks.renders
  obtain ⟨types, proper, _⟩ :=
    renders.lowered.idiomatic.instructions _ _ (tracks.member next)
  have mirrors : ∀ value ∈ arguments,
      Mirrors progress.operands frame.registers activation.contents value := by
    intro value passed
    apply tracks.uses next (List.mem_append_left _ _)
    rw [operation]
    exact passed
  obtain ⟨count, here, more, split, rendered, ahead⟩ :=
    tracks.proceed next (congrArg Ssa.Operation.isTerminator operation)
  cases rendered with
  | @call result _ _ called inputs _ known there given =>
      cases operation
      cases found.symm.trans there
      refine ⟨result, inputs, more, rfl, given, split, ?_, ahead⟩
      apply mapM_content? read known _ mirrors
      intro input member
      obtain ⟨index, inside, rfl⟩ := List.mem_iff_getElem.mp member
      have bound : index < arguments.length := known.length_eq ▸ inside
      cases proper with
      | call typed =>
          exact renders.covers.typed.width (known.get bound inside)
            (typed _ (List.getElem_mem bound))
  | _ => cases operation

/-- A word decides where control goes. -/
theorem branch (tracks : Tracks module progress frame [] activation)
    (scalar : frame.function.Scalar) (next : frame.rest = instruction :: behind)
    {condition : Value} {onTrue onFalse : Ssa.Destination}
    (operation : instruction.operation = .branch condition onTrue onFalse) {word : Int64}
    (tested : frame.registers[condition.index]? = some word)
    {instructions : List Ssa.Instruction} {registers : Array Int64}
    (went : Ssa.Machine.follow frame.function frame.registers
      (if word ≠ 0 then onTrue else onFalse) = some (instructions, registers)) :
    ∃ later, (∀ waiting host, Machine.Reaches environment ⟨activation, waiting, host⟩
        ⟨later, waiting, host⟩) ∧
      Tracks module progress ⟨frame.function, (if word ≠ 0 then onTrue else onFalse).block,
        instructions, registers, frame.slots, frame.floor⟩ [] later := by
  have mirrors : Mirrors progress.operands frame.registers activation.contents condition := by
    apply tracks.uses next (List.mem_append_left _ _)
    rw [operation]
    exact List.mem_cons_self
  have exit : (if word ≠ 0 then onTrue else onFalse) ∈ instruction.operation.destinations := by
    rw [operation, Ssa.Operation.destinations]
    split <;> simp
  obtain ⟨count, closes⟩ := tracks.last next (congrArg Ssa.Operation.isTerminator operation)
  obtain ⟨function, label, rest, terminator, contents⟩ := activation
  cases closes with
  | @branch _ operand _ _ _ _ read narrow =>
      cases operation
      obtain ⟨truth, holds, rfl⟩ := mirrors.narrow tested read narrow
      obtain ⟨later, passes, ahead⟩ := tracks.goTo scalar next exit went fun _ => rfl
      refine ⟨later, fun waiting host => .single (Machine.step_branch holds ?_), ahead⟩
      cases truth <;> exact passes
  | @test _ operand _ _ _ _ read wide =>
      cases operation
      have compared : (Instruction.compare .notEqual operand (.constant .word 0)).content?
          contents = some (.bit (word != 0)) := by
        rw [Instruction.content?, mirrors.word? tested read wide]
        rfl
      generalize outcome : contents.set (some (.temporary frame.block count))
        (.bit (word != 0)) = after
      have holds : Operand.content? after (.result (.temporary frame.block count) .bit) =
          some (.bit (word != 0)) := by
        simp [← outcome, Operand.content?, Contents.set, Content.width]
      have same : ∀ value, after (.value value) = contents (.value value) := fun value => by
        rw [← outcome, Contents.set_of_ne _ _ Name.noConfusion]
      obtain ⟨later, passes, ahead⟩ := tracks.goTo scalar next exit went same
      refine ⟨later, fun waiting host => ?_, ahead⟩
      subst outcome
      refine .head (Machine.step_assign compared) (.single (Machine.step_branch holds ?_))
      by_cases zero : word = 0
      · simpa [zero] using passes
      · simpa [zero] using passes
  | _ => cases operation

/-- Control goes on in another block. -/
theorem jump (tracks : Tracks module progress frame [] activation)
    (scalar : frame.function.Scalar) (next : frame.rest = instruction :: behind)
    {destination : Ssa.Destination} (operation : instruction.operation = .jump destination)
    {instructions : List Ssa.Instruction} {registers : Array Int64}
    (went : Ssa.Machine.follow frame.function frame.registers destination =
      some (instructions, registers)) :
    ∃ later, (∀ waiting host, Machine.Reaches environment ⟨activation, waiting, host⟩
        ⟨later, waiting, host⟩) ∧
      Tracks module progress ⟨frame.function, destination.block, instructions, registers,
        frame.slots, frame.floor⟩ [] later := by
  have exit : destination ∈ instruction.operation.destinations := by
    rw [operation]
    exact List.mem_cons_self
  obtain ⟨count, closes⟩ := tracks.last next (congrArg Ssa.Operation.isTerminator operation)
  obtain ⟨later, passes, ahead⟩ := tracks.goTo scalar next exit went fun _ => rfl
  obtain ⟨function, label, rest, terminator, contents⟩ := activation
  cases closes with
  | jump =>
      cases operation
      exact ⟨later, fun waiting host => .single (Machine.step_jump passes), ahead⟩
  | _ => cases operation

/-- A function returns a word. -/
theorem ret (tracks : Tracks module progress frame [] activation)
    (next : frame.rest = instruction :: behind) {values : List Value}
    (operation : instruction.operation = .ret values) {words : List Int64}
    (read : Ssa.readAll frame.registers values = some words) :
    ∃ operand word, words = [word] ∧ activation.rest = [] ∧
      activation.terminator = .ret operand ∧
      operand.content? activation.contents = some (.word word) := by
  obtain ⟨entry, renders⟩ := tracks.renders
  obtain ⟨types, proper, _⟩ :=
    renders.lowered.idiomatic.instructions _ _ (tracks.member next)
  have uses : ∀ value ∈ instruction.uses,
      Mirrors progress.operands frame.registers activation.contents value := fun _ =>
    tracks.uses next
  obtain ⟨count, closes⟩ := tracks.last next (congrArg Ssa.Operation.isTerminator operation)
  generalize activation.rest = rest at closes
  generalize activation.terminator = terminator at closes
  cases closes with
  | @ret value operand _ _ known =>
      cases operation
      cases proper with
      | ret word =>
          have mirrors := uses value (by simp [Ssa.Instruction.uses, Ssa.Operation.operands])
          have read := Ssa.readAll_eq_some.mp read
          cases read with
          | cons found none =>
              cases none
              exact ⟨operand, _, rfl, rfl, rfl,
                mirrors.wide found known (renders.covers.typed.width known word)⟩
  | _ => cases operation

theorem update_ne (tracks : Tracks module progress frame [] activation)
    (scalar : frame.function.Scalar) (next : frame.rest = instruction :: behind)
    {memory later : Ssa.Memory} : Ssa.Machine.update frame.function frame.slots frame.registers
      memory instruction.operation ≠ some (.ok later) := by
  intro updated
  have plain : instruction.isTerminator = false := by
    rw [Ssa.Instruction.isTerminator, Ssa.Operation.isTerminator]
    cases operation : instruction.operation with
    | store | slotStore => rfl
    | _ => simp [operation, Ssa.Machine.update] at updated
  obtain ⟨count, here, more, split, rendered, ahead⟩ := tracks.proceed next plain
  cases rendered with
  | slotStart _ found | slotStore _ found => simp [scalar.slots] at found
  | _ => cases updated

end Tracks

end Llvm

end ExprLang
