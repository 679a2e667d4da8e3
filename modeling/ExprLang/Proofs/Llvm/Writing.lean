import ExprLang.Proofs.Llvm.Rendering

/-!
# Lowered functions can be written

Blocks are written in an order in which the operands of all values that a block uses are known
when it is its turn, and the phis of a block take from each branch what the branch passes.
-/

namespace ExprLang

/-! ## Lowered functions -/

def Ssa.Function.exits (function : Ssa.Function) (label : Label) : List Destination :=
  (function.block label).instructions.flatMap fun instruction =>
    instruction.operation.destinations

namespace Ssa.Function.Lowered

variable {function : Ssa.Function} {entry : Label}

theorem placed (lowered : function.Lowered entry) {label : Label}
    (reachable : function.Reachable label) : label ∈ function.layout := by
  obtain ⟨earlier, trail⟩ := reachable
  exact lowered.verified.placed ⟨earlier, trail.route⟩

theorem named_eq (lowered : function.Lowered entry) (label : Label) :
    function.named label = function.successors label := by
  rw [named, successors, Block.successors]
  cases found : (function.block label).instructions.getLast? with
  | none => rfl
  | some last =>
      have stray := lowered.stray label last (List.mem_of_getLast? found)
      simp only [Instruction.destinations, stray, List.append_nil]

theorem order (lowered : function.Lowered entry) :
    function.reversePostorder.Nodup ∧
      (∀ label, label ∈ function.reversePostorder ↔ label ∈ function.layout) ∧
      ∀ before label behind, function.reversePostorder = before ++ label :: behind →
        ∃ earlier, function.Trail (label :: earlier) ∧ earlier ⊆ before := by
  obtain ⟨nodup, same, trails⟩ :=
    reversePostorder_spec lowered.verified.first lowered.named_eq lowered.dominated.reachable
  refine ⟨nodup, fun label => ?_, trails⟩
  rw [same]
  exact ⟨lowered.placed, lowered.dominated.reachable label⟩

/-- A value that is used was defined before, if blocks are looked at in reverse postorder. -/
theorem defined_of_uses (lowered : function.Lowered entry) {before behind : List Label}
    {label : Label} (split : function.reversePostorder = before ++ label :: behind)
    {front : List Instruction} {instruction : Instruction} {rest : List Instruction}
    (place : (function.block label).instructions = front ++ instruction :: rest) {value : Value}
    (used : value ∈ instruction.uses) :
    (∃ other ∈ function.layout, value ∈ (function.block other).parameters) ∨
      (∃ other ∈ before,
        value ∈ (function.block other).instructions.flatMap Instruction.results) ∨
      value ∈ front.flatMap Instruction.results := by
  obtain ⟨nodup, same, trails⟩ := lowered.order
  obtain ⟨earlier, trail, passed⟩ := trails before label behind split
  have found : (function.block label).instructions[front.length]? = some instruction := by
    rw [place]
    simp
  rcases lowered.dominated.available label _ instruction found value used earlier trail with
    here | ⟨other, member, defined⟩
  · rcases List.mem_append.mp here with parameter | result
    · exact .inl ⟨label, lowered.placed ⟨_, trail⟩, parameter⟩
    · rw [place, List.take_left] at result
      exact .inr (.inr result)
  · rcases List.mem_append.mp defined with parameter | result
    · refine .inl ⟨other, (same other).mp ?_, parameter⟩
      rw [split]
      exact List.mem_append_left _ (passed member)
    · exact .inr (.inl ⟨other, passed member, result⟩)

/-- No value is a parameter and a result, or a result of two blocks. -/
theorem result_fresh (lowered : function.Lowered entry) {before : List Label} {label : Label}
    (new : label ∉ before) {value : Value}
    (result : value ∈ (function.block label).instructions.flatMap Instruction.results) :
    ¬ ((∃ other ∈ function.layout, value ∈ (function.block other).parameters) ∨
      ∃ other ∈ before,
        value ∈ (function.block other).instructions.flatMap Instruction.results) := by
  have single := lowered.dominated.single
  have defined : value ∈ (function.block label).definitions := List.mem_append_right _ result
  rintro (⟨other, _, parameter⟩ | ⟨other, member, again⟩)
  · cases single.label_eq defined (List.mem_append_left _ parameter)
    exact List.disjoint_of_nodup_append (single.block_nodup label) parameter result
  · cases single.label_eq defined (List.mem_append_right _ again)
    exact new member

theorem exits_eq (lowered : function.Lowered entry) {label : Label}
    (placed : label ∈ function.layout) :
    ∃ last, (function.block label).instructions.getLast? = some last ∧
      function.exits label = last.operation.destinations := by
  have formed := lowered.verified.blocks label placed
  have terminated := formed.terminated
  rw [Block.isTerminated] at terminated
  obtain ⟨last, found, ends⟩ := (Option.any_eq_true _ _).mp terminated
  obtain ⟨front, split⟩ := List.getLast?_eq_some_iff.mp found
  refine ⟨last, found, ?_⟩
  have none : (front.flatMap fun instruction => instruction.operation.destinations) = [] := by
    rw [List.flatMap_eq_nil_iff]
    intro instruction member
    obtain ⟨before, behind, rfl⟩ := List.append_of_mem member
    refine Operation.destinations_eq_nil (Bool.eq_false_iff.mpr fun early => ?_)
    have nothing := formed.only before instruction (behind ++ [last]) (by simp [split]) early
    simp at nothing
  rw [exits, split, List.flatMap_append, none]
  simp

theorem exits_map_block (lowered : function.Lowered entry) {label : Label}
    (placed : label ∈ function.layout) :
    (function.exits label).map Destination.block = function.successors label := by
  obtain ⟨last, found, same⟩ := lowered.exits_eq placed
  rw [same, successors, Block.successors, found]

theorem exits_nodup (lowered : function.Lowered entry) {label : Label}
    (placed : label ∈ function.layout) :
    ((function.exits label).map Destination.block).Nodup := by
  obtain ⟨last, found, same⟩ := lowered.exits_eq placed
  obtain ⟨types, proper, _⟩ :=
    lowered.idiomatic.instructions label last (List.mem_of_getLast? found)
  rw [same]
  generalize last.operation = operation at proper
  cases proper with
  | branch typed either apart => simpa [Operation.destinations] using apart
  | _ => simp [Operation.destinations]

theorem leads (lowered : function.Lowered entry) {label : Label}
    (placed : label ∈ function.layout) {destination : Destination}
    (exit : destination ∈ function.exits label) : function.Leads entry destination := by
  obtain ⟨instruction, member, inside⟩ := List.mem_flatMap.mp exit
  exact (lowered.verified.blocks label placed).leads instruction member destination
    (List.mem_append_left _ inside)

end Ssa.Function.Lowered

namespace Llvm

open Ssa (Value Label)

/-! ## Blocks -/

/-- What stands at the start of a block: the slots are reserved in the entry. -/
def reserved (function : Ssa.Function) (label : Label) : List Assignment :=
  if function.entry? = some label then reservations function else []

structure Progress.Covers (function : Ssa.Function) (before : List Label) (progress : Progress) :
    Prop where
  typed : progress.operands.Typed function
  knows : ∀ value, progress.operands.Knows value ↔
    (∃ label ∈ function.layout, value ∈ (function.block label).parameters) ∨
      ∃ label ∈ before,
        value ∈ (function.block label).instructions.flatMap Ssa.Instruction.results
  parameters : (parameterOperands function).Within progress.operands
  contents : ∀ label ∈ before, ∃ written terminator,
    progress.contents.lookup label = some (reserved function label ++ written, some terminator) ∧
      RendersAll function progress.operands label (reserved function label).length
        (function.block label).instructions written terminator

theorem lookup_parameterOperands {function : Ssa.Function} {value : Value} {operand : Operand}
    (found : (parameterOperands function).lookup value = some operand) :
    operand = .result (.value value) (.ofMachineType (function.type value)) ∧
      ∃ label ∈ function.layout, value ∈ (function.block label).parameters := by
  obtain ⟨before, behind, split, _⟩ := List.lookup_eq_some_iff.mp found
  have member : (value, operand) ∈ parameterOperands function := by
    rw [split]
    simp
  obtain ⟨label, placed, inside⟩ := List.mem_flatMap.mp member
  obtain ⟨parameter, listed, same⟩ := List.mem_map.mp inside
  cases same
  exact ⟨rfl, label, placed, listed⟩

theorem parameterOperands_knows {function : Ssa.Function} {value : Value} :
    (parameterOperands function).Knows value ↔
      ∃ label ∈ function.layout, value ∈ (function.block label).parameters := by
  constructor
  · rintro ⟨operand, found⟩
    exact (lookup_parameterOperands found).2
  · rintro ⟨label, placed, member⟩
    cases found : (parameterOperands function).lookup value with
    | some operand => exact ⟨operand, found⟩
    | none =>
        rw [List.lookup_eq_none_iff] at found
        have listed : (value, _) ∈ parameterOperands function := List.mem_flatMap.mpr
          ⟨label, placed, List.mem_map.mpr ⟨value, member, rfl⟩⟩
        simpa using found _ listed

namespace Progress.Covers

variable {function : Ssa.Function} {entry : Label} {before behind : List Label}
  {progress : Progress}

theorem start (function : Ssa.Function) :
    Covers function [] ⟨parameterOperands function, []⟩ where
  typed value operand found := by
    rw [(lookup_parameterOperands found).1]
    rfl
  knows value := by simp [parameterOperands_knows]
  parameters _ _ found := found
  contents label member := by cases member

theorem addBlock (covers : Covers function before progress) (lowered : function.Lowered entry)
    {label : Label} (split : function.reversePostorder = before ++ label :: behind) :
    ∃ later, Llvm.addBlock function progress label = .ok later ∧
      Covers function (before ++ [label]) later := by
  obtain ⟨nodup, same, _⟩ := lowered.order
  have placed : label ∈ function.layout := by
    rw [← same, split]
    simp
  have new : label ∉ before := by
    rw [split] at nodup
    exact fun old => (List.nodup_append.mp nodup).2.2 label old label List.mem_cons_self rfl
  have formed := lowered.verified.blocks label placed
  obtain ⟨later, written, terminator, ran, renders, gains⟩ :=
    @Drafting.instructions_render function
      ⟨label, progress.operands, (reserved function label).toArray, none⟩ _
      (fun instruction member => lowered.idiomatic.instructions label instruction member)
      (fun instruction member => (lowered.equipped label instruction member).sustained)
      formed.terminated formed.only covers.typed
      (fun front instruction rest place value operand => by
        rw [covers.knows, or_assoc]
        exact lowered.defined_of_uses split place (List.mem_append_left _ operand))
      (fun value result => by
        rw [covers.knows]
        exact lowered.result_fresh new result)
      (List.nodup_append.mp (lowered.dominated.single.block_nodup label)).2.1
  refine ⟨⟨later, (label, reserved function label ++ written, some terminator) ::
    progress.contents⟩, ?_, ?_⟩
  · rw [Llvm.addBlock]
    rw [reserved] at ran ⊢
    simp only [ran]
    simp [bind, Except.bind, pure, Except.pure]
  · refine ⟨gains.typed, fun value => ?_, fun value operand found =>
      gains.within _ _ (covers.parameters _ _ found), fun other member => ?_⟩
    · simp only [gains.knows, covers.knows, List.mem_append, List.mem_singleton, or_and_right,
        exists_or, exists_eq_left, or_assoc]
    · rcases List.mem_append.mp member with old | here
      · obtain ⟨first, last, found, rendered⟩ := covers.contents other old
        refine ⟨first, last, ?_, rendered.within gains.within⟩
        have other_ne : (other == label) = false :=
          beq_eq_false_iff_ne.mpr fun equal => new (equal ▸ old)
        simpa only [List.lookup_cons, other_ne] using found
      · cases List.mem_singleton.mp here
        rw [List.size_toArray] at renders
        exact ⟨written, terminator, List.lookup_cons_self, renders⟩

theorem foldlM (lowered : function.Lowered entry) {rest : List Label}
    (covers : Covers function before progress)
    (split : function.reversePostorder = before ++ rest) :
    ∃ last, rest.foldlM (Llvm.addBlock function) progress = .ok last ∧
      Covers function function.reversePostorder last := by
  induction rest generalizing before progress with
  | nil =>
      rw [List.append_nil] at split
      exact ⟨progress, rfl, split ▸ covers⟩
  | cons label rest induction =>
      obtain ⟨later, added, coversThen⟩ := covers.addBlock lowered split
      obtain ⟨last, folded, whole⟩ := induction coversThen (by simp [split])
      refine ⟨last, ?_, whole⟩
      rw [List.foldlM_cons, added]
      exact folded

end Progress.Covers

/-! ## Phis -/

theorem passages_eq (function : Ssa.Function) (label : Label) :
    passages function label = (function.exits label).map (Passage.mk label) := by
  rw [passages, Ssa.Function.exits, List.map_flatMap]

def carried (operands : Operands) (label : Label) (index : Nat) (passage : Passage) :
    Option (Operand × Label) :=
  if passage.destination.block = label then
    (passage.destination.arguments[index]?.bind fun argument => operands.lookup argument).map
      (·, passage.source)
  else none

theorem exists_mapM_eq_ok (write : α → Except ε β) {items : List α}
    (each : ∀ item ∈ items, ∃ written, write item = .ok written) :
    ∃ written, items.mapM write = .ok written ∧
      List.Forall₂ (fun item result => write item = .ok result) items written := by
  induction items with
  | nil => exact ⟨[], rfl, .nil⟩
  | cons item items induction =>
      rw [List.forall_mem_cons] at each
      obtain ⟨head, first⟩ := each.1
      obtain ⟨tail, others, all⟩ := induction each.2
      refine ⟨head :: tail, ?_, .cons first all⟩
      rw [List.mapM_cons, first, others]
      rfl

def given (parameter : Value) : Value × Operand × Label → Option (Operand × Label) :=
  fun (value, operand, source) => if value = parameter then some (operand, source) else none

theorem filterMap_given_eq_nil {parameters : List Value} {parameter : Value}
    (absent : parameter ∉ parameters) (inputs : List Operand) (source : Label) :
    ((parameters.zip inputs).map fun (value, input) => (value, input, source)).filterMap
      (given parameter) = [] := by
  rw [List.filterMap_eq_nil_iff]
  intro entry member
  obtain ⟨⟨value, input⟩, inside, rfl⟩ := List.mem_map.mp member
  refine if_neg fun equal => absent ?_
  rw [← equal]
  exact (List.of_mem_zip inside).1

theorem filterMap_given {parameters : List Value} {inputs : List Operand}
    (nodup : parameters.Nodup) (same : inputs.length = parameters.length) {index : Nat}
    {parameter : Value} (found : parameters[index]? = some parameter) (source : Label) :
    ((parameters.zip inputs).map fun (value, input) => (value, input, source)).filterMap
      (given parameter) = (inputs[index]?.map (·, source)).toList := by
  induction parameters generalizing inputs index with
  | nil => cases found
  | cons head parameters induction =>
      obtain _ | ⟨input, inputs⟩ := inputs
      · cases same
      obtain ⟨fresh, nodup⟩ := List.nodup_cons.mp nodup
      rw [List.zip_cons_cons, List.map_cons, List.filterMap_cons]
      cases index with
      | zero =>
          cases found
          simp [given, filterMap_given_eq_nil fresh inputs source]
      | succ index =>
          have different : head ≠ parameter := by
            rintro rfl
            exact fresh (List.mem_of_getElem? found)
          have rest := induction nodup (Nat.succ.inj same) found
          simpa [given, different] using rest

theorem find_eq_ok {operands : Operands} {value : Value} {operand : Operand} :
    operands.find value = .ok operand ↔ operands.lookup value = some operand := by
  rw [Operands.find]
  split <;> simp [*]

theorem map_lookup_eq {operands : Operands} {arguments : List Value} {inputs : List Operand}
    (read : List.Forall₂ (fun argument input => operands.find argument = .ok input) arguments
      inputs) :
    (arguments.map fun argument => operands.lookup argument) = inputs.map some := by
  induction read with
  | nil => rfl
  | cons found _ induction =>
      rw [List.map_cons, List.map_cons, induction, find_eq_ok.mp found]

/-- What a branch brings can be written, and for each parameter it is what the branch passes. -/
theorem incoming_eq_ok {function : Ssa.Function} (operands : Operands) (passage : Passage)
    (nodup : (function.block passage.destination.block).parameters.Nodup)
    (same : passage.destination.arguments.length =
      (function.block passage.destination.block).parameters.length)
    (known : ∀ argument ∈ passage.destination.arguments, operands.Knows argument) :
    ∃ brought, incoming function operands passage = .ok brought ∧
      ∀ label index parameter, (function.block label).parameters[index]? = some parameter →
        (parameter ∈ (function.block passage.destination.block).parameters →
          passage.destination.block = label) →
        brought.filterMap (given parameter) = (carried operands label index passage).toList := by
  obtain ⟨inputs, written, read⟩ := exists_mapM_eq_ok operands.find fun argument member =>
    (known argument member).imp fun _ => find_eq_ok.mpr
  refine ⟨_, by rw [incoming, if_neg (not_not.mpr same), written]; rfl, ?_⟩
  intro label index parameter found own
  by_cases here : passage.destination.block = label
  · subst here
    have count : inputs.length =
        (function.block passage.destination.block).parameters.length := by
      rw [← same, ← read.length_eq]
    rw [filterMap_given nodup count found, carried, if_pos rfl]
    have entry := congrArg (·[index]?) (map_lookup_eq read)
    simp only [List.getElem?_map] at entry
    cases first : inputs[index]? <;> cases second : passage.destination.arguments[index]? <;>
      simp_all
  · rw [carried, if_neg here, filterMap_given_eq_nil fun member => here (own member)]
    rfl

/-! ## Functions -/

structure RendersBlock (function : Ssa.Function) (operands : Operands) (label : Label)
    (block : Block) : Prop where
  labelled : block.label = label
  values : block.phis.map Phi.value =
    if function.entry? = some label then [] else (function.block label).parameters
  widths : ∀ phi ∈ block.phis, phi.width = .ofMachineType (function.type phi.value)
  incoming : ∀ index phi, block.phis[index]? = some phi →
    phi.incoming = (function.reversePostorder.flatMap (passages function)).filterMap
      (carried operands label index)
  code : ∃ written terminator,
    block.assignments = reserved function label ++ written ∧
      block.terminator = some terminator ∧
      RendersAll function operands label (reserved function label).length
        (function.block label).instructions written terminator

section Function

variable {function : Ssa.Function} {entry label : Label} {operands : Operands} {index : Nat}

theorem filterMap_flatten {passages : List Passage}
    {brought : List (List (Value × Operand × Label))} {parameter : Value}
    (each : List.Forall₂ (fun passage entries => entries.filterMap (given parameter) =
      (carried operands label index passage).toList) passages brought) :
    brought.flatten.filterMap (given parameter) =
      passages.filterMap (carried operands label index) := by
  induction each with
  | nil => rfl
  | @cons passage entries passages brought first _ induction =>
      rw [List.flatten_cons, List.filterMap_append, first, induction, List.filterMap_cons]
      cases carried operands label index passage <;> rfl

theorem phis_incoming {brought : List (Value × Operand × Label)} {others : List Passage}
    (each : ∀ index parameter, (function.block label).parameters[index]? = some parameter →
      brought.filterMap (given parameter) = others.filterMap (carried operands label index))
    {phi : Phi} (found : (phis function brought label)[index]? = some phi) :
    phi.incoming = others.filterMap (carried operands label index) := by
  rw [phis] at found
  split at found
  · simp at found
  · rw [List.getElem?_map, Option.map_eq_some_iff] at found
    obtain ⟨parameter, listed, rfl⟩ := found
    exact each index parameter listed

namespace Progress.Covers

variable {progress : Progress}

theorem knows_argument (covers : Covers function function.reversePostorder progress)
    (lowered : function.Lowered entry) (placed : label ∈ function.layout)
    {destination : Ssa.Destination} (exit : destination ∈ function.exits label) {argument : Value}
    (passed : argument ∈ destination.arguments) : progress.operands.Knows argument := by
  obtain ⟨nodup, same, _⟩ := lowered.order
  obtain ⟨instruction, member, inside⟩ := List.mem_flatMap.mp exit
  obtain ⟨before, behind, split⟩ := List.append_of_mem ((same label).mpr placed)
  obtain ⟨front, rest, place⟩ := List.append_of_mem member
  have used : argument ∈ instruction.uses := List.mem_append_right _
    (List.mem_flatMap.mpr ⟨destination, List.mem_append_left _ inside, passed⟩)
  rw [covers.knows, split]
  rcases lowered.defined_of_uses split place used with parameter | ⟨other, early, result⟩ | result
  · exact .inl parameter
  · exact .inr ⟨other, List.mem_append_left _ early, result⟩
  · refine .inr ⟨label, by simp, ?_⟩
    rw [place, List.flatMap_append]
    exact List.mem_append_left _ result

/-- The phis can be filled. -/
theorem incoming (covers : Covers function function.reversePostorder progress)
    (lowered : function.Lowered entry) :
    ∃ brought, (function.reversePostorder.flatMap (passages function)).mapM
        (Llvm.incoming function progress.operands) = .ok brought ∧
      ∀ label index parameter, (function.block label).parameters[index]? = some parameter →
        brought.flatten.filterMap (given parameter) =
          (function.reversePostorder.flatMap (passages function)).filterMap
            (carried progress.operands label index) := by
  obtain ⟨nodup, same, _⟩ := lowered.order
  have single := lowered.dominated.single
  have each : ∀ passage ∈ function.reversePostorder.flatMap (passages function),
      ∃ brought, Llvm.incoming function progress.operands passage = .ok brought ∧
        ∀ label index parameter, (function.block label).parameters[index]? = some parameter →
          brought.filterMap (given parameter) =
            (carried progress.operands label index passage).toList := by
    intro passage member
    obtain ⟨source, listed, inside⟩ := List.mem_flatMap.mp member
    rw [passages_eq] at inside
    obtain ⟨destination, exit, rfl⟩ := List.mem_map.mp inside
    have placed := (same source).mp listed
    obtain ⟨brought, written, carries⟩ := incoming_eq_ok progress.operands ⟨source, destination⟩
      (List.nodup_append.mp (single.block_nodup destination.block)).1
      (lowered.leads placed exit).fits.length_eq
      (fun argument passed => covers.knows_argument lowered placed exit passed)
    refine ⟨brought, written, fun label index parameter found => carries label index parameter found
      fun there => ?_⟩
    exact single.label_eq (List.mem_append_left _ there)
      (List.mem_append_left _ (List.mem_of_getElem? found))
  obtain ⟨brought, written, all⟩ := exists_mapM_eq_ok _ fun passage member =>
    (each passage member).imp fun _ holds => holds.1
  refine ⟨brought, written, fun label index parameter found => filterMap_flatten ?_⟩
  refine (List.forall₂_iff_get.mpr ⟨all.length_eq, fun place inside insideThen => ?_⟩)
  obtain ⟨entries, ran, carries⟩ := each _ (List.get_mem _ ⟨place, inside⟩)
  have equal := (all.get inside insideThen).symm.trans ran
  rw [Except.ok.inj equal]
  exact carries label index parameter found

end Progress.Covers

/-- A lowered function can be written. -/
theorem blocksOfSsa_eq_ok (lowered : function.Lowered entry) :
    ∃ progress blocks,
      function.reversePostorder.foldlM (addBlock function) ⟨parameterOperands function, []⟩ =
        .ok progress ∧
      blocksOfSsa function = .ok blocks ∧
      List.Forall₂ (RendersBlock function progress.operands) function.layout blocks ∧
      progress.Covers function function.reversePostorder := by
  obtain ⟨progress, folded, covers⟩ :=
    (Progress.Covers.start function).foldlM lowered (List.nil_append _).symm
  obtain ⟨brought, written, carries⟩ := covers.incoming lowered
  refine ⟨progress, _, folded,
    Ssa.bind_eq_ok.mpr ⟨_, folded, Ssa.bind_eq_ok.mpr ⟨_, written, rfl⟩⟩, ?_, covers⟩
  rw [List.forall₂_map_right_iff, List.forall₂_same]
  intro label placed
  obtain ⟨nodup, same, _⟩ := lowered.order
  obtain ⟨assignments, terminator, found, renders⟩ :=
    covers.contents label ((same label).mpr placed)
  refine ⟨rfl, ?_, ?_, fun index phi listed => ?_, assignments, terminator, ?_, ?_, renders⟩
  · simp only [phis]
    split
    · rfl
    · rw [List.map_map]
      exact List.map_id _
  · intro phi member
    simp only [phis] at member
    split at member
    · cases member
    · obtain ⟨parameter, _, rfl⟩ := List.mem_map.mp member
      rfl
  · exact phis_incoming (carries label) listed
  · simp [found]
  · simp [found]

/-- The branches that bring something to a phi. -/
theorem mem_carried (lowered : function.Lowered entry) {operand : Operand} {source : Label} :
    (operand, source) ∈ (function.reversePostorder.flatMap (passages function)).filterMap
        (carried operands label index) ↔
      source ∈ function.layout ∧ ∃ destination ∈ function.exits source,
        destination.block = label ∧ ∃ argument, destination.arguments[index]? = some argument ∧
          operands.lookup argument = some operand := by
  obtain ⟨_, same, _⟩ := lowered.order
  rw [List.mem_filterMap]
  constructor
  · rintro ⟨passage, member, found⟩
    obtain ⟨other, listed, inside⟩ := List.mem_flatMap.mp member
    rw [passages_eq] at inside
    obtain ⟨destination, exit, rfl⟩ := List.mem_map.mp inside
    rw [carried] at found
    split at found
    · rename_i here
      obtain ⟨input, read, equal⟩ := Option.map_eq_some_iff.mp found
      cases equal
      obtain ⟨argument, passed, known⟩ := Option.bind_eq_some_iff.mp read
      exact ⟨(same other).mp listed, destination, exit, here, argument, passed, known⟩
    · cases found
  · rintro ⟨placed, destination, exit, here, argument, passed, known⟩
    refine ⟨⟨source, destination⟩, List.mem_flatMap.mpr ⟨source, (same source).mpr placed, ?_⟩, ?_⟩
    · rw [passages_eq]
      exact List.mem_map.mpr ⟨destination, exit, rfl⟩
    · simp [carried, here, passed, known]

theorem sources_sublist {destinations : List Ssa.Destination} (source : Label)
    (nodup : (destinations.map Ssa.Destination.block).Nodup) :
    (((destinations.map (Passage.mk source)).filterMap
      (carried operands label index)).map Prod.snd).Sublist [source] := by
  induction destinations with
  | nil => simp
  | cons destination destinations induction =>
      obtain ⟨fresh, nodup⟩ := List.nodup_cons.mp nodup
      rw [List.map_cons, List.filterMap_cons]
      by_cases here : destination.block = label
      · have none : ((destinations.map (Passage.mk source)).filterMap
            (carried operands label index)) = [] := by
          rw [List.filterMap_eq_nil_iff]
          intro passage member
          obtain ⟨other, inside, rfl⟩ := List.mem_map.mp member
          refine if_neg fun there => fresh ?_
          rw [here, ← there]
          exact List.mem_map_of_mem inside
        rw [none, carried, if_pos here]
        cases destination.arguments[index]?.bind fun argument => operands.lookup argument <;> simp
      · rw [carried, if_neg here]
        exact induction nodup

theorem carried_nodup (lowered : function.Lowered entry) :
    (((function.reversePostorder.flatMap (passages function)).filterMap
      (carried operands label index)).map Prod.snd).Nodup := by
  obtain ⟨nodup, same, _⟩ := lowered.order
  refine List.Nodup.sublist ?_ nodup
  have placed : function.reversePostorder ⊆ function.layout := fun label => (same label).mp
  generalize function.reversePostorder = order at placed
  induction order with
  | nil => simp
  | cons source others induction =>
      rw [List.cons_subset] at placed
      rw [List.flatMap_cons, List.filterMap_append, List.map_append, passages_eq]
      exact (sources_sublist source (lowered.exits_nodup placed.1)).append (induction placed.2)

end Function

/-! ## Functions of a module -/

structure RendersFunction (body : Ssa.Function) (entry : Label) (progress : Progress)
    (function : Function) : Prop where
  lowered : body.Lowered entry
  folded : body.reversePostorder.foldlM (addBlock body) ⟨parameterOperands body, []⟩ =
    .ok progress
  covers : progress.Covers body body.reversePostorder
  blocks : List.Forall₂ (RendersBlock body progress.operands) body.layout function.blocks
  parameters : function.parameters =
    (body.block entry).parameters.map fun value => ⟨.word, some value⟩
  width : function.width = .word

theorem zipIdx_parameters {types : List Ssa.MachineType} (words : ∀ type ∈ types, type = .i64)
    {values : List Value} (same : values.length = types.length) :
    ((types.map fun type => Parameter.mk (.ofMachineType type) none).zipIdx.map
      fun (parameter, index) => { parameter with value := values[index]? }) =
      values.map fun value => ⟨.word, some value⟩ := by
  refine List.ext_getElem (by simp [same]) fun index inside insideThen => ?_
  have bound : index < types.length := by simpa using inside
  have here : index < values.length := by rw [same]; exact bound
  simp [words _ (List.getElem_mem bound), here]

/-- A function with a lowered body can be written. -/
theorem functionOfSsa_eq_ok {declaration : Ssa.Declaration} {body : Ssa.Function} {entry : Label}
    (lowered : body.Lowered entry) (same : declaration.prototype = body.prototype)
    (words : ∀ type ∈ declaration.prototype.parameters, type = .i64)
    (results : declaration.prototype.results = [.i64]) :
    ∃ progress function, functionOfSsa declaration body = .ok function ∧
      function.name = declaration.name ∧
      function.parameters.length = declaration.prototype.parameters.length ∧
      RendersFunction body entry progress function := by
  obtain ⟨progress, blocks, folded, written, renders, covers⟩ := blocksOfSsa_eq_ok lowered
  refine ⟨progress, _, Ssa.bind_eq_ok.mpr ⟨blocks, written, rfl⟩, rfl, ?_,
    ⟨lowered, folded, covers, renders, ?_, ?_⟩⟩
  · simp [declarationOfSsa]
  · have count :
        (body.block entry).parameters.length = declaration.prototype.parameters.length := by
      rw [same]
      exact lowered.verified.parameters.length_eq
    simp only [lowered.verified.first, Option.map_some, Option.getD_some, declarationOfSsa]
    exact zipIdx_parameters words count
  · simp [declarationOfSsa, Drafting.resultWidth, results]

/-- A function as it is written: it takes words and gives one; it is only declared if it is
imported, and it has its body otherwise. -/
structure RendersDeclaration (declaration : Ssa.Declaration) (function : Function) : Prop where
  named : function.name = declaration.name
  width : function.width = .word
  parameters : function.parameters.map Parameter.width =
    declaration.prototype.parameters.map fun _ => .word
  imported : declaration.linkage = .imported →
    declaration.body = none ∧ function = declarationOfSsa declaration
  defined : declaration.linkage ≠ .imported → ∃ body entry progress,
    declaration.body = some body ∧ RendersFunction body entry progress function

variable {definitions : List TypedDefinition} {compiler : Compiler}

theorem declaredOfSsa_eq_ok (regular : compiler.Regular definitions) {id : Ssa.FunctionId}
    {declaration : Ssa.Declaration} (found : compiler.module.declaration? id = some declaration) :
    ∃ function, declaredOfSsa declaration = .ok function ∧
      RendersDeclaration declaration function := by
  obtain ⟨words, results⟩ := regular.wordy id declaration found
  rw [declaredOfSsa]
  split
  · rename_i linked
    refine ⟨_, rfl, rfl, by simp [declarationOfSsa, Drafting.resultWidth, results], ?_,
      fun _ => ⟨(regular.whole id declaration found).mp linked, rfl⟩,
      fun defined => absurd linked defined⟩
    rw [declarationOfSsa, List.map_map]
    refine List.map_congr_left fun type member => ?_
    rw [words type member]
    rfl
  · rename_i linked
    cases known : declaration.body with
    | none => exact absurd ((regular.whole id declaration found).mpr known) linked
    | some body =>
        have origin := regular.origin id body (by rw [Ssa.Module.body?, found]; exact known)
        obtain ⟨other, foundThere, _, same⟩ := origin.declared
        cases found.symm.trans foundThere
        obtain ⟨progress, function, written, named, count, renders⟩ :=
          functionOfSsa_eq_ok origin.lowered same words results
        refine ⟨function, Ssa.mapError_eq_ok.mpr written, named, renders.width, ?_,
          fun imported => absurd imported linked, fun _ => ⟨body, _, progress, known, renders⟩⟩
        rw [renders.parameters, List.length_map] at count
        rw [renders.parameters, List.map_map, List.map_const', ← count, ← List.map_const']
        rfl

theorem ofSsa_eq_ok (regular : compiler.Regular definitions) (triple : String) :
    ∃ translated, Module.ofSsa compiler.module triple = .ok translated ∧
      List.Forall₂ RendersDeclaration compiler.module.declarations.toList translated.functions := by
  have known : ∀ declaration ∈ compiler.module.declarations.toList,
      ∃ id, compiler.module.declaration? id = some declaration := by
    intro declaration member
    obtain ⟨index, inside, same⟩ := List.mem_iff_getElem.mp member
    exact ⟨⟨index⟩, Array.getElem?_eq_some_iff.mpr ⟨by simpa using inside, by simpa using same⟩⟩
  have single : (compiler.module.declarations.toList.find? fun declaration =>
      declaration.prototype.results.length ≠ 1) = none := by
    rw [List.find?_eq_none]
    intro declaration member
    obtain ⟨id, found⟩ := known declaration member
    simp [(regular.wordy id declaration found).2]
  obtain ⟨functions, written, all⟩ := exists_mapM_eq_ok declaredOfSsa fun declaration member => by
      obtain ⟨id, found⟩ := known declaration member
      exact (declaredOfSsa_eq_ok regular found).imp fun _ holds => holds.1
  refine ⟨⟨compiler.module.name, triple, functions⟩, ?_, ?_⟩
  · rw [Module.ofSsa]
    simp only [single]
    exact Ssa.bind_eq_ok.mpr ⟨functions, written, rfl⟩
  · refine List.forall₂_iff_get.mpr ⟨all.length_eq, fun index inside insideThen => ?_⟩
    obtain ⟨id, found⟩ := known _ (List.get_mem _ ⟨index, inside⟩)
    obtain ⟨function, ran, renders⟩ := declaredOfSsa_eq_ok regular found
    rwa [Except.ok.inj ((all.get inside insideThen).symm.trans ran)]

end Llvm

end ExprLang
