import ExprLang.Proofs.Llvm.Writing
import ExprLang.Proofs.Llvm.Validity

/-!
# What is written has values

In the code that is written for a lowered function every operand has a value of the right kind
wherever it is used. Main statement: every block of the written function is well formed.
-/

namespace ExprLang

/-! ## Where code stands

Every instruction of a block takes up a known number of assignments, so the place of its code is
known.
-/

namespace Ssa

def Instruction.span (instruction : Instruction) : Nat :=
  match instruction.operation with
  | .arithmetic _ _ _ | .compare _ _ _ | .signExtend _ _ | .slotAddress _ _ _ | .call _ _ => 1
  | .load _ _ _ => 2
  | .slotStore _ _ offset => if offset = 0 then 3 else 4
  | _ => 0

def extent (instructions : List Instruction) : Nat :=
  (instructions.map Instruction.span).sum

@[simp] theorem extent_nil : extent [] = 0 := rfl

@[simp] theorem extent_cons (instruction : Instruction) (instructions : List Instruction) :
    extent (instruction :: instructions) = instruction.span + extent instructions := by
  simp [extent]

theorem extent_append (first second : List Instruction) :
    extent (first ++ second) = extent first + extent second := by
  simp [extent]

end Ssa

namespace Llvm

open Ssa (Value Label extent extent_cons)

variable {function : Ssa.Function} {operands : Operands} {label : Label} {count : Nat}
  {instructions : List Ssa.Instruction} {written : List Assignment} {terminator : Terminator}

theorem Renders.length_eq {instruction : Ssa.Instruction}
    (renders : Renders function operands label count instruction written) :
    written.length = instruction.span := by
  cases renders with
  | slotStore _ _ behind => simp [Ssa.Instruction.span, behind]
  | _ => rfl

namespace RendersAll

theorem split (renders : RendersAll function operands label count instructions written terminator)
    {front rest : List Ssa.Instruction} {instruction : Ssa.Instruction}
    (place : instructions = front ++ instruction :: rest) (more : rest ≠ []) :
    ∃ before here behind, written = before ++ (here ++ behind) ∧ before.length = extent front ∧
      Renders function operands label (count + extent front) instruction here := by
  induction renders generalizing front with
  | close closes =>
      have length := congrArg List.length place
      have some := List.length_pos_of_ne_nil more
      simp only [List.length_append, List.length_cons, List.length_nil] at length
      omega
  | @cons count head others here behind terminator first_renders _ induction =>
      obtain _ | ⟨other, front⟩ := front
      · cases place
        exact ⟨[], here, behind, rfl, rfl, first_renders⟩
      · cases place
        obtain ⟨before, own, after, rfl, length, renders⟩ := induction rfl
        refine ⟨here ++ before, own, after, by simp, ?_, ?_⟩
        · rw [List.length_append, length, extent_cons, ← first_renders.length_eq]
        · rw [extent_cons, ← Nat.add_assoc, ← first_renders.length_eq]
          exact renders

theorem split_last
    (renders : RendersAll function operands label count instructions written terminator) :
    ∃ front last before here, instructions = front ++ [last] ∧ written = before ++ here ∧
      before.length = extent front ∧
      Closes operands label (count + extent front) last here terminator := by
  induction renders with
  | @close count instruction written terminator closes =>
      exact ⟨[], instruction, [], written, rfl, rfl, rfl, closes⟩
  | @cons count head others here behind terminator renders _ induction =>
      obtain ⟨front, last, before, own, rfl, rfl, length, closes⟩ := induction
      refine ⟨head :: front, last, here ++ before, own, rfl, by simp, ?_, ?_⟩
      · rw [List.length_append, length, extent_cons, renders.length_eq]
      · rw [extent_cons, ← Nat.add_assoc, ← renders.length_eq]
        exact closes

/-- Every assignment belongs to the code of an instruction. -/
theorem origin (renders : RendersAll function operands label count instructions written terminator)
    {index : Nat} (inside : index < written.length) :
    ∃ front instruction rest before here behind, instructions = front ++ instruction :: rest ∧
      written = before ++ (here ++ behind) ∧ before.length = extent front ∧
      before.length ≤ index ∧ index < before.length + here.length ∧
      (Renders function operands label (count + extent front) instruction here ∨
        rest = [] ∧ Closes operands label (count + extent front) instruction here terminator) := by
  induction renders generalizing index with
  | @close count instruction written terminator closes =>
      exact ⟨[], instruction, [], [], written, [], rfl, by simp, rfl, Nat.zero_le _, by simpa,
        .inr ⟨rfl, closes⟩⟩
  | @cons count head others here more terminator renders _ induction =>
      by_cases own : index < here.length
      · exact ⟨[], head, others, [], here, more, rfl, rfl, rfl, Nat.zero_le _, by simpa,
          .inl renders⟩
      · rw [List.length_append] at inside
        obtain ⟨front, instruction, rest, before, code, behind, rfl, rfl, length, low, high,
          comes⟩ :=
          @induction (index - here.length) (by omega)
        refine ⟨head :: front, instruction, rest, here ++ before, code, behind, rfl, by simp, ?_,
          ?_, ?_, ?_⟩
        · rw [List.length_append, length, extent_cons, ← renders.length_eq]
        · rw [List.length_append]
          omega
        · rw [List.length_append]
          omega
        · rw [extent_cons, ← Nat.add_assoc, ← renders.length_eq]
          exact comes

end RendersAll

end Llvm

open Ssa (Value Label extent)

/-! ## Where values come from -/

namespace Ssa.Function

variable {function : Ssa.Function} {entry label : Label}

theorem dominates_entry (first : function.entry? = some entry) (label : Label) :
    function.Dominates entry label := by
  intro earlier trail
  generalize label :: earlier = path at trail
  induction trail with
  | entry other same =>
      cases first.symm.trans same
      exact List.mem_cons_self
  | next _ _ _ _ _ induction => exact List.mem_cons_of_mem _ induction

/-- A value that is used is a parameter of a dominating block, a result of another dominating block
or a result of an instruction that comes before in the same block. -/
theorem Lowered.defined_before (lowered : function.Lowered entry)
    (placed : label ∈ function.layout) {front rest : List Instruction} {instruction : Instruction}
    (place : (function.block label).instructions = front ++ instruction :: rest) {value : Value}
    (used : value ∈ instruction.uses) :
    (∃ other ∈ function.layout, function.Dominates other label ∧
      value ∈ (function.block other).parameters) ∨
    (∃ other ∈ function.layout, other ≠ label ∧ function.Dominates other label ∧
      value ∈ (function.block other).instructions.flatMap Instruction.results) ∨
    value ∈ front.flatMap Instruction.results := by
  have single := lowered.dominated.single
  have found : (function.block label).instructions[front.length]? = some instruction := by
    rw [place]
    simp
  have available := lowered.dominated.available label _ instruction found value used
  obtain ⟨_, trail⟩ := lowered.dominated.reachable label placed
  obtain ⟨earlier, visit, fresh⟩ := trail.first_visit
  rcases available earlier visit with here | ⟨other, member, defined⟩
  · rcases List.mem_append.mp here with parameter | result
    · exact .inl ⟨label, placed, .refl function label, parameter⟩
    · rw [place, List.take_left] at result
      exact .inr (.inr result)
  · obtain ⟨_, before, split, shorter⟩ := visit.of_mem (List.mem_cons_of_mem label member)
    have different : other ≠ label := by
      rintro rfl
      exact fresh member
    have dominates : function.Dominates other label := by
      intro before trail
      rcases available before trail with here | ⟨passed, member, again⟩
      · exact absurd (single.label_eq defined
          ((function.block label).definedBefore_subset _ here)) different
      · rw [single.label_eq defined again]
        exact List.mem_cons_of_mem _ member
    have there := lowered.placed ⟨before, shorter⟩
    rcases List.mem_append.mp defined with parameter | result
    · exact .inl ⟨other, there, dominates, parameter⟩
    · exact .inr (.inl ⟨other, there, different, dominates, result⟩)

end Ssa.Function

namespace Llvm

/-! ## Blocks of a written function -/

namespace RendersFunction

variable {body : Ssa.Function} {entry label : Label} {progress : Progress} {function : Function}
  {block : Block} {index : Nat}

theorem map_label (renders : RendersFunction body entry progress function) :
    function.blocks.map Block.label = body.layout := by
  have all := renders.blocks
  generalize function.blocks = blocks at all
  generalize body.layout = layout at all
  induction all with
  | nil => rfl
  | cons first _ induction => rw [List.map_cons, first.labelled, induction]

theorem exists_block (renders : RendersFunction body entry progress function)
    (placed : label ∈ body.layout) :
    ∃ block ∈ function.blocks, RendersBlock body progress.operands label block := by
  obtain ⟨index, inside, rfl⟩ := List.mem_iff_getElem.mp placed
  have insideThen : index < function.blocks.length := by rwa [← renders.blocks.length_eq]
  exact ⟨_, List.getElem_mem insideThen, renders.blocks.get inside insideThen⟩

theorem of_mem (renders : RendersFunction body entry progress function)
    (member : block ∈ function.blocks) :
    block.label ∈ body.layout ∧ RendersBlock body progress.operands block.label block := by
  obtain ⟨index, inside, rfl⟩ := List.mem_iff_getElem.mp member
  have insideThen : index < body.layout.length := by rwa [renders.blocks.length_eq]
  have holds := renders.blocks.get insideThen inside
  simp only [List.get_eq_getElem] at holds
  have same := holds.labelled
  rw [← same] at holds
  exact ⟨by rw [same]; exact List.getElem_mem insideThen, holds⟩

theorem nodup (renders : RendersFunction body entry progress function) :
    (function.blocks.map Block.label).Nodup := by
  rw [renders.map_label]
  exact renders.lowered.dominated.nodup

theorem block_eq (renders : RendersFunction body entry progress function) {other : Block}
    (member : block ∈ function.blocks) (there : other ∈ function.blocks)
    (same : block.label = other.label) : block = other :=
  List.inj_on_of_nodup_map renders.nodup member there same

theorem head (renders : RendersFunction body entry progress function)
    (first : function.blocks.head? = some block) : block.label = entry := by
  have label := congrArg List.head? renders.map_label
  rw [List.head?_map, first] at label
  exact Option.some.inj (label.trans renders.lowered.verified.first)

theorem successors_eq (renders : RendersFunction body entry progress function)
    (member : block ∈ function.blocks) : block.successors = body.successors block.label := by
  obtain ⟨placed, written⟩ := renders.of_mem member
  obtain ⟨_, terminator, _, terminated, code⟩ := written.code
  obtain ⟨front, last, _, _, split, _, _, closes⟩ := code.split_last
  rw [Block.successors, terminated, Ssa.Function.successors, Ssa.Block.successors, split]
  simp only [List.getLast?_append, List.getLast?_singleton, Option.some_or]
  cases closes <;> rfl

theorem trail (renders : RendersFunction body entry progress function) {path : List Label}
    (trail : function.Trail path) : body.Trail path := by
  induction trail with
  | entry first =>
      rw [renders.head first]
      exact .entry entry renders.lowered.verified.first
  | next member _ leads induction =>
      rw [renders.successors_eq member] at leads
      exact .next _ _ _ induction leads

theorem dominates (renders : RendersFunction body entry progress function) {first second : Label}
    (dominates : body.Dominates first second) : function.Dominates first second :=
  fun earlier walked => dominates earlier (renders.trail walked)

theorem predecessors_nodup (renders : RendersFunction body entry progress function)
    (label : Label) : (function.predecessors label).Nodup :=
  (renders.nodup.sublist ((List.filter_sublist).map _))

theorem mem_predecessors (renders : RendersFunction body entry progress function)
    {source : Label} :
    source ∈ function.predecessors label ↔
      source ∈ body.layout ∧ ∃ destination ∈ body.exits source, destination.block = label := by
  rw [Function.predecessors, List.mem_map]
  constructor
  · rintro ⟨block, member, rfl⟩
    obtain ⟨listed, leads⟩ := List.mem_filter.mp member
    have placed := (renders.of_mem listed).1
    rw [decide_eq_true_eq, renders.successors_eq listed,
      ← renders.lowered.exits_map_block placed] at leads
    obtain ⟨destination, exit, same⟩ := List.mem_map.mp leads
    exact ⟨placed, destination, exit, same⟩
  · rintro ⟨placed, destination, exit, rfl⟩
    obtain ⟨block, member, written⟩ := renders.exists_block placed
    cases written.labelled
    refine ⟨block, List.mem_filter.mpr ⟨member, ?_⟩, rfl⟩
    rw [decide_eq_true_eq, renders.successors_eq member, ← renders.lowered.exits_map_block placed]
    exact List.mem_map_of_mem exit

end RendersFunction

/-! ## Operands have values -/

/-- The code of an instruction defines the operands of its results. -/
theorem Renders.gives {function : Ssa.Function} {operands : Operands} {label : Label} {count : Nat}
    {instruction : Ssa.Instruction} {written : List Assignment}
    (renders : Renders function operands label count instruction written)
    (idiomatic : instruction.Idiomatic function) (typed : operands.Typed function) {value : Value}
    (result : value ∈ instruction.results) {name : Name} {width : Width}
    (found : operands.lookup value = some (.result name width)) :
    ∃ offset code, offset < written.length ∧ written[offset]? = some ⟨some name, code⟩ ∧
      code.kind? = some (.integer width) := by
  obtain ⟨types, proper, _⟩ := idiomatic
  cases renders with
  | constant given =>
      cases List.mem_singleton.mp result
      cases found.symm.trans given
  | arithmetic onLeft onRight given =>
      cases List.mem_singleton.mp result
      cases found.symm.trans given
      cases proper with
      | arithmetic wordLeft _ =>
          refine ⟨0, _, Nat.zero_lt_one, rfl, ?_⟩
          rw [Instruction.kind?, typed.width onLeft wordLeft]
          rfl
  | compare _ _ given =>
      cases List.mem_singleton.mp result
      cases found.symm.trans given
      exact ⟨0, _, Nat.zero_lt_one, rfl, rfl⟩
  | signExtend _ given =>
      cases List.mem_singleton.mp result
      cases found.symm.trans given
      exact ⟨0, _, Nat.zero_lt_one, rfl, rfl⟩
  | load _ given =>
      cases List.mem_singleton.mp result
      cases found.symm.trans given
      exact ⟨1, _, Nat.one_lt_two, rfl, rfl⟩
  | slotAddress _ given =>
      cases List.mem_singleton.mp result
      cases found.symm.trans given
      exact ⟨0, _, Nat.zero_lt_one, rfl, rfl⟩
  | slotStart | slotStore => cases result
  | call _ _ given =>
      cases List.mem_singleton.mp result
      cases found.symm.trans given
      exact ⟨0, _, Nat.zero_lt_one, rfl, rfl⟩

namespace RendersFunction

variable {body : Ssa.Function} {entry label : Label} {progress : Progress} {function : Function}
  {block : Block} {index : Nat}

theorem provides_of_lt (member : block ∈ function.blocks) {place : Nat} {name : Name}
    {instruction : Instruction} {kind : Kind}
    (found : block.assignments[place]? = some ⟨some name, instruction⟩)
    (gives : instruction.kind? = some kind) (earlier : place < index) :
    function.Provides block.label index name kind :=
  ⟨_, .result member found gives, by simp [Function.Passes, earlier]⟩

theorem provides_parameter (renders : RendersFunction body entry progress function)
    {other : Label} (placed : other ∈ body.layout) {value : Value}
    (parameter : value ∈ (body.block other).parameters) (dominates : body.Dominates other label) :
    function.Provides label index (.value value) (.integer .word) := by
  obtain ⟨place, found⟩ := List.mem_iff_getElem?.mp parameter
  by_cases start : other = entry
  · subst start
    have declared : function.parameters[place]? = some ⟨.word, some value⟩ := by
      rw [renders.parameters, List.getElem?_map, found]
      rfl
    exact ⟨_, .parameter declared rfl, trivial⟩
  · obtain ⟨block, member, written⟩ := renders.exists_block placed
    have values := written.values
    rw [renders.lowered.verified.first, if_neg fun same => start (Option.some.inj same).symm]
      at values
    rw [← values, List.getElem?_map, Option.map_eq_some_iff] at found
    obtain ⟨phi, listed, rfl⟩ := found
    have site := Function.Defines.phi member listed
    rw [written.widths phi (List.mem_of_getElem? listed), Ssa.Function.type,
      renders.lowered.idiomatic.parameters other _ parameter] at site
    refine ⟨_, site, ?_⟩
    rw [written.labelled]
    exact renders.dominates dominates

/-- A result of an instruction that comes before is there. -/
theorem provides_result (renders : RendersFunction body entry progress function)
    {other : Label} (placed : other ∈ body.layout) {front rest : List Ssa.Instruction}
    {instruction : Ssa.Instruction}
    (split : (body.block other).instructions = front ++ instruction :: rest) {value : Value}
    (result : value ∈ instruction.results) {name : Name} {width : Width}
    (found : progress.operands.lookup value = some (.result name width))
    (passed : if other = label then
        (reserved body other).length + extent front + instruction.span ≤ index
      else body.Dominates other label) :
    function.Provides label index name (.integer width) := by
  have member : instruction ∈ (body.block other).instructions := by
    rw [split]
    simp
  have idiomatic := renders.lowered.idiomatic.instructions other instruction member
  have more : rest ≠ [] := by
    rintro rfl
    have terminated := (renders.lowered.verified.blocks other placed).terminated
    rw [Ssa.Block.isTerminated, split] at terminated
    simp only [List.getLast?_append, List.getLast?_singleton, Option.some_or] at terminated
    rw [Drafting.results_of_ends idiomatic terminated] at result
    cases result
  obtain ⟨block, listed, written⟩ := renders.exists_block placed
  obtain ⟨code, terminator, assignments, _, whole⟩ := written.code
  obtain ⟨before, here, behind, rfl, length, rendered⟩ := whole.split split more
  obtain ⟨offset, last, inside, same, gives⟩ :=
    rendered.gives idiomatic renders.covers.typed result found
  have place : block.assignments[(reserved body other).length + (before.length + offset)]? =
      some ⟨some name, last⟩ := by
    rw [assignments, List.getElem?_append_right (Nat.le_add_right _ _), Nat.add_sub_cancel_left,
      List.getElem?_append_right (Nat.le_add_right _ _), Nat.add_sub_cancel_left,
      List.getElem?_append_left inside, same]
  refine ⟨_, .result listed place gives, ?_⟩
  rw [Function.Passes, written.labelled]
  rw [rendered.length_eq] at inside
  split at passed
  · rw [if_pos ‹_›]
    omega
  · rw [if_neg ‹_›]
    exact renders.dominates passed

/-- An operand has a value wherever an instruction uses the value that it stands for. -/
theorem takes (renders : RendersFunction body entry progress function)
    (placed : label ∈ body.layout) {front rest : List Ssa.Instruction}
    {instruction : Ssa.Instruction}
    (split : (body.block label).instructions = front ++ instruction :: rest) {value : Value}
    (used : value ∈ instruction.uses) {operand : Operand}
    (found : progress.operands.lookup value = some operand) {type : Ssa.MachineType}
    (typed : body.type? value = some type)
    (behind : (reserved body label).length + extent front ≤ index) :
    function.Takes label index (.ofMachineType type) operand := by
  have width := renders.covers.typed.width found typed
  cases operand with
  | constant wide word =>
      cases width
      exact .constant
  | result name wide =>
      cases width
      refine .result ?_
      rcases renders.lowered.defined_before placed split used with
        ⟨other, there, dominates, parameter⟩ | ⟨other, there, different, dominates, result⟩ | result
      · obtain ⟨operand, known⟩ := parameterOperands_knows.mpr ⟨other, there, parameter⟩
        have same := found.symm.trans (renders.covers.parameters _ _ known)
        rw [(lookup_parameterOperands known).1, Option.some_inj, Operand.result.injEq] at same
        obtain ⟨rfl, _⟩ := same
        cases typed.symm.trans (renders.lowered.idiomatic.parameters other value parameter)
        exact renders.provides_parameter there parameter dominates
      · obtain ⟨source, member, inside⟩ := List.mem_flatMap.mp result
        obtain ⟨before, after, place⟩ := List.append_of_mem member
        refine renders.provides_result there place inside found ?_
        rw [if_neg different]
        exact dominates
      · obtain ⟨source, member, inside⟩ := List.mem_flatMap.mp result
        obtain ⟨before, after, rfl⟩ := List.append_of_mem member
        rw [List.append_assoc] at split
        refine renders.provides_result placed split inside found ?_
        rw [if_pos rfl]
        rw [Ssa.extent_append, Ssa.extent_cons] at behind
        omega

theorem reserved_entry (renders : RendersFunction body entry progress function) :
    reserved body entry = reservations body := by
  rw [reserved, if_pos renders.lowered.verified.first]

theorem getElem?_reservations {body : Ssa.Function} {index : Nat} :
    (reservations body)[index]? = body.slots[index]?.map fun size =>
      ⟨some (.slot ⟨index⟩), .allocate (Drafting.slotWords size)⟩ := by
  rw [reservations, List.getElem?_map, List.getElem?_zipIdx, Option.map_map, Nat.zero_add,
    Array.getElem?_toList]
  rfl

theorem provides_slot (renders : RendersFunction body entry progress function) {slot : Ssa.Slot}
    {size : UInt32} (found : body.slots[slot.index]? = some size)
    (behind : (reserved body label).length ≤ index) :
    function.Provides label index (.slot slot) (.array (Drafting.slotWords size)) := by
  have first := renders.lowered.verified.first
  obtain ⟨block, member, written⟩ := renders.exists_block (List.mem_of_mem_head? first)
  obtain ⟨code, _, assignments, _, _⟩ := written.code
  have listed : (reserved body entry)[slot.index]? =
      some ⟨some (.slot slot), .allocate (Drafting.slotWords size)⟩ := by
    rw [renders.reserved_entry, getElem?_reservations, found]
    rfl
  obtain ⟨inside, _⟩ := List.getElem?_eq_some_iff.mp listed
  rw [← @List.getElem?_append_left _ _ code _ inside, ← assignments] at listed
  refine ⟨_, .result member listed rfl, ?_⟩
  rw [Function.Passes, written.labelled]
  split
  · rename_i same
    cases same
    exact inside.trans_le behind
  · exact renders.dominates (Ssa.Function.dominates_entry first label)

end RendersFunction

/-! ## Instructions are allowed -/

section Allowed

variable {body : Ssa.Function} {operands : Operands} {function : Function}
  {functions : List Function} {block : Block} {count : Nat} {instruction : Ssa.Instruction}
  {written : List Assignment}

def Reads (body : Ssa.Function) (operands : Operands) (function : Function) (label : Label)
    (count : Nat) (value : Value) : Prop :=
  ∀ operand type index, operands.lookup value = some operand → body.type? value = some type →
    count ≤ index → function.Takes label index (.ofMachineType type) operand

/-- An assignment is allowed, and it has a name exactly if it gives something. -/
def Fitting (functions : List Function) (function : Function) (label : Label) (index : Nat)
    (assignment : Assignment) : Prop :=
  function.Allows functions label index assignment.instruction ∧
    (assignment.name.isSome = true ↔ assignment.instruction.kind?.isSome = true)

theorem Renders.allows (renders : Renders body operands block.label count instruction written)
    (member : block ∈ function.blocks) (idiomatic : instruction.Idiomatic body)
    (inside : ∀ offset assignment, written[offset]? = some assignment →
      block.assignments[count + offset]? = some assignment)
    (reads : ∀ value ∈ instruction.operation.operands,
      Reads body operands function block.label count value)
    (slots : ∀ (slot : Ssa.Slot) size, body.slots[slot.index]? = some size →
      ∀ index, count ≤ index →
      function.Provides block.label index (.slot slot) (.array (Drafting.slotWords size)))
    (callees : ∀ external ∈ body.references, ∃ callee ∈ functions, callee.name = external.name ∧
      callee.width = .word ∧
      callee.parameters.map Parameter.width = external.prototype.parameters.map fun _ => .word)
    {offset : Nat} {assignment : Assignment} (found : written[offset]? = some assignment) :
    Fitting functions function block.label (count + offset) assignment := by
  obtain ⟨types, proper, _⟩ := idiomatic
  have provides : ∀ place name code kind, written[place]? = some ⟨some name, code⟩ →
      code.kind? = some kind → place < offset →
        function.Provides block.label (count + offset) name kind :=
    fun place name code kind listed gives earlier =>
      RendersFunction.provides_of_lt member (inside place _ listed) gives
        (Nat.add_lt_add_left earlier count)
  cases renders with
  | constant => cases found
  | arithmetic onLeft onRight =>
      cases proper with
      | arithmetic wordLeft wordRight =>
          obtain _ | offset := offset <;> cases found
          have left := reads _ (by simp [Ssa.Operation.operands]) _ _ _ onLeft wordLeft le_rfl
          have right := reads _ (by simp [Ssa.Operation.operands]) _ _ _ onRight wordRight le_rfl
          exact ⟨.arithmetic left right, by simp [Instruction.kind?]⟩
  | @compare result left right relation first second stray onLeft onRight =>
      have meaningful : ∀ code, Lowering.condition relation ≠ .other code := by
        cases relation <;> simp [Lowering.condition]
      generalize Lowering.condition relation = condition at *
      cases proper with
      | compare wordLeft wordRight =>
          obtain _ | offset := offset <;> cases found
          have left := reads _ (by simp [Ssa.Operation.operands]) _ _ _ onLeft wordLeft le_rfl
          have right := reads _ (by simp [Ssa.Operation.operands]) _ _ _ onRight wordRight le_rfl
          exact ⟨.compare left right meaningful, by simp [Instruction.kind?]⟩
  | signExtend read =>
      cases proper with
      | signExtend narrow =>
          obtain _ | offset := offset <;> cases found
          have operand := reads _ (by simp [Ssa.Operation.operands]) _ _ _ read narrow le_rfl
          exact ⟨.signExtend operand, by simp [Instruction.kind?]⟩
  | load read =>
      cases proper with
      | load word =>
          obtain _ | _ | offset := offset <;> cases found
          · have address := reads _ (by simp [Ssa.Operation.operands]) _ _ _ read word le_rfl
            exact ⟨.pointer address, by simp [Instruction.kind?]⟩
          · exact ⟨.load (provides 0 _ _ _ rfl rfl Nat.zero_lt_one), by simp [Instruction.kind?]⟩
  | slotAddress known =>
      obtain _ | offset := offset <;> cases found
      exact ⟨.slotAddress (slots _ _ known _ le_rfl), by simp [Instruction.kind?]⟩
  | slotStart read known =>
      generalize place : Ssa.Operation.slotStore _ _ _ = operation at proper
      cases proper with
      | slotStore word =>
          rw [Ssa.Operation.slotStore.injEq] at place
          obtain ⟨rfl, rfl, _⟩ := place
          obtain _ | _ | _ | offset := offset <;> cases found
          · exact ⟨.slotAddress (slots _ _ known _ le_rfl), by simp [Instruction.kind?]⟩
          · exact ⟨.pointer (.result (provides 0 _ _ _ rfl rfl (by omega))),
              by simp [Instruction.kind?]⟩
          · have value := reads _ (by simp [Ssa.Operation.operands]) _ _ (count + 2) read word
              (Nat.le_add_right _ _)
            exact ⟨.store value (provides 1 _ _ _ rfl rfl (by omega)), by simp [Instruction.kind?]⟩
      | _ => cases place
  | slotStore read known behind =>
      generalize place : Ssa.Operation.slotStore _ _ _ = operation at proper
      cases proper with
      | slotStore word =>
          cases place
          obtain _ | _ | _ | _ | offset := offset <;> cases found
          · exact ⟨.slotAddress (slots _ _ known _ le_rfl), by simp [Instruction.kind?]⟩
          · exact ⟨.arithmetic (.result (provides 0 _ _ _ rfl rfl (by omega))) .constant,
              by simp [Instruction.kind?]⟩
          · exact ⟨.pointer (.result (provides 1 _ _ _ rfl rfl (by omega))),
              by simp [Instruction.kind?]⟩
          · have value := reads _ (by simp [Ssa.Operation.operands]) _ _ (count + 3) read word
              (Nat.le_add_right _ _)
            exact ⟨.store value (provides 2 _ _ _ rfl rfl (by omega)), by simp [Instruction.kind?]⟩
      | _ => cases place
  | @call result reference arguments external inputs stray read known given =>
      cases proper with
      | @call _ _ target words here wanted _ =>
          cases known.symm.trans here
          obtain _ | offset := offset <;> cases found
          obtain ⟨callee, listed, named, width, parameters⟩ :=
            callees external (Array.mem_of_getElem? known)
          rw [wanted, List.map_map] at parameters
          have count_eq : (arguments.map fun _ => Width.word) = inputs.map fun _ => Width.word := by
            rw [List.map_const', List.map_const', read.length_eq]
          rw [← named]
          refine ⟨.call listed width (parameters.trans count_eq) fun input passed => ?_,
            by simp [Instruction.kind?]⟩
          obtain ⟨place, bound, rfl⟩ := List.mem_iff_getElem.mp passed
          have bound' : place < arguments.length := by rwa [read.length_eq]
          exact reads _ (List.getElem_mem bound') _ _ _ (read.get bound' bound)
            (words _ (List.getElem_mem bound')) le_rfl

/-- A word that decides a branch is compared before. -/
theorem Closes.allows {terminator : Terminator}
    (closes : Closes operands block.label count instruction written terminator)
    (idiomatic : instruction.Idiomatic body) (typed : operands.Typed body)
    (reads : ∀ value ∈ instruction.operation.operands,
      Reads body operands function block.label count value)
    {offset : Nat} {assignment : Assignment} (found : written[offset]? = some assignment) :
    Fitting functions function block.label (count + offset) assignment := by
  obtain ⟨types, proper, _⟩ := idiomatic
  cases closes with
  | test read wide =>
      cases proper with
      | branch typing _ _ =>
          have takes := reads _ (by simp [Ssa.Operation.operands]) _ _ count read typing le_rfl
          rw [← typed.width read typing, wide] at takes
          obtain _ | offset := offset <;> cases found
          exact ⟨.compare takes .constant (by simp), by simp [Instruction.kind?]⟩
  | _ => simp at found

theorem Closes.ends {terminator : Terminator}
    (closes : Closes operands block.label count instruction written terminator)
    (member : block ∈ function.blocks) (idiomatic : instruction.Idiomatic body)
    (typed : operands.Typed body)
    (inside : ∀ offset assignment, written[offset]? = some assignment →
      block.assignments[count + offset]? = some assignment)
    (reads : ∀ value ∈ instruction.operation.operands,
      Reads body operands function block.label count value)
    (placed : ∀ destination ∈ instruction.operation.destinations,
      destination.block ∈ function.blocks.map Block.label)
    (word : function.width = .word) {index : Nat} (behind : count + written.length ≤ index) :
    function.Closes block.label index terminator := by
  obtain ⟨types, proper, _⟩ := idiomatic
  cases closes with
  | @branch condition operand onTrue onFalse results stray read narrow =>
      cases proper with
      | branch typing _ _ =>
          have condition := reads _ (by simp [Ssa.Operation.operands]) _ _ index read typing behind
          rw [← typed.width read typing, narrow] at condition
          exact .branch condition (placed onTrue (by simp [Ssa.Operation.destinations]))
            (placed onFalse (by simp [Ssa.Operation.destinations]))
  | @test condition operand onTrue onFalse results stray read wide =>
      have result := RendersFunction.provides_of_lt member (inside 0 _ rfl) rfl
        (Nat.lt_of_succ_le behind)
      exact .branch (.result result) (placed onTrue (by simp [Ssa.Operation.destinations]))
        (placed onFalse (by simp [Ssa.Operation.destinations]))
  | @jump target results stray =>
      exact .jump (placed target (by simp [Ssa.Operation.destinations]))
  | ret read =>
      cases proper with
      | ret typing =>
          exact .ret word (reads _ (by simp [Ssa.Operation.operands]) _ _ index read typing behind)

end Allowed

namespace RendersFunction

variable {body : Ssa.Function} {entry label : Label} {progress : Progress} {function : Function}
  {functions : List Function} {block : Block} {index : Nat}

def Callable (body : Ssa.Function) (functions : List Function) : Prop :=
  ∀ external ∈ body.references, ∃ callee ∈ functions, callee.name = external.name ∧
    callee.width = .word ∧
    callee.parameters.map Parameter.width = external.prototype.parameters.map fun _ => .word

theorem reads (renders : RendersFunction body entry progress function)
    (placed : label ∈ body.layout) {front rest : List Ssa.Instruction}
    {instruction : Ssa.Instruction}
    (split : (body.block label).instructions = front ++ instruction :: rest) {value : Value}
    (operand : value ∈ instruction.operation.operands) :
    Reads body progress.operands function label ((reserved body label).length + extent front)
      value :=
  fun _ _ _ found typed behind =>
    renders.takes placed split (List.mem_append_left _ operand) found typed behind

theorem target_placed (renders : RendersFunction body entry progress function)
    (placed : label ∈ body.layout) {instruction : Ssa.Instruction}
    (member : instruction ∈ (body.block label).instructions) {destination : Ssa.Destination}
    (leads : destination ∈ instruction.operation.destinations) :
    destination.block ∈ function.blocks.map Block.label := by
  rw [renders.map_label]
  exact (renders.lowered.leads placed (List.mem_flatMap.mpr ⟨instruction, member, leads⟩)).placed

/-- An assignment reserves a slot, or it belongs to the code of an instruction. -/
theorem assignment_cases (renders : RendersFunction body entry progress function)
    (member : block ∈ function.blocks) {assignment : Assignment}
    (found : block.assignments[index]? = some assignment) :
    (block.label = entry ∧ ∃ words, assignment = ⟨some (.slot ⟨index⟩), .allocate words⟩) ∨
    ∃ front instruction rest here offset terminator,
      (body.block block.label).instructions = front ++ instruction :: rest ∧
      index = (reserved body block.label).length + extent front + offset ∧
      here[offset]? = some assignment ∧
      (∀ offset assignment, here[offset]? = some assignment →
        block.assignments[(reserved body block.label).length + extent front + offset]? =
          some assignment) ∧
      (Renders body progress.operands block.label
          ((reserved body block.label).length + extent front) instruction here ∨
        Closes progress.operands block.label ((reserved body block.label).length + extent front)
          instruction here terminator) := by
  obtain ⟨placed, written⟩ := renders.of_mem member
  obtain ⟨code, terminator, assignments, _, whole⟩ := written.code
  rw [assignments] at found
  by_cases early : index < (reserved body block.label).length
  · rw [List.getElem?_append_left early, reserved] at found
    split at found
    · rename_i first
      rw [getElem?_reservations, Option.map_eq_some_iff] at found
      obtain ⟨size, _, rfl⟩ := found
      exact .inl ⟨Option.some.inj (first.symm.trans renders.lowered.verified.first), _, rfl⟩
    · cases found
  · obtain ⟨late, rfl⟩ := Nat.exists_eq_add_of_le (Nat.not_lt.mp early)
    rw [List.getElem?_append_right (Nat.le_add_right _ _), Nat.add_sub_cancel_left] at found
    obtain ⟨inside, _⟩ := List.getElem?_eq_some_iff.mp found
    obtain ⟨front, instruction, rest, before, here, behind, split, rfl, length, low, high, comes⟩ :=
      whole.origin inside
    rw [List.getElem?_append_right low, List.getElem?_append_left (by omega)] at found
    refine .inr ⟨front, instruction, rest, here, late - before.length, terminator, split, by omega,
      found, fun offset assignment known => ?_, comes.imp_right And.right⟩
    obtain ⟨bound, _⟩ := List.getElem?_eq_some_iff.mp known
    rw [assignments, Nat.add_assoc, List.getElem?_append_right (Nat.le_add_right _ _),
      Nat.add_sub_cancel_left, ← length, List.getElem?_append_right (Nat.le_add_right _ _),
      Nat.add_sub_cancel_left, List.getElem?_append_left bound, known]

theorem fitting (renders : RendersFunction body entry progress function)
    (callable : Callable body functions) (member : block ∈ function.blocks)
    {assignment : Assignment} (found : block.assignments[index]? = some assignment) :
    Fitting functions function block.label index assignment := by
  obtain ⟨placed, written⟩ := renders.of_mem member
  obtain ⟨_, words, rfl⟩ |
    ⟨front, instruction, rest, here, offset, terminator, split, rfl, found, places, comes⟩ :=
    renders.assignment_cases member found
  · exact ⟨.allocate, by simp [Instruction.kind?]⟩
  · have listed : instruction ∈ (body.block block.label).instructions := by
      rw [split]
      simp
    have idiomatic := renders.lowered.idiomatic.instructions _ instruction listed
    rcases comes with rendered | closes
    · exact rendered.allows member idiomatic places
        (fun value operand => renders.reads placed split operand)
        (fun slot size known index behind =>
          renders.provides_slot known ((Nat.le_add_right _ _).trans behind)) callable found
    · exact closes.allows idiomatic renders.covers.typed
        (fun value operand => renders.reads placed split operand) found

theorem terminated (renders : RendersFunction body entry progress function)
    (member : block ∈ function.blocks) :
    ∃ terminator, block.terminator = some terminator ∧
      function.Closes block.label block.assignments.length terminator := by
  obtain ⟨placed, written⟩ := renders.of_mem member
  obtain ⟨code, terminator, assignments, ends, whole⟩ := written.code
  obtain ⟨front, last, before, here, split, rfl, length, closes⟩ := whole.split_last
  have listed : last ∈ (body.block block.label).instructions := by
    rw [split]
    simp
  refine ⟨terminator, ends, closes.ends member
    (renders.lowered.idiomatic.instructions _ last listed) renders.covers.typed
    (fun offset assignment known => ?_) (fun value operand => renders.reads placed split operand)
    (fun destination leads => renders.target_placed placed listed leads) renders.width ?_⟩
  · obtain ⟨bound, _⟩ := List.getElem?_eq_some_iff.mp known
    rw [assignments, Nat.add_assoc, List.getElem?_append_right (Nat.le_add_right _ _),
      Nat.add_sub_cancel_left, ← length, List.getElem?_append_right (Nat.le_add_right _ _),
      Nat.add_sub_cancel_left, known]
  · rw [assignments]
    simp only [List.length_append, length]
    omega

theorem extent_le (renders : RendersFunction body entry progress function)
    (member : block ∈ function.blocks) {front : List Ssa.Instruction} {last : Ssa.Instruction}
    (split : (body.block block.label).instructions = front ++ [last]) :
    (reserved body block.label).length + extent front ≤ block.assignments.length := by
  obtain ⟨_, written⟩ := renders.of_mem member
  obtain ⟨code, _, assignments, _, whole⟩ := written.code
  obtain ⟨other, final, before, here, same, rfl, length, _⟩ := whole.split_last
  obtain ⟨rfl, _⟩ := List.append_inj' (split.symm.trans same) rfl
  rw [assignments]
  simp only [List.length_append, length]
  omega

theorem joins (renders : RendersFunction body entry progress function)
    (member : block ∈ function.blocks) {phi : Phi} (listed : phi ∈ block.phis) :
    function.Joins block.label phi := by
  obtain ⟨placed, written⟩ := renders.of_mem member
  obtain ⟨place, found⟩ := List.mem_iff_getElem?.mp listed
  have incoming := written.incoming place phi found
  have parameter : (body.block block.label).parameters[place]? = some phi.value := by
    have values := written.values
    split at values
    · rw [List.map_eq_nil_iff.mp values] at listed
      cases listed
    · rw [← values, List.getElem?_map, found]
      rfl
  have word := renders.lowered.idiomatic.parameters _ _ (List.mem_of_getElem? parameter)
  refine ⟨?_, ?_, ?_⟩
  · rw [written.widths phi listed, Ssa.Function.type, word]
    rfl
  · have nodup : (phi.incoming.map Prod.snd).Nodup := by
      rw [incoming]
      exact carried_nodup renders.lowered
    rw [List.perm_ext_iff_of_nodup nodup (renders.predecessors_nodup _)]
    intro source
    rw [renders.mem_predecessors, List.mem_map, incoming]
    constructor
    · rintro ⟨⟨operand, other⟩, inside, rfl⟩
      obtain ⟨there, destination, exit, here, _⟩ := (mem_carried renders.lowered).mp inside
      exact ⟨there, destination, exit, here⟩
    · rintro ⟨there, destination, exit, here⟩
      have fits := (renders.lowered.leads there exit).fits.length_eq
      rw [here] at fits
      obtain ⟨bound, _⟩ := List.getElem?_eq_some_iff.mp parameter
      have passed := List.getElem?_eq_getElem (fits ▸ bound)
      obtain ⟨operand, known⟩ := renders.covers.knows_argument renders.lowered there exit
        (List.mem_of_getElem? passed)
      exact ⟨(operand, source), (mem_carried renders.lowered).mpr
        ⟨there, destination, exit, here, _, passed, known⟩, rfl⟩
  · intro operand source there inside
    rw [incoming, mem_carried renders.lowered] at inside
    obtain ⟨placedThere, destination, exit, here, argument, passed, known⟩ := inside
    obtain ⟨last, found, same⟩ := renders.lowered.exits_eq placedThere
    obtain ⟨front, split⟩ := List.getLast?_eq_some_iff.mp found
    have used : argument ∈ last.uses := by
      rw [same] at exit
      exact List.mem_append_right _ (List.mem_flatMap.mpr
        ⟨destination, List.mem_append_left _ exit, List.mem_of_getElem? passed⟩)
    have fits := (renders.lowered.leads placedThere exit).fits
    rw [here] at fits
    obtain ⟨bound, argumentEq⟩ := List.getElem?_eq_some_iff.mp passed
    obtain ⟨boundThen, parameterEq⟩ := List.getElem?_eq_some_iff.mp parameter
    obtain ⟨type, typed, typedThen⟩ := fits.get bound boundThen
    simp only [List.get_eq_getElem, argumentEq, parameterEq] at typed typedThen
    cases word.symm.trans typedThen
    exact renders.takes placedThere split used known typed (renders.extent_le there split)

theorem blockFormed (renders : RendersFunction body entry progress function)
    (callable : Callable body functions) (member : block ∈ function.blocks) :
    function.BlockFormed functions block where
  phis _ := renders.joins member
  assignments _ _ := renders.fitting callable member
  terminated := renders.terminated member

end RendersFunction

end Llvm

end ExprLang
