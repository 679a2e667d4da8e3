import ExprLang.Llvm.Basic

/-!
# What the LLVM language demands

Rules for functions in which words are computed with. Truth values arise from comparisons only, and
they are only extended to words or decide branches; everything else is a word, a pointer to a word
or an array of words.
-/

namespace ExprLang.Llvm

open Ssa (Label)

inductive Kind where
  | integer (width : Width)
  | array (words : Nat)
  | pointer
deriving DecidableEq, Repr

def Instruction.kind? : Instruction → Option Kind
  | allocate words => some (.array words)
  | slotAddress _ _ => some (.integer .word)
  | pointer _ => some .pointer
  | arithmetic _ left _ => some (.integer left.width)
  | compare _ _ _ => some (.integer .bit)
  | signExtend _ width => some (.integer width)
  | load width _ => some (.integer width)
  | store _ _ => none
  | call width _ _ => some (.integer width)

/-- Where a name gets its value: by a parameter of the function, a phi of a block or an instruction
of a block. -/
inductive Site where
  | parameter (index : Nat)
  | phi (label : Label) (index : Nat)
  | result (label : Label) (index : Nat)
deriving DecidableEq, Repr

def Block.successors (block : Block) : List Label :=
  (block.terminator.map Terminator.successors).getD []

namespace Function

variable (function : Function)

def predecessors (label : Label) : List Label :=
  (function.blocks.filter fun block => label ∈ block.successors).map Block.label

inductive Trail : List Label → Prop
  | entry {block : Block} (first : function.blocks.head? = some block) : Trail [block.label]
  | next {block : Block} {target : Label} {earlier : List Label} (member : block ∈ function.blocks)
      (trail : Trail (block.label :: earlier)) (leads : target ∈ block.successors) :
      Trail (target :: block.label :: earlier)

def Dominates (first second : Label) : Prop :=
  ∀ earlier, function.Trail (second :: earlier) → first ∈ second :: earlier

/-- A name gets its value at a site. -/
inductive Defines : Name → Kind → Site → Prop
  | parameter {index : Nat} {parameter : Parameter} {value : Ssa.Value}
      (found : function.parameters[index]? = some parameter)
      (named : parameter.value = some value) :
      Defines (.value value) (.integer parameter.width) (.parameter index)
  | phi {block : Block} {index : Nat} {phi : Phi} (member : block ∈ function.blocks)
      (found : block.phis[index]? = some phi) :
      Defines (.value phi.value) (.integer phi.width) (.phi block.label index)
  | result {block : Block} {index : Nat} {name : Name} {instruction : Instruction} {kind : Kind}
      (member : block ∈ function.blocks)
      (found : block.assignments[index]? = some ⟨some name, instruction⟩)
      (gives : instruction.kind? = some kind) :
      Defines name kind (.result block.label index)

/-- A site is passed on every way to an instruction of a block, and before the instruction. -/
def Passes (label : Label) (index : Nat) : Site → Prop
  | .parameter _ => True
  | .phi other _ => function.Dominates other label
  | .result other earlier =>
    if other = label then earlier < index else function.Dominates other label

def Provides (label : Label) (index : Nat) (name : Name) (kind : Kind) : Prop :=
  ∃ site, function.Defines name kind site ∧ function.Passes label index site

inductive Takes (label : Label) (index : Nat) (width : Width) : Operand → Prop
  | constant {value : Int64} : Takes label index width (.constant width value)
  | result {name : Name} (provides : function.Provides label index name (.integer width)) :
      Takes label index width (.result name width)

/-- An instruction is allowed at some index of a block, in a module with some functions. -/
inductive Allows (functions : List Function) (label : Label) (index : Nat) : Instruction → Prop
  | allocate {words : Nat} : Allows functions label index (.allocate words)
  | slotAddress {slot : Ssa.Slot} {words : Nat}
      (array : function.Provides label index (.slot slot) (.array words)) :
      Allows functions label index (.slotAddress slot words)
  | pointer {address : Operand} (word : function.Takes label index .word address) :
      Allows functions label index (.pointer address)
  | arithmetic {operation : Arithmetic} {left right : Operand}
      (onLeft : function.Takes label index .word left)
      (onRight : function.Takes label index .word right) :
      Allows functions label index (.arithmetic operation left right)
  | compare {condition : Ssa.Condition} {left right : Operand}
      (onLeft : function.Takes label index .word left)
      (onRight : function.Takes label index .word right)
      (known : ∀ code, condition ≠ .other code) :
      Allows functions label index (.compare condition left right)
  | signExtend {operand : Operand} (narrow : function.Takes label index .bit operand) :
      Allows functions label index (.signExtend operand .word)
  | load {place : Name} (pointer : function.Provides label index place .pointer) :
      Allows functions label index (.load .word place)
  | store {value : Operand} {place : Name} (word : function.Takes label index .word value)
      (pointer : function.Provides label index place .pointer) :
      Allows functions label index (.store value place)
  | call {callee : Function} {arguments : List Operand} (member : callee ∈ functions)
      (gives : callee.width = .word)
      (wants : callee.parameters.map Parameter.width = arguments.map fun _ => .word)
      (words : ∀ argument ∈ arguments, function.Takes label index .word argument) :
      Allows functions label index (.call .word callee.name arguments)

inductive Closes (label : Label) (index : Nat) : Terminator → Prop
  | branch {condition : Operand} {onTrue onFalse : Label}
      (narrow : function.Takes label index .bit condition)
      (placedTrue : onTrue ∈ function.blocks.map Block.label)
      (placedFalse : onFalse ∈ function.blocks.map Block.label) :
      Closes label index (.branch condition onTrue onFalse)
  | jump {target : Label} (placed : target ∈ function.blocks.map Block.label) :
      Closes label index (.jump target)
  | ret {value : Operand} (wanted : function.width = .word)
      (word : function.Takes label index .word value) : Closes label index (.ret value)

/-- A phi takes one word from every predecessor of its block, and from no other block; the word has
a value at the end of the predecessor. -/
structure Joins (label : Label) (phi : Phi) : Prop where
  width : phi.width = .word
  sources : (phi.incoming.map Prod.snd).Perm (function.predecessors label)
  values : ∀ operand block, block ∈ function.blocks → (operand, block.label) ∈ phi.incoming →
    function.Takes block.label block.assignments.length .word operand

structure BlockFormed (functions : List Function) (block : Block) : Prop where
  phis : ∀ phi ∈ block.phis, function.Joins block.label phi
  assignments : ∀ index assignment, block.assignments[index]? = some assignment →
    function.Allows functions block.label index assignment.instruction ∧
      (assignment.name.isSome = true ↔ assignment.instruction.kind?.isSome = true)
  terminated : ∃ terminator, block.terminator = some terminator ∧
    function.Closes block.label block.assignments.length terminator

/-- A function is well formed in a module with some functions: no two blocks have the same label,
every name gets its value at one site, control cannot come back to the first block, and all blocks
are well formed. -/
structure WellFormed (functions : List Function) : Prop where
  labels : (function.blocks.map Block.label).Nodup
  single : ∀ name kind other site place, function.Defines name kind site →
    function.Defines name other place → kind = other ∧ site = place
  entry : ∀ block, function.blocks.head? = some block →
    function.predecessors block.label = [] ∧ block.phis = []
  blocks : ∀ block ∈ function.blocks, function.BlockFormed functions block

end Function

/-- No two functions of a module have the same name, and all are well formed. -/
structure Module.WellFormed (module : Module) : Prop where
  names : (module.functions.map Function.name).Nodup
  functions : ∀ function ∈ module.functions, function.WellFormed module.functions

end ExprLang.Llvm
