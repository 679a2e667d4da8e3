import ExprLang.Ssa.Basic

/-!
# Functions of the LLVM language

The part of the language that programs need: integers of one and of sixty-four bits, arrays
on the stack, arithmetic, comparisons, memory, calls and branches. Where control from several
blocks meets, a phi takes a value for each of them.
-/

namespace ExprLang.Llvm

inductive Width where
  | bit
  | word
deriving DecidableEq, Repr

/-- The width of a machine type; only truth values are narrow. -/
def Width.ofMachineType (type : Ssa.MachineType) : Width :=
  if type = .i1 then bit else word

/-- What a result is called: by the number of a value, or by the place where it arises. -/
inductive Name where
  | value (number : Ssa.Value)
  | slot (number : Ssa.Slot)
  | temporary (block : Ssa.Label) (index : Nat)
deriving DecidableEq, Repr

/-- Whether a result has a name of its own; the others are numbered. -/
def Name.isGiven : Name → Bool
  | value _ => true
  | _ => false

inductive Operand where
  | constant (width : Width) (value : Int64)
  | result (name : Name) (width : Width)
deriving DecidableEq, Repr

def Operand.width : Operand → Width
  | constant width _ => width
  | result _ width => width

/-- An instruction. Pointers lead to words and are written by name. -/
inductive Instruction where
  | allocate (words : Nat)
  | slotAddress (slot : Ssa.Slot) (words : Nat)
  | pointer (address : Operand)
  | arithmetic (operation : Arithmetic) (left right : Operand)
  | compare (condition : Ssa.Condition) (left right : Operand)
  | signExtend (operand : Operand) (width : Width)
  | load (width : Width) (place : Name)
  | store (value : Operand) (place : Name)
  | call (width : Width) (function : String) (arguments : List Operand)
deriving DecidableEq, Repr

structure Assignment where
  name : Option Name
  instruction : Instruction
deriving DecidableEq, Repr

inductive Terminator where
  | branch (condition : Operand) (onTrue onFalse : Ssa.Label)
  | jump (target : Ssa.Label)
  | ret (value : Operand)
deriving DecidableEq, Repr

def Terminator.successors : Terminator → List Ssa.Label
  | branch _ onTrue onFalse => [onTrue, onFalse]
  | jump target => [target]
  | ret _ => []

structure Phi where
  value : Ssa.Value
  width : Width
  incoming : List (Operand × Ssa.Label)
deriving DecidableEq, Repr

structure Block where
  label : Ssa.Label
  phis : List Phi
  assignments : List Assignment
  terminator : Option Terminator
deriving DecidableEq, Repr

structure Parameter where
  width : Width
  value : Option Ssa.Value
deriving DecidableEq, Repr

/-- A function; one without blocks is only declared. -/
structure Function where
  name : String
  isInternal : Bool
  width : Width
  parameters : List Parameter
  blocks : List Block
deriving DecidableEq, Repr

structure Module where
  name : String
  triple : String
  functions : List Function
deriving DecidableEq, Repr

end ExprLang.Llvm
