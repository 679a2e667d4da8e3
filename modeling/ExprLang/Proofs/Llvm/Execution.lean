import ExprLang.Llvm.Basic
import ExprLang.Ssa.Machine
import Mathlib

/-!
# How functions of the LLVM language run

What the instructions that work on integers mean. Arithmetic wraps, comparisons are signed, the
phis of a block are read at once when control enters it, and functions without blocks are supplied
by a host. Where the language leaves the behaviour open, a run has no result; memory is not looked
at.
-/

namespace ExprLang.Llvm

open Ssa (Label)

inductive Content where
  | bit (value : Bool)
  | word (value : Int64)
deriving DecidableEq, Repr

namespace Content

def width : Content → Width
  | bit _ => .bit
  | word _ => .word

def bit? : Content → Option Bool
  | bit value => some value
  | word _ => none

def word? : Content → Option Int64
  | bit _ => none
  | word value => some value

end Content

abbrev Contents := Name → Option Content

def Contents.set (contents : Contents) (name : Option Name) (content : Content) : Contents :=
  match name with
  | some name => Function.update contents name (some content)
  | none => contents

/-! ## Instructions -/

section Instructions

variable (contents : Contents)

def Operand.content? : Operand → Option Content
  | constant .bit value => some (.bit (value ≠ 0))
  | constant .word value => some (.word value)
  | result name width => (contents name).filter fun content => content.width = width

def Operand.word? (operand : Operand) : Option Int64 :=
  (operand.content? contents).bind Content.word?

/-- The result of an arithmetic operation. Divisions by zero are undefined, and so is the one whose
result is too large. -/
def calculate : Arithmetic → Int64 → Int64 → Option Int64
  | .add, left, right => some (left + right)
  | .subtract, left, right => some (left - right)
  | .multiply, left, right => some (left * right)
  | .divide, left, right =>
    if right = 0 ∨ left = Int64.minValue ∧ right = -1 then none else some (left / right)

def Instruction.content? : Instruction → Option Content
  | .arithmetic operation left right => do
    let left ← left.word? contents
    let right ← right.word? contents
    return .word (← calculate operation left right)
  | .compare condition left right => do
    let left ← left.word? contents
    let right ← right.word? contents
    return .bit (condition.holds left right)
  | .signExtend operand .word => do
    let value ← (← operand.content? contents).bit?
    return .word (if value then -1 else 0)
  | _ => none

def Phi.content? (source : Label) (phi : Phi) : Option (Name × Content) := do
  let (operand, _) ← phi.incoming.find? fun (_, label) => label = source
  return (.value phi.value, ← operand.content? contents)

/-- What names stand for when control has come from a block. All phis are read before one of them
gets something new. -/
def join (source : Label) (phis : List Phi) : Option Contents := do
  let joined ← phis.mapM (Phi.content? contents source)
  return fun name => (joined.lookup name).or (contents name)

end Instructions

/-! ## States -/

/-- An activation of a function: the block that control is in, what remains of it, and what names
stand for. -/
structure Activation where
  function : Function
  label : Label
  rest : List Assignment
  terminator : Terminator
  contents : Contents

/-- The functions of a module and those that a host supplies. -/
structure Environment (σ : Type) where
  module : Module
  host : Ssa.Host σ

/-- The state of a run. An activation that waits keeps the name that the result is for. -/
structure Machine (σ : Type) where
  current : Activation
  waiting : List (Activation × Option Name)
  host : σ

inductive Step (σ : Type) where
  | next (machine : Machine σ)
  | done (content : Content) (host : σ)
  | undefined

def Module.function? (module : Module) (name : String) : Option Function :=
  module.functions.find? fun function => function.name = name

def Function.block? (function : Function) (label : Label) : Option Block :=
  function.blocks.find? fun block => block.label = label

def Function.goTo (function : Function) (contents : Contents) (source target : Label) :
    Option Activation := do
  let block ← function.block? target
  let terminator ← block.terminator
  let contents ← join contents source block.phis
  return ⟨function, target, block.assignments, terminator, contents⟩

def parameterContents (parameters : List Parameter) (arguments : List Content) : Contents :=
  fun name => ((parameters.zip arguments).find? fun (parameter, _) =>
    parameter.value.map Name.value = some name).map Prod.snd

def Function.enter? (function : Function) (arguments : List Content) : Option Activation := do
  let block ← function.blocks.head?
  let terminator ← block.terminator
  if arguments.map Content.width = function.parameters.map Parameter.width then
    return ⟨function, block.label, block.assignments, terminator,
      parameterContents function.parameters arguments⟩
  else none

namespace Environment

variable (environment : Environment σ)

def ask (name : String) (arguments : List Content) (host : σ) : Option (Int64 × σ) := do
  let run ← environment.host name
  match run (← arguments.mapM Content.word?) host with
  | (.ok [word], host) => some (word, host)
  | _ => none

end Environment

namespace Machine

def step (environment : Environment σ) : Machine σ → Step σ
  | ⟨⟨function, label, ⟨name, .call _ callee operands⟩ :: rest, terminator, contents⟩,
      waiting, host⟩ =>
    match operands.mapM (Operand.content? contents), environment.module.function? callee with
    | some arguments, some called =>
      if called.blocks = [] then
        match environment.ask callee arguments host with
        | some (word, host) =>
          .next ⟨⟨function, label, rest, terminator, contents.set name (.word word)⟩,
            waiting, host⟩
        | none => .undefined
      else
        match called.enter? arguments with
        | some activation =>
          .next ⟨activation, (⟨function, label, rest, terminator, contents⟩, name) :: waiting,
            host⟩
        | none => .undefined
    | _, _ => .undefined
  | ⟨⟨function, label, ⟨name, instruction⟩ :: rest, terminator, contents⟩, waiting, host⟩ =>
    match instruction.content? contents with
    | some content =>
      .next ⟨⟨function, label, rest, terminator, contents.set name content⟩, waiting, host⟩
    | none => .undefined
  | ⟨⟨function, label, [], terminator, contents⟩, waiting, host⟩ =>
    match terminator with
    | .branch condition onTrue onFalse =>
      match (condition.content? contents).bind Content.bit? with
      | some value =>
        match function.goTo contents label (if value then onTrue else onFalse) with
        | some activation => .next ⟨activation, waiting, host⟩
        | none => .undefined
      | none => .undefined
    | .jump target =>
      match function.goTo contents label target with
      | some activation => .next ⟨activation, waiting, host⟩
      | none => .undefined
    | .ret operand =>
      match operand.content? contents with
      | some content =>
        match waiting with
        | [] => .done content host
        | (caller, name) :: waiting =>
          .next ⟨{ caller with contents := caller.contents.set name content }, waiting, host⟩
      | none => .undefined

def run (environment : Environment σ) : (fuel : Nat) → Machine σ → Option (Content × σ)
  | 0, _ => none
  | fuel + 1, machine =>
    match step environment machine with
    | .next later => later.run environment fuel
    | .done content host => some (content, host)
    | .undefined => none

end Machine

/-- Calls a function of the module. There is no answer if the fuel does not last or if the language
leaves the behaviour open. -/
def Environment.call (environment : Environment σ) (fuel : Nat) (name : String)
    (arguments : List Content) (host : σ) : Option (Content × σ) := do
  let function ← environment.module.function? name
  if function.blocks = [] then
    let (word, host) ← environment.ask name arguments host
    return (.word word, host)
  else
    let activation ← function.enter? arguments
    Machine.run environment fuel ⟨activation, [], host⟩

/-- One state comes after another. -/
def Machine.Reaches (environment : Environment σ) : Machine σ → Machine σ → Prop :=
  Relation.ReflTransGen fun machine later => machine.step environment = .next later

namespace Machine

variable {environment : Environment σ} {machine later : Machine σ}

/-! ## Steps -/

section Steps

variable {function called : Function} {label : Label} {name : Option Name} {callee : String}
  {width : Width} {operands : List Operand} {operand : Operand} {more : List Assignment}
  {terminator : Terminator} {contents : Contents} {arguments : List Content} {content : Content}
  {activation : Activation} {waiting : List (Activation × Option Name)} {host after : σ}

theorem step_assign {instruction : Instruction}
    (computed : instruction.content? contents = some content) :
    step environment
        ⟨⟨function, label, ⟨name, instruction⟩ :: more, terminator, contents⟩, waiting, host⟩ =
      .next ⟨⟨function, label, more, terminator, contents.set name content⟩, waiting, host⟩ := by
  cases instruction with
  | call => cases computed
  | _ => simp only [step, computed]

/-- A call of a function of the host. -/
theorem step_ask {word : Int64} (read : operands.mapM (Operand.content? contents) = some arguments)
    (found : environment.module.function? callee = some called) (empty : called.blocks = [])
    (asked : environment.ask callee arguments host = some (word, after)) :
    step environment ⟨⟨function, label, ⟨name, .call width callee operands⟩ :: more, terminator,
        contents⟩, waiting, host⟩ =
      .next ⟨⟨function, label, more, terminator, contents.set name (.word word)⟩, waiting,
        after⟩ := by
  simp only [step, read, found, if_pos empty, asked]

/-- A call of a function with a body. -/
theorem step_enter (read : operands.mapM (Operand.content? contents) = some arguments)
    (found : environment.module.function? callee = some called) (nonempty : called.blocks ≠ [])
    (entered : called.enter? arguments = some activation) :
    step environment ⟨⟨function, label, ⟨name, .call width callee operands⟩ :: more, terminator,
        contents⟩, waiting, host⟩ =
      .next ⟨activation, (⟨function, label, more, terminator, contents⟩, name) :: waiting,
        host⟩ := by
  simp only [step, read, found, if_neg nonempty, entered]

theorem step_branch {truth : Bool} {onTrue onFalse : Label}
    (tested : operand.content? contents = some (.bit truth))
    (went : function.goTo contents label (if truth then onTrue else onFalse) = some activation) :
    step environment
        ⟨⟨function, label, [], .branch operand onTrue onFalse, contents⟩, waiting, host⟩ =
      .next ⟨activation, waiting, host⟩ := by
  simp only [step, tested, Option.bind_some, Content.bit?, went]

theorem step_jump {target : Label} (went : function.goTo contents label target = some activation) :
    step environment ⟨⟨function, label, [], .jump target, contents⟩, waiting, host⟩ =
      .next ⟨activation, waiting, host⟩ := by
  simp only [step, went]

theorem step_ret (read : operand.content? contents = some content) :
    step environment ⟨⟨function, label, [], .ret operand, contents⟩, (activation, name) :: waiting,
        host⟩ =
      .next ⟨{ activation with contents := activation.contents.set name content }, waiting,
        host⟩ := by
  simp only [step, read]

theorem step_done (read : operand.content? contents = some content) :
    step environment ⟨⟨function, label, [], .ret operand, contents⟩, [], host⟩ =
      .done content host := by
  simp only [step, read]

end Steps

theorem Reaches.run (reaches : Reaches environment machine later) {content : Content} {host : σ}
    (ends : later.step environment = .done content host) :
    ∃ fuel, machine.run environment fuel = some (content, host) := by
  induction reaches using Relation.ReflTransGen.head_induction_on with
  | refl => exact ⟨1, by rw [Machine.run, ends]⟩
  | head step _ induction =>
      obtain ⟨fuel, ran⟩ := induction
      exact ⟨fuel + 1, by rw [Machine.run, step]; exact ran⟩

end Machine

end ExprLang.Llvm
