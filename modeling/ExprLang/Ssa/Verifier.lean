import ExprLang.Ssa.Printer

/-!
# Verifying functions

A function is accepted if its entry has the parameters of the prototype, every block of the
layout ends in its only terminator, no branch leads to the entry or out of the layout, and
what branches and returns pass fits what is wanted there.
-/

namespace ExprLang.Ssa

inductive Flaw where
  | noBlocks
  | entryCount (found wanted : Nat)
  | entryType (index : Nat) (found wanted : MachineType)
  | unterminated
  | earlyTerminator (opcode : Opcode)
  | branchToEntry
  | branchOutside (target : Label)
  | branchCount (target : Label) (found wanted : Nat)
  | branchType (target : Label) (index : Nat) (found wanted : MachineType)
  | returnCount (found wanted : Nat)
  | returnType (index : Nat) (found wanted : MachineType)
deriving DecidableEq, Repr

def Flaw.message : Flaw → String
  | noBlocks => "function has no blocks"
  | entryCount found wanted =>
    "entry block has " ++ Text.decimal found ++ " parameters, signature has " ++
      Text.decimal wanted
  | entryType index found wanted =>
    "entry parameter " ++ Text.decimal index ++ " is " ++ found.render ++
      ", signature says " ++ wanted.render
  | unterminated => "block does not end in a terminator"
  | earlyTerminator opcode => opcode.render ++ " in the middle of the block"
  | branchToEntry => "branch to the entry block"
  | branchOutside target => "branch to " ++ target.render ++ ", which is not in the layout"
  | branchCount target found wanted =>
    "branch to " ++ target.render ++ " passes " ++ Text.decimal found ++ " arguments for " ++
      Text.decimal wanted ++ " parameters"
  | branchType target index found wanted =>
    "branch to " ++ target.render ++ ": argument " ++ Text.decimal index ++ " is " ++
      found.render ++ ", parameter is " ++ wanted.render
  | returnCount found wanted =>
    "return of " ++ Text.decimal found ++ " values, signature has " ++ Text.decimal wanted
  | returnType index found wanted =>
    "return value " ++ Text.decimal index ++ " is " ++ found.render ++ ", signature says " ++
      wanted.render

/-- What ends the check of a function that is not accepted. With a flaw there is a verdict. Where a
value or a block is looked up that does not exist there is none: the check breaks off, and the
program with it. -/
inductive Stop where
  | flaw (flaw : Flaw)
  | noValue (value : Value)
  | noBlock (label : Label)
deriving DecidableEq, Repr

structure VerifyError where
  function : String
  block : Label
  stop : Stop
deriving DecidableEq, Repr

def VerifyError.message (error : VerifyError) : String :=
  match error.stop with
  | .flaw flaw =>
    "ssa: verify " ++ error.function ++ ": " ++ error.block.render ++ ": " ++ flaw.message
  | .noValue _ | .noBlock _ => "index out of range"

namespace Function

def verifyValue (function : Function) (value : Value) : Except Stop MachineType :=
  match function.type? value with
  | some type => .ok type
  | none => .error (.noValue value)

def verifyLabel (function : Function) (label : Label) : Except Stop Block :=
  match function.block? label with
  | some block => .ok block
  | none => .error (.noBlock label)

def verifyTypes (function : Function) (flaw : Nat → MachineType → MachineType → Flaw) :
    (index : Nat) → List Value → List MachineType → Except Stop Unit
  | index, value :: values, wanted :: types => do
    let found ← function.verifyValue value
    if found = wanted then function.verifyTypes flaw (index + 1) values types
    else .error (.flaw (flaw index found wanted))
  | _, _, _ => .ok ()

def verifyArguments (function : Function) (target : Label) :
    (index : Nat) → (arguments parameters : List Value) → Except Stop Unit
  | index, argument :: arguments, parameter :: parameters => do
    let found ← function.verifyValue argument
    let wanted ← function.verifyValue parameter
    if found = wanted then function.verifyArguments target (index + 1) arguments parameters
    else .error (.flaw (.branchType target index found wanted))
  | _, _, _ => .ok ()

def verifyDestination (function : Function) (entry : Label) (destination : Destination) :
    Except Stop Unit := do
  let target := destination.block
  if target = entry then .error (.flaw .branchToEntry)
  else if target ∉ function.layout then .error (.flaw (.branchOutside target))
  else
    let parameters := (← function.verifyLabel target).parameters
    if destination.arguments.length = parameters.length then
      function.verifyArguments target 0 destination.arguments parameters
    else
      .error (.flaw (.branchCount target destination.arguments.length parameters.length))

def verifyReturn (function : Function) : Operation → Except Stop Unit
  | .ret values =>
    let wanted := function.prototype.results
    if values.length = wanted.length then function.verifyTypes .returnType 0 values wanted
    else .error (.flaw (.returnCount values.length wanted.length))
  | _ => .ok ()

/-- Checks instructions; only the last one may be a terminator. -/
def verifyInstructions (function : Function) (entry : Label) :
    List Instruction → Except Stop Unit
  | [] => .ok ()
  | instruction :: rest => do
    if instruction.isTerminator && !rest.isEmpty then
      .error (.flaw (.earlyTerminator instruction.operation.opcode))
    else
      instruction.destinations.forM (function.verifyDestination entry)
      function.verifyReturn instruction.operation
      function.verifyInstructions entry rest

def verifyBlock (function : Function) (entry label : Label) : Except Stop Unit := do
  let block ← function.verifyLabel label
  if block.isTerminated then function.verifyInstructions entry block.instructions
  else .error (.flaw .unterminated)

def verifyEntry (function : Function) (entry : Label) : Except Stop Unit := do
  let parameters := (← function.verifyLabel entry).parameters
  let wanted := function.prototype.parameters
  if parameters.length = wanted.length then function.verifyTypes .entryType 0 parameters wanted
  else .error (.flaw (.entryCount parameters.length wanted.length))

def located (function : Function) (block : Label) (result : Except Stop Unit) :
    Except VerifyError Unit :=
  result.mapError fun stop => ⟨function.name, block, stop⟩

def verify (function : Function) : Except VerifyError Unit :=
  match function.layout with
  | [] => .error ⟨function.name, ⟨0⟩, .flaw .noBlocks⟩
  | entry :: _ => do
    function.located entry (function.verifyEntry entry)
    function.layout.forM fun label => function.located label (function.verifyBlock entry label)

end Function

end ExprLang.Ssa
