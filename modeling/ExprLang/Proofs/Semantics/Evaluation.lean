import ExprLang.Proofs.Lowering.Arrays

/-!
# Evaluating typed trees

What a checked program means, without regard to how it is compiled. An activation of a function
has a cell for every binding in its body, and a slot for every array literal, which are in the
stack memory for as long as the activation lasts. Expressions are evaluated from left to right. A
program need not end, so an evaluation is allowed a number of rounds, which limits the rounds of
every loop and the depth of calls; it is unfinished if that is not enough.
-/

namespace ExprLang

open Ssa

/-! ## Operators -/

def Arithmetic.apply : Arithmetic → Int64 → Int64 → Except Trap Int64
  | add, left, right => .ok (left + right)
  | subtract, left, right => .ok (left - right)
  | multiply, left, right => .ok (left * right)
  | divide, left, right => if right = 0 then .error .divisionByZero else .ok (left / right)

def Comparison.holds : Comparison → Int64 → Int64 → Bool
  | equal, left, right => left == right
  | notEqual, left, right => left != right
  | less, left, right => left < right
  | greater, left, right => right < left
  | lessEqual, left, right => left ≤ right
  | greaterEqual, left, right => right ≤ left

/-! ## Evaluations -/

/-- What an evaluation changes: the cells of its activation, the memory in use and the state of
the host. -/
structure Store (σ : Type) where
  cells : Nat → Int64
  memory : Memory
  host : σ

inductive Answer (σ α : Type) where
  | value (result : α) (store : Store σ)
  | fault (fault : Fault) (host : σ)
  | unfinished

namespace Answer

def bind : Answer σ α → (α → Store σ → Answer σ β) → Answer σ β
  | value result store, next => next result store
  | fault cause host, _ => fault cause host
  | unfinished, _ => unfinished

/-- The answer of an activation for the one that waits for it, which has its cells back; the
memory is released. -/
def leave (caller : Store σ) : Answer σ α → Answer σ α
  | value result store =>
    value result ⟨caller.cells, store.memory.release caller.memory.size, store.host⟩
  | other => other

end Answer

/-- An evaluation: what a store is turned into. -/
def Evaluation (σ α : Type) : Type :=
  Store σ → Answer σ α

namespace Evaluation

instance : Monad (Evaluation σ) where
  pure result := fun store => .value result store
  bind step next := fun store => (step store).bind next

def unfinished : Evaluation σ α :=
  fun _ => .unfinished

def fail (fault : Fault) : Evaluation σ α :=
  fun store => .fault fault store.host

def read (cell : Nat) : Evaluation σ Int64 :=
  fun store => .value (store.cells cell) store

def write (cell : Nat) (word : Int64) : Evaluation σ Unit :=
  fun store => .value () { store with cells := Function.update store.cells cell word }

/-- Something is done for 1, 2 and so on as long as the count is not above the limit. -/
def iterate (limit : Int64) (body : Int64 → Evaluation σ Unit) :
    (rounds : Nat) → (count : Int64) → Evaluation σ Unit
  | 0, _ => unfinished
  | rounds + 1, count =>
    if limit < count then pure ()
    else do
      body count
      iterate limit body rounds (count + 1)

end Evaluation

/-! ## Memory -/

namespace Ssa.Memory

def fetch (memory : Memory) (address : Int64) : Option (Except Trap Int64) :=
  if memory.permits address Lowering.wordSize then (memory.load? .i64 address).map .ok
  else some (.error (.memoryAccess address))

def deposit (memory : Memory) (address word : Int64) : Option (Except Trap Memory) :=
  if memory.permits address Lowering.wordSize then (memory.store? .i64 address word).map .ok
  else some (.error (.memoryAccess address))

end Ssa.Memory

/-! ## Activations -/

/-- What does not change while the body of a function is evaluated: the name of the function, the
addresses of the slots of its array literals, the rounds that are allowed, and what calls do. -/
structure Activation (σ : Type) where
  function : String
  slots : List Int64
  rounds : Nat
  call : String → List Int64 → Evaluation σ Int64

namespace Activation

variable (activation : Activation σ)

/-- The result of something that may trap. It is missing only if something does not exist. -/
def attempt : Option (Except Trap α) → Evaluation σ α
  | some (.ok result) => pure result
  | some (.error trap) => .fail (.trap activation.function trap)
  | none => .fail .broken

def load (address : Int64) : Evaluation σ Int64 :=
  fun store => activation.attempt (store.memory.fetch address) store

def put (address word : Int64) : Evaluation σ Unit :=
  fun store => (activation.attempt (store.memory.deposit address word) store).bind
    fun memory store => .value () { store with memory }

def slot (literal : Nat) : Evaluation σ Int64 :=
  activation.attempt ((activation.slots[literal]?).map .ok)

end Activation

namespace Expr

mutual

/-- The value of an expression, if the given names were bound in front of it, the newest first,
and the given number of array literals stand in front of it. -/
def evaluate (activation : Activation σ) (names : List String) (literals : Nat) :
    Expr α → Evaluation σ Int64
  | integer _ value => pure value
  | boolean _ value => pure (Lowering.truthWord value)
  | ident _ name =>
    match cell? name names with
    | some cell => .read cell
    | none => .fail .broken
  | binary _ operator left right => do
    let first ← left.evaluate activation names literals
    let second ← right.evaluate activation (left.scope names) (literals + left.literals.length)
    match operator with
    | .comparison relation => pure (Lowering.truthWord (relation.holds first second))
    | .arithmetic operation => activation.attempt (some (operation.apply first second))
    | .unknown _ => .fail .broken
  | bind _ _ value => do
    let word ← value.evaluate activation names literals
    .write (value.scope names).length word
    pure word
  | sequence _ first second => do
    let _ ← first.evaluate activation names literals
    second.evaluate activation (first.scope names) (literals + first.literals.length)
  | call _ function arguments => do
    let words ← evaluateAll activation names literals arguments
    activation.call function words
  | conditional _ condition onTrue onFalse => do
    let inside := condition.scope names
    let within := literals + condition.literals.length
    let word ← condition.evaluate activation names literals
    if word ≠ 0 then onTrue.evaluate activation inside within
    else onFalse.evaluate activation (onTrue.scope inside) (within + onTrue.literals.length)
  | each _ name bound body => do
    let inside := bound.scope names
    let within := literals + bound.literals.length
    let limit ← bound.evaluate activation names literals
    Evaluation.iterate limit
      (fun count => do
        .write inside.length count
        let _ ← body.evaluate activation (name :: inside) within
        pure ())
      activation.rounds 1
    pure 0
  | array _ elements => do
    let address ← activation.slot literals
    activation.put (address + Lowering.wordOffset 0) (Int64.ofNat elements.length)
    evaluateElements activation names (literals + 1) address 1 elements
    pure address
  | index _ target position => do
    let start ← target.evaluate activation names literals
    let place ← position.evaluate activation (target.scope names)
      (literals + target.literals.length)
    activation.load (start + (place + 1) * Int64.ofNat Lowering.wordSize)
  | length _ target => do
    let start ← target.evaluate activation names literals
    activation.load start
  | unknown _ _ _ => .fail .broken

def evaluateAll (activation : Activation σ) (names : List String) (literals : Nat) :
    List (Expr α) → Evaluation σ (List Int64)
  | [] => pure []
  | tree :: trees => do
    let word ← tree.evaluate activation names literals
    let words ← evaluateAll activation (tree.scope names) (literals + tree.literals.length) trees
    pure (word :: words)

/-- Evaluates the elements of an array from an index on, and puts each in its place behind the
address of the array. -/
def evaluateElements (activation : Activation σ) (names : List String) (literals : Nat)
    (address : Int64) (index : Nat) : List (Expr α) → Evaluation σ Unit
  | [] => pure ()
  | tree :: trees => do
    let word ← tree.evaluate activation names literals
    activation.put (address + Lowering.wordOffset index) word
    evaluateElements activation (tree.scope names) (literals + tree.literals.length) address
      (index + 1) trees

end

end Expr

/-! ## Programs -/

/-- What a body comes to with given arguments. The cells of the parameters hold the arguments and
all others hold zero. -/
def TypedDefinition.evaluate (definition : TypedDefinition) (rounds : Nat)
    (call : String → List Int64 → Evaluation σ Int64) (arguments : List Int64) :
    Evaluation σ Int64 := fun store =>
  match allocateAll store.memory (definition.body.literals.map Lowering.literalSize) with
  | none => .fault (.trap definition.name .stackOverflow) store.host
  | some (slots, memory) =>
    (definition.body.evaluate ⟨definition.name, slots, rounds, call⟩ definition.parameterNames 0
      ⟨fun cell => arguments.getD cell 0, memory, store.host⟩).leave store

def Ssa.Host.evaluate (host : Host σ) (name : String) (arguments : List Int64) :
    Evaluation σ Int64 := fun store =>
  match host name with
  | none => .fault (.noHost name) store.host
  | some run =>
    match run arguments store.host with
    | (.error text, after) => .fault (.hostFailed name text) after
    | (.ok [word], after) => .value word { store with host := after }
    | (.ok words, after) => .fault (.hostResults name words.length 1) after

/-- Checked definitions, and the host that supplies all other functions. -/
structure CheckedProgram (σ : Type) where
  definitions : List TypedDefinition
  host : Host σ

namespace CheckedProgram

def definition? (program : CheckedProgram σ) (name : String) : Option TypedDefinition :=
  program.definitions.find? fun definition => definition.name = name

/-- Calls a function, if there are already some activations. -/
def call (program : CheckedProgram σ) :
    (rounds depth : Nat) → (name : String) → (arguments : List Int64) → Evaluation σ Int64
  | 0, _, _, _ => .unfinished
  | rounds + 1, depth, name, arguments =>
    match program.definition? name with
    | some definition =>
      if maximalDepth ≤ depth then .fail (.trap name .callDepth)
      else definition.evaluate rounds (program.call rounds (depth + 1)) arguments
    | none => program.host.evaluate name arguments

/-- Calls a function from outside. The results or the fault and the last state of the host are
missing only if the rounds do not suffice. -/
def run (program : CheckedProgram σ) (rounds : Nat) (name : String) (arguments : List Int64)
    (host : σ) : Option (Except Fault (List Int64) × σ) :=
  match program.call rounds 0 name arguments ⟨fun _ => 0, .empty, host⟩ with
  | .value word store => some (.ok [word], store.host)
  | .fault fault host => some (.error fault, host)
  | .unfinished => none

end CheckedProgram

end ExprLang
