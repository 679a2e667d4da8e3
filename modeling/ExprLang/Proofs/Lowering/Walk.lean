import ExprLang.Proofs.Lowering.Derivation
import ExprLang.Proofs.Ssa.Fuel

/-!
# Steps of lowering

How one argues about a step of lowering: what it leads to if it ends without a misuse, and when
it is sure to do so.
-/

namespace ExprLang.Lowering

open Ssa

/-! ## Steps that keep misuses -/

def Honest (step : Lower α) : Prop :=
  ∀ (state later : State) (result : α), step.run state = .ok (result, later) →
    later.builder.misuse = none → state.builder.misuse = none

theorem run_bind_eq_ok {step : Lower α} {rest : α → Lower β} {state later : State} {result : β} :
    (step >>= rest).run state = .ok (result, later) ↔ ∃ middle between,
      step.run state = .ok (middle, between) ∧
        (rest middle).run between = .ok (result, later) := by
  rw [StateT.run_bind]
  cases ran : step.run state with
  | error error => simp [bind, Except.bind]
  | ok pair =>
      obtain ⟨middle, between⟩ := pair
      simp only [bind, Except.bind, Except.ok.injEq, Prod.mk.injEq]
      constructor
      · intro final
        exact ⟨middle, between, ⟨rfl, rfl⟩, final⟩
      · rintro ⟨_, _, ⟨rfl, rfl⟩, final⟩
        exact final

theorem build_run (step : Build α) (state : State) :
    (build step).run state = .ok ((step.run state.builder).1,
      { state with builder := (step.run state.builder).2 }) := rfl

namespace Honest

@[simp] theorem pure (value : α) : Honest (Pure.pure value : Lower α) := by
  intro state later result ran clean
  cases ran
  exact clean

theorem bind {step : Lower α} {rest : α → Lower β} (first : Honest step)
    (second : ∀ value, Honest (rest value)) : Honest (step >>= rest) := by
  intro state later result ran clean
  obtain ⟨middle, between, start, finish⟩ := run_bind_eq_ok.mp ran
  exact first state between middle start (second middle between later result finish clean)

theorem build {step : Build α}
    (honest : ∀ builder, (step.run builder).2.misuse = none → builder.misuse = none) :
    Honest (Lowering.build step) := by
  intro state later result ran clean
  rw [build_run] at ran
  cases ran
  exact honest state.builder clean

@[simp] theorem get : Honest (MonadState.get : Lower State) := by
  intro state later result ran clean
  cases ran
  exact clean

@[simp] theorem modify {change : State → State}
    (same : ∀ state, (change state).builder = state.builder) :
    Honest (modify change : Lower Unit) := by
  intro state later result ran clean
  cases ran
  rw [← same state]
  exact clean

@[simp] theorem blame (setting : Setting) (tree : Expr Typing) (cause : LoweringError.Cause) :
    Honest (Lowering.blame setting tree cause : Lower α) := by
  intro state later result ran clean
  cases ran

theorem realizes {step : Build α} {operation : Operation}
    {types : Builder → List MachineType} {result : Builder → α}
    (realizes : Realizes step operation types result) : Honest (Lowering.build step) :=
  .build fun _ clean => (realizes.inv clean).1

@[simp] theorem createBlock : Honest (Lowering.build Build.createBlock) :=
  .build fun _ clean => clean

@[simp] theorem switchTo (label : Label) : Honest (Lowering.build (Build.switchTo label)) :=
  .build fun _ clean => (Build.switchTo_inv clean).1

@[simp] theorem appendParameter (label : Label) (type : MachineType) :
    Honest (Lowering.build (Build.appendParameter label type)) :=
  .build fun _ clean => (Build.appendParameter_inv clean).1

@[simp] theorem declareVariable (var : Variable) (type : MachineType) :
    Honest (Lowering.build (Build.declareVariable var type)) :=
  .build fun _ clean => (Build.declareVariable_inv clean).1

@[simp] theorem defineVariable (var : Variable) (value : Value) :
    Honest (Lowering.build (Build.defineVariable var value)) :=
  .build fun _ clean => (Build.defineVariable_inv clean).1

@[simp] theorem useVariable (var : Variable) :
    Honest (Lowering.build (Build.useVariable var)) :=
  .build fun _ clean => (Build.useVariable_inv clean).1

@[simp] theorem sealBlock (label : Label) : Honest (Lowering.build (Build.sealBlock label)) :=
  .build fun _ clean => (Build.sealBlock_inv clean).1

@[simp] theorem importFunction (module : Module) (id : FunctionId) :
    Honest (Lowering.build (Build.importFunction module id)) :=
  .build fun _ clean => (Build.importFunction_inv clean).1

@[simp] theorem createSlot (size : UInt32) : Honest (Lowering.build (Build.createSlot size)) :=
  .build fun _ clean => clean

@[simp] theorem constant (type : MachineType) (word : Int64) :
    Honest (Lowering.build (Build.constant type word)) :=
  .realizes (Build.constant_realizes type word)

@[simp] theorem signExtend (type : MachineType) (operand : Value) :
    Honest (Lowering.build (Build.signExtend type operand)) :=
  .realizes (Build.signExtend_realizes type operand)

@[simp] theorem load (type : MachineType) (address : Value) (offset : Int32) :
    Honest (Lowering.build (Build.load type address offset)) :=
  .realizes (Build.load_realizes type address offset)

@[simp] theorem arithmetic (operation : Arithmetic) (left right : Value) :
    Honest (Lowering.build (Build.arithmetic operation left right)) :=
  .realizes (Build.arithmetic_realizes operation left right)

@[simp] theorem compare (condition : Condition) (left right : Value) :
    Honest (Lowering.build (Build.compare condition left right)) :=
  .realizes (Build.compare_realizes condition left right)

@[simp] theorem slotAddress (slot : Slot) (offset : Int32) :
    Honest (Lowering.build (Build.slotAddress slot offset)) :=
  .realizes (Build.slotAddress_realizes slot offset)

@[simp] theorem slotStore (value : Value) (slot : Slot) (offset : Int32) :
    Honest (Lowering.build (Build.slotStore value slot offset)) :=
  .realizes (Build.slotStore_realizes value slot offset)

@[simp] theorem call (reference : Reference) (arguments : List Value) :
    Honest (Lowering.build (Build.call reference arguments)) :=
  .realizes (Build.call_realizes reference arguments)

@[simp] theorem branch (condition : Value) (onTrue onFalse : Destination) :
    Honest (Lowering.build (Build.branch condition onTrue onFalse)) :=
  .realizes (Build.branch_realizes condition onTrue onFalse)

@[simp] theorem jump (target : Destination) : Honest (Lowering.build (Build.jump target)) :=
  .realizes (Build.jump_realizes target)

@[simp] theorem ret (values : List Value) : Honest (Lowering.build (Build.ret values)) :=
  .realizes (Build.ret_realizes values)

@[simp] theorem bindName (name : String) (value : Value) :
    Honest (Lowering.bindName name value) :=
  .bind .get fun _ => .bind (.declareVariable _ _) fun _ => .bind (.defineVariable _ _) fun _ =>
    .modify fun _ => rfl

@[simp] theorem reference (setting : Setting) (tree : Expr Typing) (name : String) :
    Honest (Lowering.reference setting tree name) := by
  refine .bind .get fun state => ?_
  split
  · exact .pure _
  · exact .blame _ _ _
  · exact .bind (.importFunction _ _) fun found => .bind (.modify fun _ => rfl) fun _ => .pure _

mutual

theorem expression (setting : Setting) (tree : Expr Typing) :
    Honest (Lowering.expression setting tree) := by
  cases tree with
  | integer | boolean => simp [Lowering.expression]
  | ident note name =>
      rw [Lowering.expression]
      refine .bind .get fun state => ?_
      split <;> simp
  | binary note operator left right =>
      rw [Lowering.expression]
      refine .bind (expression setting left) fun _ => .bind (expression setting right) fun _ => ?_
      cases operator with
      | comparison => exact .bind (.compare _ _ _) fun _ => .signExtend _ _
      | arithmetic => exact .arithmetic _ _ _
      | unknown => exact .blame _ _ _
  | bind note name value =>
      rw [Lowering.expression]
      exact .bind (expression setting value) fun _ => .bind (.bindName _ _) fun _ => .pure _
  | sequence note left right =>
      rw [Lowering.expression]
      exact .bind (expression setting left) fun _ => expression setting right
  | call note function arguments =>
      rw [Lowering.expression]
      refine .bind (.reference _ _ _) fun _ => .bind (expressions setting arguments) fun _ =>
        .bind (.call _ _) fun results => ?_
      cases results <;> simp
  | conditional note test onTrue onFalse =>
      rw [Lowering.expression]
      repeat' first
        | refine .bind ?_ fun _ => ?_
        | exact expression setting _
        | simp
  | each note name bound body =>
      rw [Lowering.expression]
      repeat' first
        | refine .bind ?_ fun _ => ?_
        | exact expression setting _
        | simp
  | array note elements =>
      rw [Lowering.expression]
      exact .bind (.createSlot _) fun _ => .bind (.constant _ _) fun _ =>
        .bind (.slotStore _ _ _) fun _ => .bind (storeElements setting _ 1 elements) fun _ =>
        .slotAddress _ _
  | index note target position =>
      rw [Lowering.expression]
      repeat' first
        | refine .bind ?_ fun _ => ?_
        | exact expression setting _
        | simp
  | length note target =>
      rw [Lowering.expression]
      exact .bind (expression setting target) fun _ => .load _ _ _
  | unknown => simp [Lowering.expression]

theorem expressions (setting : Setting) (trees : List (Expr Typing)) :
    Honest (Lowering.expressions setting trees) := by
  cases trees with
  | nil => simp [Lowering.expressions]
  | cons tree trees =>
      rw [Lowering.expressions]
      exact .bind (expression setting tree) fun _ => .bind (expressions setting trees) fun _ =>
        .pure _

theorem storeElements (setting : Setting) (slot : Slot) (index : Nat)
    (trees : List (Expr Typing)) : Honest (Lowering.storeElements setting slot index trees) := by
  cases trees with
  | nil => simp [Lowering.storeElements]
  | cons tree trees =>
      rw [Lowering.storeElements]
      exact .bind (expression setting tree) fun _ => .bind (.slotStore _ _ _) fun _ =>
        storeElements setting slot (index + 1) trees

end

end Honest

/-! ## What a step leads to -/

/-- Whenever a step ends without a misuse it leads to a stage as wanted, and it does end so if
that is sure. -/
def Meets (sure : Prop) (step : Lower α) (stage : Stage) (goal : α → Stage → Prop) : Prop :=
  (sure → ∃ result later, step.run stage.state = .ok (result, later) ∧
    later.builder.misuse = none) ∧
  ∀ result later, step.run stage.state = .ok (result, later) → later.builder.misuse = none →
    ∃ last : Stage, later = last.state ∧ goal result last

namespace Meets

variable {sure : Prop} {stage : Stage}

theorem pure {value : α} {goal : α → Stage → Prop}
    (clean : stage.recording.builder.misuse = none) (holds : goal value stage) :
    Meets sure (Pure.pure value) stage goal := by
  refine ⟨fun _ => ⟨value, stage.state, rfl, clean⟩, ?_⟩
  intro result later ran _
  cases ran
  exact ⟨stage, rfl, holds⟩

theorem bind {step : Lower α} {rest : α → Lower β} {goal : β → Stage → Prop}
    (honest : ∀ value, Honest (rest value))
    (first : Meets sure step stage fun value later => Meets sure (rest value) later goal) :
    Meets sure (step >>= rest) stage goal := by
  constructor
  · intro certain
    obtain ⟨middle, between, ran, clean⟩ := first.1 certain
    obtain ⟨next, rfl, meets⟩ := first.2 middle between ran clean
    obtain ⟨result, later, finish, good⟩ := meets.1 certain
    exact ⟨result, later, run_bind_eq_ok.mpr ⟨middle, _, ran, finish⟩, good⟩
  · intro result later ran clean
    obtain ⟨middle, between, start, finish⟩ := run_bind_eq_ok.mp ran
    obtain ⟨next, rfl, meets⟩ := first.2 middle between start
      (honest middle between later result finish clean)
    exact meets.2 result later finish clean

theorem mono {step : Lower α} {goal wanted : α → Stage → Prop}
    (meets : Meets sure step stage goal)
    (weaker : ∀ value later, goal value later → wanted value later) :
    Meets sure step stage wanted := by
  refine ⟨meets.1, fun result later ran clean => ?_⟩
  obtain ⟨last, equal, holds⟩ := meets.2 result later ran clean
  exact ⟨last, equal, weaker result last holds⟩

theorem imply {certain : Prop} {step : Lower α} {goal : α → Stage → Prop}
    (meets : Meets certain step stage goal) (implies : sure → certain) :
    Meets sure step stage goal :=
  ⟨fun holds => meets.1 (implies holds), meets.2⟩

theorem get {rest : State → Lower β} {goal : β → Stage → Prop}
    (meets : Meets sure (rest stage.state) stage goal) :
    Meets sure (MonadState.get >>= rest) stage goal :=
  meets

theorem blame {setting : Setting} {tree : Expr Typing} {cause : LoweringError.Cause}
    {goal : α → Stage → Prop} (impossible : ¬ sure) :
    Meets sure (Lowering.blame setting tree cause) stage goal := by
  refine ⟨fun holds => absurd holds impossible, ?_⟩
  intro result later ran
  cases ran

theorem build {step : Build α} {goal : α → Stage → Prop}
    (clean : sure → (step.run stage.recording.builder).2.misuse = none)
    (leads : (step.run stage.recording.builder).2.misuse = none →
      ∃ later : Recording, later.builder = (step.run stage.recording.builder).2 ∧
        goal (step.run stage.recording.builder).1 { stage with recording := later }) :
    Meets sure (Lowering.build step) stage goal := by
  constructor
  · intro certain
    exact ⟨_, _, build_run step stage.state, clean certain⟩
  · intro result later ran good
    rw [build_run] at ran
    cases ran
    obtain ⟨recording, equal, holds⟩ := leads good
    exact ⟨_, by simp [Stage.state, equal], holds⟩

end Meets

end ExprLang.Lowering
