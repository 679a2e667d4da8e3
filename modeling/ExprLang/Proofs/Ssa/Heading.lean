import ExprLang.Proofs.Ssa.Request

/-!
# What a builder builds

A builder works for one function from its start to its end: no step of building changes the
number, the name or the prototype of the function, not even one that is misused.
-/

namespace ExprLang.Ssa

/-- The function that a builder works for: its number, its name and its prototype. -/
def Builder.heading (builder : Builder) : FunctionId × String × Prototype :=
  (builder.id, builder.function.name, builder.function.prototype)

def Build.Steadfast (step : Build α) : Prop :=
  ∀ builder : Builder, (step.run builder).2.heading = builder.heading

namespace Build.Steadfast

theorem pure (result : α) : Steadfast (pure result : Build α) :=
  fun _ => rfl

theorem get : Steadfast (get : Build Builder) :=
  fun _ => rfl

theorem bind {first : Build α} {next : α → Build β} (here : Steadfast first)
    (there : ∀ result, Steadfast (next result)) : Steadfast (first >>= next) := by
  intro builder
  rw [StateT.run_bind]
  exact (there _ _).trans (here builder)

theorem modify {change : Builder → Builder}
    (same : ∀ builder, (change builder).heading = builder.heading) :
    Steadfast (modify change : Build Unit) :=
  same

theorem forM {step : α → Build Unit} (each : ∀ item, Steadfast (step item)) (items : List α) :
    Steadfast (items.forM step) := by
  induction items with
  | nil => exact pure ()
  | cons item rest induction => exact bind (each item) fun _ => induction

theorem discard {step : Build α} (steadfast : Steadfast step) : Steadfast (discard step) :=
  steadfast

theorem blame (misuse : Misuse) : Steadfast (Build.blame misuse) :=
  modify fun _ => rfl

theorem function : Steadfast Build.function :=
  fun _ => rfl

/-! ## Blocks -/

theorem createBlock : Steadfast Build.createBlock :=
  fun _ => rfl

theorem place (label : Label) : Steadfast (Build.place label) := by
  refine modify fun builder => ?_
  split <;> rfl

theorem switchTo (label : Label) : Steadfast (Build.switchTo label) := by
  refine bind get fun builder => ?_
  split
  · split
    · dsimp only
      split
      · exact bind (blame _) fun _ => bind (place label) fun _ => modify fun _ => rfl
      · exact bind (place label) fun _ => modify fun _ => rfl
    · exact bind (place label) fun _ => modify fun _ => rfl
  · exact blame _

theorem addParameter (label : Label) (type : MachineType) :
    Steadfast (Build.addParameter label type) :=
  fun _ => rfl

theorem appendParameter (label : Label) (type : MachineType) :
    Steadfast (Build.appendParameter label type) := by
  refine bind get fun builder => ?_
  split
  · split
    · exact bind (blame _) fun _ => addParameter label type
    · exact addParameter label type
  · exact bind (blame _) fun _ => pure _

theorem appendFunctionParameters (label : Label) :
    Steadfast (Build.appendFunctionParameters label) :=
  bind function fun _ => forM (fun type => appendParameter label type) _

theorem parameters (label : Label) : Steadfast (Build.parameters label) := by
  refine bind get fun builder => ?_
  split
  · exact pure _
  · exact bind (blame _) fun _ => pure _

/-! ## Variables -/

theorem define (label : Label) (var : Variable) (value : Value) :
    Steadfast (Build.define label var value) :=
  modify fun _ => rfl

theorem passArgument (edge : Edge) (value : Value) : Steadfast (Build.passArgument edge value) :=
  modify fun _ => rfl

theorem lookup (var : Variable) (type : MachineType) (fuel : Nat) (label : Label) :
    Steadfast (Build.lookup var type fuel label) := by
  induction fuel generalizing label with
  | zero => exact bind (blame _) fun _ => pure _
  | succ fuel induction =>
      refine bind get fun builder => ?_
      dsimp only
      split
      · exact pure _
      · split
        · exact bind (addParameter label type) fun value =>
            bind (modify fun _ => rfl) fun _ => bind (define label var value) fun _ => pure _
        · split
          · exact bind (fun _ => rfl) fun value => bind (define label var value) fun _ => pure _
          · exact bind (induction _) fun value => bind (define label var value) fun _ => pure _
          · exact bind (addParameter label type) fun value =>
              bind (define label var value) fun _ =>
                bind (forM (fun edge => bind (induction _) fun _ => passArgument edge _) _)
                  fun _ => pure _

theorem lookupFuel : Steadfast Build.lookupFuel :=
  fun _ => rfl

theorem passAlong (label : Label) (var : Variable) (param : Value) :
    Steadfast (Build.passAlong label var param) :=
  bind get fun _ => bind lookupFuel fun _ =>
    forM (fun edge => bind (lookup _ _ _ _) fun _ => passArgument edge _) _

theorem passPending (label : Label) (count index : Nat) :
    Steadfast (Build.passPending label count index) := by
  induction count generalizing index with
  | zero => exact pure ()
  | succ count induction =>
      refine bind get fun builder => ?_
      split
      · exact pure ()
      · exact bind (passAlong label _ _) fun _ => induction _

theorem sealBlock (label : Label) : Steadfast (Build.sealBlock label) := by
  refine bind get fun builder => ?_
  split
  · exact blame _
  · split
    · exact blame _
    · exact bind (passPending label _ _) fun _ => modify fun _ => rfl

theorem sealAll : Steadfast Build.sealAll := by
  refine bind get fun builder => forM (fun index => ?_) _
  refine bind get fun now => ?_
  split
  · exact sealBlock _
  · exact pure ()

theorem declareVariable (var : Variable) (type : MachineType) :
    Steadfast (Build.declareVariable var type) := by
  intro builder
  simp only [Build.declareVariable, StateT.run_bind, StateT.run_get, pure_bind]
  split
  · exact blame _ builder
  · rfl

theorem defineVariable (var : Variable) (value : Value) :
    Steadfast (Build.defineVariable var value) := by
  refine bind get fun builder => ?_
  split
  · exact blame _
  · exact blame _
  · split
    · exact define _ var value
    · exact blame _

theorem useVariable (var : Variable) : Steadfast (Build.useVariable var) := by
  refine bind get fun builder => ?_
  split
  · exact bind (blame _) fun _ => pure _
  · exact bind (blame _) fun _ => pure _
  · exact bind lookupFuel fun fuel => lookup var _ fuel _

/-! ## References and instructions -/

theorem importFunction (module : Module) (id : FunctionId) :
    Steadfast (Build.importFunction module id) := by
  intro builder
  simp only [Build.importFunction, StateT.run_bind, StateT.run_get, pure_bind]
  split
  · rfl
  · rfl
  · rfl

theorem createSlot (size : UInt32) : Steadfast (Build.createSlot size) :=
  fun _ => rfl

theorem createResults (label : Label) (types : List MachineType) :
    Steadfast (Build.createResults label types) := by
  induction types with
  | nil => exact pure _
  | cons type rest induction =>
      intro builder
      exact bind induction (fun _ => pure _) (builder.newValue ⟨type, false, label⟩).2

theorem emit (operation : Operation) (types : List MachineType) :
    Steadfast (Build.emit operation types) := by
  refine bind get fun builder => ?_
  split
  · exact bind (blame _) fun _ => pure _
  · split
    · exact bind (blame _) fun _ => pure _
    · refine bind (forM (fun value => ?_) _) fun _ =>
        bind (createResults _ types) fun _ => bind (modify fun _ => rfl) fun _ => pure _
      split
      · exact blame _
      · exact pure ()

theorem emitOne (operation : Operation) (type : MachineType) :
    Steadfast (Build.emitOne operation type) :=
  bind (emit operation [type]) fun _ => pure _

theorem compareTypes (opcode : Opcode) (left right : Value) :
    Steadfast (Build.compareTypes opcode left right) := by
  refine bind function fun body => ?_
  split
  · exact blame _
  · exact pure ()

theorem addEdges (source : Label) (side : Nat) (destinations : List Destination) :
    Steadfast (Build.addEdges source side destinations) := by
  induction destinations generalizing side with
  | nil => exact pure ()
  | cons destination rest induction =>
      exact bind (modify fun _ => rfl) fun _ => induction (side + 1)

theorem branchWith (operation : Operation) : Steadfast (Build.branchWith operation) := by
  refine bind get fun builder => ?_
  split
  · exact blame _
  · exact blame _
  · refine bind (emit operation []) fun _ => ?_
    split
    · exact addEdges _ 0 _
    · exact pure ()

theorem arithmetic (operation : Arithmetic) (left right : Value) :
    Steadfast (Build.arithmetic operation left right) :=
  bind (compareTypes _ left right) fun _ => bind function fun _ => emitOne _ _

theorem compare (condition : Condition) (left right : Value) :
    Steadfast (Build.compare condition left right) :=
  bind (compareTypes _ left right) fun _ => emitOne _ _

theorem slotAddress (slot : Slot) (offset : Int32) :
    Steadfast (Build.slotAddress slot offset) := by
  refine bind function fun body => ?_
  split
  · exact bind (blame _) fun _ => emitOne _ _
  · exact emitOne _ _

theorem slotStore (value : Value) (slot : Slot) (offset : Int32) :
    Steadfast (Build.slotStore value slot offset) := by
  refine bind function fun body => ?_
  dsimp only
  split
  · exact bind (blame _) fun _ => discard (emit _ _)
  · split
    · exact bind (blame _) fun _ => discard (emit _ _)
    · exact discard (emit _ _)

theorem call (reference : Reference) (arguments : List Value) :
    Steadfast (Build.call reference arguments) := by
  refine bind function fun body => ?_
  split
  · exact bind (blame _) fun _ => pure _
  · dsimp only
    split
    · exact bind (blame _) fun _ => emit _ _
    · exact emit _ _

theorem emission (asked : Emission) : Steadfast asked.build := by
  cases asked with
  | constant type word => exact discard (emitOne _ _)
  | arithmetic operation left right => exact discard (arithmetic operation left right)
  | compare condition left right => exact discard (compare condition left right)
  | signExtend type operand => exact discard (emitOne _ _)
  | load type address offset => exact discard (emitOne _ _)
  | store value address offset => exact discard (emit _ _)
  | slotAddress slot offset => exact discard (slotAddress slot offset)
  | slotStore value slot offset => exact slotStore value slot offset
  | call reference arguments => exact discard (call reference arguments)
  | branch condition onTrue onFalse => exact branchWith _
  | jump target => exact branchWith _
  | ret values => exact discard (emit _ _)

end Build.Steadfast

end ExprLang.Ssa
