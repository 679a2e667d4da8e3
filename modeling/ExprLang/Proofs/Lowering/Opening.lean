import ExprLang.Proofs.Lowering.Translation
import ExprLang.Proofs.Ssa.Availability

/-!
# The start of a function

Before anything is lowered the entry is made, with the parameters of the function, and sealed.
-/

namespace ExprLang

namespace Ssa

namespace Recording

def append (recording : Recording) (label : Label) : List MachineType → Recording
  | [] => recording
  | type :: types => (recording.parameter label type).append label types

section Append

variable {recording : Recording} {label : Label}

theorem hasBlock_parameter (inside : recording.builder.hasBlock label = true)
    (type : MachineType) : (recording.parameter label type).builder.hasBlock label = true := by
  simpa [Recording.parameter, Builder.withParameter, Builder.newValue, Builder.hasBlock,
    Builder.modifyBlock] using inside

theorem nextValues_parameter (type : MachineType) (count : Nat) :
    recording.builder.nextValues (count + 1) = recording.builder.nextValue ::
      (recording.parameter label type).builder.nextValues count := by
  simp [Builder.nextValues, Builder.nextValue, Recording.parameter, Builder.withParameter,
    Builder.newValue, Builder.modifyBlock, List.range'_succ]

theorem shape_append (types : List MachineType) :
    (recording.append label types).shape =
      { recording.shape with
        explicit := Function.update recording.shape.explicit label
          (recording.explicit label ++ recording.builder.nextValues types.length) } := by
  induction types generalizing recording with
  | nil => simp [append, Builder.nextValues, shape]
  | cons type types induction =>
      rw [append, induction, List.length_cons, @nextValues_parameter recording label type,
        shape_parameter]
      simp [Shape.parameter, Recording.parameter, shape]

theorem parameters_append (inside : recording.builder.hasBlock label = true)
    (types : List MachineType) :
    ((recording.append label types).builder.function.block label).parameters =
      (recording.builder.function.block label).parameters ++
        recording.builder.nextValues types.length := by
  induction types generalizing recording with
  | nil => simp [append, Builder.nextValues]
  | cons type types induction =>
      have insideThen := hasBlock_parameter inside type
      rw [append, induction insideThen, List.length_cons,
        @nextValues_parameter recording label type]
      simp [Recording.parameter, Builder.block_withParameter _ _ _ _ inside]

theorem append_performs {entry : Option Label} (types : List MachineType)
    (inside : recording.builder.hasBlock label = true)
    (ready : (recording.builder.state label).pending = [])
    (early : ∀ first, entry = some first → label ≠ first →
      (recording.builder.state label).predecessors = []) :
    PerformsAll entry (types.map (.parameter label)) recording
      (recording.append label types) := by
  induction types generalizing recording with
  | nil => exact .nil
  | cons type types induction =>
      have insideThen := hasBlock_parameter inside type
      exact .cons (.parameter label type inside ready early) (induction insideThen ready early)

theorem haveTypes_append {entry : Option Label} (types : List MachineType)
    (inside : recording.builder.hasBlock label = true)
    (ready : (recording.builder.state label).pending = [])
    (early : ∀ first, entry = some first → label ≠ first →
      (recording.builder.state label).predecessors = []) :
    (recording.append label types).builder.function.HaveTypes
      (recording.builder.nextValues types.length) types := by
  induction types generalizing recording with
  | nil => exact .nil
  | cons type types induction =>
      have insideThen := hasBlock_parameter inside type
      rw [List.length_cons, @nextValues_parameter recording label type]
      refine .cons ?_ (induction insideThen ready early)
      have moves := (append_performs types insideThen ready early).moves
      exact (Moves.grows moves).type? (Builder.type?_withParameter _ _ _)

theorem append_run (types : List MachineType)
    (inside : recording.builder.hasBlock label = true)
    (ready : (recording.builder.state label).pending = []) :
    ((types.forM fun type => discard (Build.appendParameter label type)).run
      recording.builder) = ((), (recording.append label types).builder) := by
  induction types generalizing recording with
  | nil => rfl
  | cons type types induction =>
      have insideThen := hasBlock_parameter inside type
      rw [Build.forM_cons_run]
      have first : ((discard (Build.appendParameter label type)).run recording.builder).2 =
          (recording.parameter label type).builder := by
        change ((Build.appendParameter label type).run recording.builder).2 = _
        rw [Build.appendParameter_run type inside ready]
        rfl
      rw [first]
      exact induction insideThen ready

end Append

end Recording

end Ssa

namespace Lowering

open Ssa

namespace Stage

def start (id : FunctionId) (declaration : Declaration) : Stage :=
  ⟨.start id declaration, [], 0, []⟩

def inputs (declaration : Declaration) : List Value :=
  (List.range declaration.prototype.parameters.length).map Value.mk

def made (id : FunctionId) (declaration : Declaration) : Recording :=
  (Recording.start id declaration).create.append firstBlock declaration.prototype.parameters

def opening (declaration : Declaration) : List Deed :=
  (.create :: declaration.prototype.parameters.map (.parameter firstBlock)) ++
    [.switch firstBlock, .close firstBlock]

def entered (id : FunctionId) (declaration : Declaration) : Recording :=
  (made id declaration).switch firstBlock

def opened (id : FunctionId) (declaration : Declaration) : Stage :=
  ⟨(entered id declaration).close firstBlock, [], 0, []⟩

variable (id : FunctionId) (declaration : Declaration)

theorem hasBlock_create :
    (Recording.start id declaration).create.builder.hasBlock firstBlock = true := rfl

theorem state_create :
    (Recording.start id declaration).create.builder.state firstBlock = .fresh := rfl

theorem nextValues_create :
    (Recording.start id declaration).create.builder.nextValues
      declaration.prototype.parameters.length = inputs declaration := by
  simp [Builder.nextValues, inputs, Recording.create, Recording.start, History.start,
    Builder.start, Builder.withBlock, Ssa.Function.start, List.range_eq_range']

theorem performs_made : PerformsAll (some firstBlock)
    (.create :: declaration.prototype.parameters.map (.parameter firstBlock))
    (Recording.start id declaration) (made id declaration) := by
  refine .cons .create (Recording.append_performs _ (hasBlock_create id declaration) ?_ ?_)
  · rw [state_create]
    rfl
  · intro first same different
    rw [state_create]
    rfl

theorem shape_made : (made id declaration).shape =
    { blocks := 1
      current := none
      script := fun _ => []
      isSealed := fun _ => false
      isPlaced := fun _ => false
      predecessors := fun _ => []
      explicit := Function.update (fun _ => []) firstBlock (inputs declaration) } := by
  have bare := Recording.bare (Sound.start id declaration)
  rw [made, Recording.shape_append, nextValues_create, Recording.shape_create]
  refine Shape.ext rfl rfl rfl ?_ ?_ ?_ rfl
  · funext label
    exact bare.isSealed label (Nat.zero_le _)
  · funext label
    exact bare.isPlaced label (Nat.zero_le _)
  · funext label
    exact bare.predecessors label (Nat.zero_le _)

theorem hasBlock_made : (made id declaration).builder.hasBlock firstBlock = true := by
  rw [Recording.hasBlock_iff, shape_made]
  exact Nat.zero_lt_one

theorem mayLeave_made : (made id declaration).builder.MayLeave := by
  intro old current
  have none : (made id declaration).builder.current = none :=
    congrArg Shape.current (shape_made id declaration)
  rw [none] at current
  cases current

theorem shape_entered : (entered id declaration).shape =
    { blocks := 1
      current := some firstBlock
      script := fun _ => []
      isSealed := fun _ => false
      isPlaced := Function.update (fun _ => false) firstBlock true
      predecessors := fun _ => []
      explicit := Function.update (fun _ => []) firstBlock (inputs declaration) } := by
  rw [entered, Recording.shape_switch (hasBlock_made id declaration), shape_made]
  rfl

theorem hasBlock_entered : (entered id declaration).builder.hasBlock firstBlock = true := by
  rw [Recording.hasBlock_iff, shape_entered]
  exact Nat.zero_lt_one

theorem isSealed_entered :
    ((entered id declaration).builder.state firstBlock).isSealed = false :=
  congrFun (congrArg Shape.isSealed (shape_entered id declaration)) firstBlock

theorem predecessors_entered (label : Label) :
    ((entered id declaration).builder.state label).predecessors = [] :=
  congrFun (congrArg Shape.predecessors (shape_entered id declaration)) label

theorem performs_opened : PerformsAll (some firstBlock) (opening declaration)
    (Recording.start id declaration) (opened id declaration).recording := by
  refine (performs_made id declaration).append (.cons
    (.switch firstBlock (hasBlock_made id declaration) (mayLeave_made id declaration)) (.single
    (.close firstBlock .refl ?_ (hasBlock_entered id declaration)
      (isSealed_entered id declaration) ?_)))
  · intro label edge member
    simp only [Recording.close, Builder.predecessors_withSeal] at member
    rw [predecessors_entered] at member
    cases member
  · intro edge member
    rw [predecessors_entered] at member
    cases member

theorem shape_opened : (opened id declaration).shape =
    { blocks := 1
      current := some firstBlock
      script := fun _ => []
      isSealed := Function.update (fun _ => false) firstBlock true
      isPlaced := Function.update (fun _ => false) firstBlock true
      predecessors := fun _ => []
      explicit := Function.update (fun _ => []) firstBlock (inputs declaration) } := by
  rw [opened, Stage.shape, Recording.shape_close (hasBlock_entered id declaration), shape_entered]
  rfl

theorem seal_run : (Build.sealBlock firstBlock).run (entered id declaration).builder =
    ((), (opened id declaration).recording.builder) := by
  have declared : (entered id declaration).builder.declared = [] := by
    have tables := sameTables_of_performsAll ((performs_made id declaration).append
      (.single (.switch firstBlock (hasBlock_made id declaration)
        (mayLeave_made id declaration)))) (by simp [Deed.isLocal])
    exact tables.declared
  rw [Build.sealBlock_run (hasBlock_entered id declaration) (isSealed_entered id declaration),
    declared]
  rfl

theorem reaches_opened : Reaches (start id declaration) (opened id declaration) :=
  ⟨_, performs_opened id declaration⟩

theorem active_opened : (opened id declaration).shape.Active firstBlock := by
  rw [shape_opened]
  refine ⟨rfl, Nat.zero_lt_one, ?_⟩
  rintro ⟨instruction, member, _⟩
  cases member

theorem ready_opened (setting : Setting) : Ready setting [] (opened id declaration) where
  sound := (reaches_opened id declaration).sound (Sound.start id declaration)
  settled := (Recording.Settled.start id declaration).performsAll (Sound.start id declaration)
    (performs_opened id declaration)
  descends := by
    intro label edge closed only
    rw [shape_opened] at only
    cases only
  clean := by
    have moves : ∀ (types : List MachineType) (recording : Recording),
        (recording.append firstBlock types).builder.misuse = recording.builder.misuse := by
      intro types
      induction types with
      | nil => exact fun _ => rfl
      | cons type types induction => exact fun recording => induction _
    simp only [opened, entered, Recording.close, Recording.switch, Builder.withSeal,
      Builder.modifyState]
    rw [Builder.misuse_withCurrent]
    exact moves _ _
  tabled := by
    have plain : (opening declaration).all Deed.isLocal = true := by
      simp [opening, Deed.isLocal]
    have tables := sameTables_of_performsAll (performs_opened id declaration) plain
    refine @Tabled.same setting [] (start id declaration) (opened id declaration) ?_ tables rfl
    refine ⟨rfl, rfl, ?_, ?_, ?_⟩
    · intro var
      rfl
    · intro other reference found
      cases found
    · intro name reference found
      cases found
  active := ⟨firstBlock, active_opened id declaration⟩

theorem parameters_opened :
    ((opened id declaration).recording.builder.function.block firstBlock).parameters =
      inputs declaration := by
  have same : ((opened id declaration).recording.builder.function.block firstBlock).parameters =
      ((made id declaration).builder.function.block firstBlock).parameters := by
    simp [opened, entered, Recording.close, Recording.switch, Builder.withSeal,
      Builder.modifyState]
  rw [same, made, Recording.parameters_append (hasBlock_create id declaration),
    nextValues_create]
  rfl

theorem haveTypes_opened : (opened id declaration).recording.builder.function.HaveTypes
    (inputs declaration) declaration.prototype.parameters := by
  have typed := @Recording.haveTypes_append (Recording.start id declaration).create firstBlock
    (some firstBlock) declaration.prototype.parameters (hasBlock_create id declaration)
    (by rw [state_create]; rfl) (by intro _ _ _; rw [state_create]; rfl)
  rw [nextValues_create] at typed
  refine typed.imp fun value type holds => ?_
  have same : (opened id declaration).recording.builder.function.values =
      (made id declaration).builder.function.values := by
    simp only [opened, entered, Recording.close, Recording.switch, Builder.withSeal,
      Builder.modifyState, Builder.withCurrent]
    split <;> rfl
  rw [Ssa.Function.type?, Ssa.Function.value?, same]
  exact holds

end Stage

end Lowering

end ExprLang
