import ExprLang.Proofs.Ssa.Sealing

/-!
# Histories without misuse

Every history that ends without a misuse is that of a recording.
-/

namespace ExprLang.Ssa

/-! ## Single steps -/

section Steps

variable {entry : Option Label} {recording : Recording}

theorem switchTo_performs {label : Label}
    (good : ((Build.switchTo label).run recording.builder).2.misuse = none) :
    (recording.switch label).builder = ((Build.switchTo label).run recording.builder).2 ∧
      Performs entry (.switch label) recording (recording.switch label) := by
  obtain ⟨_, inside, left⟩ := Build.switchTo_inv good
  rw [Build.switchTo_run inside left]
  exact ⟨rfl, .switch label inside left⟩

theorem appendParameter_performs {label : Label} {type : MachineType}
    (early : ∀ first, entry = some first → label ≠ first →
      (recording.builder.state label).predecessors = [])
    (good : ((Build.appendParameter label type).run recording.builder).2.misuse = none) :
    (recording.parameter label type).builder =
        ((Build.appendParameter label type).run recording.builder).2 ∧
      Performs entry (.parameter label type) recording (recording.parameter label type) := by
  obtain ⟨_, inside, ready⟩ := Build.appendParameter_inv good
  rw [Build.appendParameter_run type inside ready]
  exact ⟨rfl, .parameter label type inside ready early⟩

theorem declareVariable_performs {var : Variable} {type : MachineType}
    (good : ((Build.declareVariable var type).run recording.builder).2.misuse = none) :
    (recording.declare var type).builder =
        ((Build.declareVariable var type).run recording.builder).2 ∧
      Performs entry (.declare var type) recording (recording.declare var type) := by
  obtain ⟨_, unknown⟩ := Build.declareVariable_inv good
  rw [Build.declareVariable_run type unknown]
  exact ⟨rfl, .declare var type unknown⟩

theorem defineVariable_performs {var : Variable} {value : Value}
    (early : entry.isSome → ∀ label, recording.builder.current = some label →
      (recording.builder.function.block label).isTerminated = false)
    (good : ((Build.defineVariable var value).run recording.builder).2.misuse = none) :
    ∃ label, recording.builder.current = some label ∧
      (recording.define label var value).builder =
        ((Build.defineVariable var value).run recording.builder).2 ∧
      Performs entry (.define var value) recording (recording.define label var value) := by
  obtain ⟨_, type, label, current, declared, typed⟩ := Build.defineVariable_inv good
  rw [Build.defineVariable_run current declared typed]
  exact ⟨label, current, rfl, .define label var type value current declared typed
    fun some => early some label current⟩

theorem useVariable_performs (sound : Sound recording) (settled : recording.Settled)
    {var : Variable}
    (early : entry.isSome → ∀ label, recording.builder.current = some label →
      (recording.builder.function.block label).isTerminated = false)
    (good : ((Build.useVariable var).run recording.builder).2.misuse = none) :
    ∃ (middle : Recording) (label : Label), recording.builder.current = some label ∧
      middle.builder = ((Build.useVariable var).run recording.builder).2 ∧
      Resolves recording middle ∧
      Performs entry (.use var ((Build.useVariable var).run recording.builder).1) recording
        (middle.use label var ((Build.useVariable var).run recording.builder).1) := by
  obtain ⟨_, type, label, current, declared⟩ := Build.useVariable_inv good
  rw [Build.useVariable_run current declared] at good ⊢
  obtain ⟨middle, equal, shifts, known⟩ := lookup_answers var type _ label recording sound
    (fun other _ => settled other) (sound.scripted.current label current) declared good
  have keeps := shifts.steps.keeps
  refine ⟨middle, label, current, equal, shifts.steps, .use label var _ shifts.steps
    (shifts.settled settled) (by rw [keeps.current]; exact current) known ?_⟩
  intro some
  have soundThen := sound.resolves shifts.steps
  have unfinished := early some label current
  by_contra terminated
  rw [Bool.not_eq_false, soundThen.scripted.isTerminated_iff, keeps.script,
    ← sound.scripted.isTerminated_iff, unfinished] at terminated
  cases terminated

theorem importFunction_performs {module : Module} {id : FunctionId}
    (good : ((Build.importFunction module id).run recording.builder).2.misuse = none) :
    ∃ (deeds : List Deed) (later : Recording),
      later.builder = ((Build.importFunction module id).run recording.builder).2 ∧
      later.script = recording.script ∧ PerformsAll entry deeds recording later ∧
      (∀ deed ∈ deeds, deed.widens = none ∧ deed.looks = false) ∧
      ∀ external, .refer external ∈ deeds → external.id = id ∧ ∃ declaration,
        module.declaration? id = some declaration ∧
          declaration.prototype = external.prototype := by
  obtain ⟨_, ⟨reference, known⟩ | ⟨unknown, declaration, found⟩⟩ := Build.importFunction_inv good
  · rw [Build.importFunction_known known]
    exact ⟨[], recording, rfl, rfl, .nil, by simp, by simp⟩
  · rw [Build.importFunction_run unknown found]
    refine ⟨_, recording.refer ⟨id, declaration.name, declaration.prototype⟩, rfl, rfl,
      .single (.refer _ unknown), by simp [Deed.widens, Deed.looks], ?_⟩
    intro external member
    cases List.mem_singleton.mp member
    exact ⟨rfl, declaration, found, rfl⟩

/-- Whatever appends an operation gets it done, if it is no misuse. -/
theorem Realizes.performs {step : Build α} {operation : Operation}
    {types : Builder → List MachineType} {result : Builder → α}
    (realizes : Realizes step operation types result)
    (good : (step.run recording.builder).2.misuse = none) :
    ∃ label, recording.builder.current = some label ∧
      step.run recording.builder = (result recording.builder,
        (recording.emit label operation (types recording.builder)).builder) ∧
      Performs entry (.emit operation (types recording.builder)) recording
        (recording.emit label operation (types recording.builder)) := by
  obtain ⟨_, label, accepts⟩ := realizes.inv good
  exact ⟨label, accepts.current, realizes.run accepts, .emit label operation _ accepts.current
    accepts.unfinished accepts.operands accepts.fits⟩

end Steps

/-! ## Several steps at once -/

theorem Build.forM_misuse {step : α → Build Unit}
    (honest : ∀ item builder, ((step item).run builder).2.misuse = none →
      builder.misuse = none) (items : List α) (builder : Builder)
    (good : ((items.forM step).run builder).2.misuse = none) : builder.misuse = none := by
  induction items generalizing builder with
  | nil => exact good
  | cons item rest induction => exact honest item builder (induction _ good)

section Loops

variable {entry : Option Label}

theorem appendParameters_performs {label : Label} (types : List MachineType)
    {recording : Recording}
    (early : ∀ first, entry = some first → label ≠ first →
      (recording.builder.state label).predecessors = [])
    (good : ((types.forM fun type => discard (Build.appendParameter label type)).run
      recording.builder).2.misuse = none) :
    ∃ later : Recording,
      later.builder = ((types.forM fun type => discard (Build.appendParameter label type)).run
        recording.builder).2 ∧
      later.script = recording.script ∧
      PerformsAll entry (types.map (.parameter label)) recording later ∧
      (later.explicit label).length = (recording.explicit label).length + types.length := by
  induction types generalizing recording with
  | nil => exact ⟨recording, rfl, rfl, .nil, rfl⟩
  | cons type rest induction =>
      have first : ((Build.appendParameter label type).run recording.builder).2.misuse = none :=
        Build.forM_misuse (fun item builder fine => (Build.appendParameter_inv fine).1) rest _
          good
      obtain ⟨equal, performs⟩ := appendParameter_performs early first
      have unfolded : (((type :: rest).forM fun type =>
          discard (Build.appendParameter label type)).run recording.builder) =
          ((rest.forM fun type => discard (Build.appendParameter label type)).run
            (recording.parameter label type).builder) := by
        rw [Build.forM_cons_run, equal]
        rfl
      rw [unfolded] at good ⊢
      obtain ⟨later, final, script, others, length⟩ :=
        @induction (recording.parameter label type) early good
      refine ⟨later, final, script, .cons performs others, ?_⟩
      rw [length]
      simp [Recording.parameter]
      omega

def Build.sealOnce (index : Nat) : Build Unit := do
  if !((← get).state ⟨index⟩).isSealed then sealBlock ⟨index⟩

theorem Build.sealOnce_sealed {builder : Builder} {index : Nat}
    (closed : (builder.state ⟨index⟩).isSealed = true) :
    (sealOnce index).run builder = ((), builder) := by
  simp only [sealOnce, StateT.run_bind, StateT.run_get, pure_bind, closed]
  rfl

theorem Build.sealOnce_unsealed {builder : Builder} {index : Nat}
    (unsealed : (builder.state ⟨index⟩).isSealed = false) :
    (sealOnce index).run builder = (sealBlock ⟨index⟩).run builder := by
  simp only [sealOnce, StateT.run_bind, StateT.run_get, pure_bind, unsealed, Bool.not_false,
    if_true]

theorem Build.sealOnce_misuse (index : Nat) (builder : Builder)
    (good : ((sealOnce index).run builder).2.misuse = none) : builder.misuse = none := by
  cases closed : (builder.state ⟨index⟩).isSealed with
  | true =>
      rw [sealOnce_sealed closed] at good
      exact good
  | false =>
      rw [sealOnce_unsealed closed] at good
      exact (sealBlock_inv good).1

theorem sealAll_performs (indices : List Nat) {recording : Recording} (sound : Sound recording)
    (settled : recording.Settled)
    (good : ((indices.forM Build.sealOnce).run recording.builder).2.misuse = none) :
    ∃ (deeds : List Deed) (later : Recording),
      later.builder = ((indices.forM Build.sealOnce).run recording.builder).2 ∧
      later.script = recording.script ∧ PerformsAll entry deeds recording later ∧
      (∀ deed ∈ deeds, deed.widens = none ∧ deed.looks = true) ∧
      ∀ external, .refer external ∉ deeds := by
  induction indices generalizing recording with
  | nil => exact ⟨[], recording, rfl, rfl, .nil, by simp, by simp⟩
  | cons index rest induction =>
      rw [Build.forM_cons_run] at good ⊢
      have first := Build.forM_misuse Build.sealOnce_misuse rest _ good
      cases closed : (recording.builder.state ⟨index⟩).isSealed with
      | true =>
          rw [Build.sealOnce_sealed closed] at good ⊢
          exact induction sound settled good
      | false =>
          rw [Build.sealOnce_unsealed closed] at first good ⊢
          obtain ⟨middle, equal, script, performs⟩ := sealBlock_performs sound settled first
          rw [← equal] at good ⊢
          obtain ⟨deeds, later, final, same, others, narrow, plain⟩ := induction
            (sound.moves performs.moves) (settled.performs sound.scripted performs) good
          exact ⟨_, later, final, same.trans script, .cons performs others,
            List.forall_mem_cons.mpr ⟨⟨rfl, rfl⟩, narrow⟩, by simpa using plain⟩

end Loops

/-! ## Commands -/

/-- What is asked of the caller of a builder so that variables can be relied on: explicit
parameters of a block other than the entry are appended before the first branch to it, and
variables are given values and read only while the current block is not terminated. -/
def Command.Disciplined (entry : Label) (builder : Builder) : Command → Prop
  | .appendParameter label _ => label ≠ entry → (builder.state label).predecessors = []
  | .appendFunctionParameters label =>
    label ≠ entry → (builder.state label).predecessors = []
  | .defineVariable _ _ => ∀ label ∈ builder.current,
    (builder.function.block label).isTerminated = false
  | .useVariable _ => ∀ label ∈ builder.current,
    (builder.function.block label).isTerminated = false
  | _ => True

instance Command.decidableDisciplined (entry : Label) (builder : Builder) :
    (command : Command) → Decidable (command.Disciplined entry builder)
  | .appendParameter label _ => inferInstanceAs
    (Decidable (label ≠ entry → (builder.state label).predecessors = []))
  | .appendFunctionParameters label => inferInstanceAs
    (Decidable (label ≠ entry → (builder.state label).predecessors = []))
  | .defineVariable _ _ => inferInstanceAs (Decidable (∀ label ∈ builder.current,
    (builder.function.block label).isTerminated = false))
  | .useVariable _ => inferInstanceAs (Decidable (∀ label ∈ builder.current,
    (builder.function.block label).isTerminated = false))
  | .createBlock | .switchTo _ | .sealBlock _ | .sealAll | .parameters _
  | .declareVariable _ _ | .importFunction _ _ | .createSlot _ | .emit _ => .isTrue trivial

namespace History

@[simp] theorem builder_note (history : History) (current : Option Label) (event : Event) :
    (history.note current event).builder = history.builder := by
  cases current <;> rfl

theorem perform_misuse {history : History} {command : Command}
    (good : (history.perform command).builder.misuse = none) :
    history.builder.misuse = none := by
  cases command with
  | createBlock => exact good
  | switchTo label => exact (Build.switchTo_inv good).1
  | sealBlock label => exact (Build.sealBlock_inv good).1
  | sealAll => exact Build.forM_misuse Build.sealOnce_misuse _ _ good
  | appendParameter label type => exact (Build.appendParameter_inv good).1
  | appendFunctionParameters label =>
      exact Build.forM_misuse (fun type builder fine => (Build.appendParameter_inv fine).1) _ _
        good
  | parameters label => exact (Build.parameters_inv good).1
  | declareVariable var type => exact (Build.declareVariable_inv good).1
  | defineVariable var value =>
      rw [perform, builder_note] at good
      exact (Build.defineVariable_inv good).1
  | useVariable var =>
      rw [perform, builder_note] at good
      exact (Build.useVariable_inv good).1
  | importFunction module id => exact (Build.importFunction_inv good).1
  | createSlot size => exact good
  | emit emission =>
      have same : (history.perform (.emit emission)).builder =
          (history.after emission.build).builder := by
        simp only [perform]
        split <;> simp
      rw [same] at good
      exact (emission.realizes.inv good).1

theorem performAll_misuse {history : History} {commands : List Command}
    (good : (history.performAll commands).builder.misuse = none) :
    history.builder.misuse = none := by
  induction commands generalizing history with
  | nil => exact good
  | cons command rest induction => exact perform_misuse (induction good)

end History

def Command.widens : Command → Option Label
  | .appendParameter label _ | .appendFunctionParameters label => some label
  | _ => none

def Command.looks : Command → Bool
  | .useVariable _ | .sealBlock _ | .sealAll => true
  | _ => false

/-- A command that ends without a misuse does deeds. Blocks get explicit parameters only if they
are asked for, a command that looks up variables does nothing else, parameters of the function are
explicit parameters, and a function refers only to functions that were imported. -/
theorem perform_performs {entry : Option Label} {recording : Recording}
    (sound : Sound recording) (settled : recording.Settled) {command : Command}
    (disciplined : ∀ first, entry = some first →
      command.Disciplined first recording.builder)
    (good : (recording.toHistory.perform command).builder.misuse = none) :
    ∃ (deeds : List Deed) (later : Recording),
      later.toHistory = recording.toHistory.perform command ∧
      PerformsAll entry deeds recording later ∧
      (∀ deed ∈ deeds, deed.widens = command.widens ∧ deed.looks = command.looks) ∧
      (∀ label, command = .appendFunctionParameters label →
        recording.builder.function.prototype.parameters.length ≤
          (later.explicit label).length) ∧
      ∀ external, .refer external ∈ deeds → ∃ module declaration,
        command = .importFunction module external.id ∧
          module.declaration? external.id = some declaration ∧
          declaration.prototype = external.prototype := by
  have history : ∀ {first second : History}, first.builder = second.builder →
      first.script = second.script → first = second := by
    rintro ⟨_, _⟩ ⟨_, _⟩ rfl rfl
    rfl
  cases command with
  | createBlock =>
      exact ⟨_, recording.create, rfl, .single .create,
        List.forall_mem_singleton.mpr ⟨rfl, rfl⟩, by simp, by simp⟩
  | switchTo label =>
      obtain ⟨equal, performs⟩ := switchTo_performs good
      exact ⟨_, _, history equal rfl, .single performs,
        List.forall_mem_singleton.mpr ⟨rfl, rfl⟩, by simp, by simp⟩
  | sealBlock label =>
      obtain ⟨later, equal, script, performs⟩ := sealBlock_performs sound settled good
      exact ⟨_, later, history equal script, .single performs,
        List.forall_mem_singleton.mpr ⟨rfl, rfl⟩, by simp, by simp⟩
  | sealAll =>
      obtain ⟨deeds, later, equal, script, performs, narrow, plain⟩ :=
        sealAll_performs _ sound settled good
      exact ⟨deeds, later, history equal script, performs, narrow, by simp, by simp [plain]⟩
  | appendParameter label type =>
      obtain ⟨equal, performs⟩ := appendParameter_performs disciplined good
      exact ⟨_, _, history equal rfl, .single performs,
        List.forall_mem_singleton.mpr ⟨rfl, rfl⟩, by simp, by simp⟩
  | appendFunctionParameters label =>
      obtain ⟨later, equal, script, performs, length⟩ :=
        appendParameters_performs _ disciplined good
      refine ⟨_, later, history equal script, performs, ?_, ?_, by simp⟩
      · simp [Deed.widens, Command.widens, Deed.looks, Command.looks]
      intro other same
      cases same
      rw [length]
      exact Nat.le_add_left _ _
  | parameters label =>
      obtain ⟨_, inside⟩ := Build.parameters_inv good
      refine ⟨[], recording, history ?_ rfl, .nil, by simp, by simp, by simp⟩
      exact (congrArg Prod.snd (Build.parameters_run inside)).symm
  | declareVariable var type =>
      obtain ⟨equal, performs⟩ := declareVariable_performs good
      exact ⟨_, _, history equal rfl, .single performs,
        List.forall_mem_singleton.mpr ⟨rfl, rfl⟩, by simp, by simp⟩
  | defineVariable var value =>
      rw [History.perform, History.builder_note] at good
      have early : entry.isSome → ∀ label, recording.builder.current = some label →
          (recording.builder.function.block label).isTerminated = false := by
        intro given
        obtain ⟨first, equal⟩ := Option.isSome_iff_exists.mp given
        exact disciplined first equal
      obtain ⟨label, current, equal, performs⟩ := defineVariable_performs early good
      refine ⟨_, _, history ?_ ?_, .single performs,
        List.forall_mem_singleton.mpr ⟨rfl, rfl⟩, by simp, by simp⟩
      · rw [History.perform, History.builder_note]
        exact equal
      · simp [History.perform, current, History.note, Recording.define, Recording.noted,
          History.after]
  | useVariable var =>
      rw [History.perform, History.builder_note] at good
      have early : entry.isSome → ∀ label, recording.builder.current = some label →
          (recording.builder.function.block label).isTerminated = false := by
        intro given
        obtain ⟨first, equal⟩ := Option.isSome_iff_exists.mp given
        exact disciplined first equal
      obtain ⟨middle, label, current, equal, looked, performs⟩ :=
        useVariable_performs sound settled early good
      refine ⟨_, _, history ?_ ?_, .single performs,
        List.forall_mem_singleton.mpr ⟨rfl, rfl⟩, by simp, by simp⟩
      · rw [History.perform, History.builder_note]
        exact equal
      · simp [History.perform, current, History.note, Recording.use, Recording.noted,
          History.after, looked.keeps.script]
  | importFunction module id =>
      obtain ⟨deeds, later, equal, script, performs, narrow, imported⟩ :=
        importFunction_performs good
      refine ⟨deeds, later, history equal script, performs, narrow, by simp, ?_⟩
      intro external member
      obtain ⟨rfl, declaration, found, same⟩ := imported external member
      exact ⟨module, declaration, rfl, found, same⟩
  | createSlot size =>
      exact ⟨_, recording.reserve size, rfl, .single (.reserve size),
        List.forall_mem_singleton.mpr ⟨rfl, rfl⟩, by simp, by simp⟩
  | emit emission =>
      have same : (recording.toHistory.perform (.emit emission)).builder =
          (recording.toHistory.after emission.build).builder := by
        simp only [History.perform]
        split <;> simp
      rw [same] at good
      obtain ⟨label, current, run, performs⟩ := emission.realizes.performs good
      refine ⟨_, _, history ?_ ?_, .single performs,
        List.forall_mem_singleton.mpr ⟨rfl, rfl⟩, by simp, by simp⟩
      · rw [same, History.after, run]
      · have inside := sound.scripted.current label current
        have last : ((recording.toHistory.after emission.build).builder.function.block
            label).instructions.getLast? = some
              { results := recording.builder.nextValues
                  (emission.types recording.builder).length,
                operation := emission.operation } := by
          rw [History.after, run]
          simp [Recording.emit, Builder.block_withInstruction _ _ _ _ _ inside]
        simp only [History.perform, current, Option.bind_some, last]
        rfl

/-- The caller of a builder keeps to the rules throughout. -/
def History.Disciplined (entry : Label) : History → List Command → Prop
  | _, [] => True
  | history, command :: commands =>
    command.Disciplined entry history.builder ∧
      Disciplined entry (history.perform command) commands

instance History.decidableDisciplined (entry : Label) :
    (history : History) → (commands : List Command) →
      Decidable (history.Disciplined entry commands)
  | _, [] => .isTrue trivial
  | history, command :: commands =>
    have := decidableDisciplined entry (history.perform command) commands
    inferInstanceAs (Decidable (command.Disciplined entry history.builder ∧
      Disciplined entry (history.perform command) commands))

/-- A sequence of commands that ends without a misuse is a sequence of moves. -/
theorem performAll_moves {entry : Option Label} (commands : List Command)
    {recording : Recording} (sound : Sound recording) (settled : recording.Settled)
    (disciplined : ∀ first, entry = some first →
      recording.toHistory.Disciplined first commands)
    (good : (recording.toHistory.performAll commands).builder.misuse = none) :
    ∃ later : Recording, later.toHistory = recording.toHistory.performAll commands ∧
      Moves entry recording later ∧ later.Settled ∧
      ∀ label, .appendFunctionParameters label ∈ commands →
        recording.builder.function.prototype.parameters.length ≤
          (later.explicit label).length := by
  induction commands generalizing recording with
  | nil => exact ⟨recording, rfl, .refl, settled, by simp⟩
  | cons command rest induction =>
      have first : (recording.toHistory.perform command).builder.misuse = none :=
        History.performAll_misuse good
      obtain ⟨deeds, middle, equal, performs, _, parameters, _⟩ := perform_performs sound settled
        (fun label same => (disciplined label same).1) first
      have unfolded : recording.toHistory.performAll (command :: rest) =
          middle.toHistory.performAll rest := by
        rw [equal]
        rfl
      rw [unfolded] at good ⊢
      have moves := performs.moves
      obtain ⟨later, final, others, settledLater, more⟩ := induction (sound.moves moves)
        (settled.performsAll sound performs)
        (fun label same => by rw [equal]; exact (disciplined label same).2) good
      refine ⟨later, final, moves.trans others, settledLater, ?_⟩
      intro label member
      rcases List.mem_cons.mp member with now | afterwards
      · exact Nat.le_trans (parameters label now.symm)
          ((Moves.grows others).explicit label).length_le
      · rw [← (Moves.grows moves).prototype]
        exact more label afterwards

end ExprLang.Ssa
