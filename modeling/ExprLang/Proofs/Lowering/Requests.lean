import ExprLang.Proofs.Lowering.Readiness

/-!
# Requests of lowering

What each request to the builder leads to. A request after which lowering goes on is handled
together with the rest, which may use that it was done without a misuse.
-/

namespace ExprLang.Lowering

open Ssa

theorem Does.append {early late : List Deed} {first middle last : Stage}
    (left : Does early first middle) (right : Does late middle last) :
    Does (early ++ late) first last where
  performs := left.performs.append right.performs
  same := by
    rw [right.same, left.same]

theorem Does.single {deed : Deed} {stage : Stage} {later : Recording}
    (performs : Performs (some firstBlock) deed stage.recording later) :
    Does [deed] stage { stage with recording := later } :=
  ⟨.single performs, rfl⟩

/-- A block may be left for one that can be entered only from earlier blocks. -/
theorem Does.hop_descends {operation : Operation} {source target : Label} {first last : Stage}
    (does : Does (hopping operation target) first last)
    (current : first.shape.current = some source) (descends : first.shape.Descends)
    (closing : ∀ edge, first.shape.predecessors target ++
      Builder.edgesTo source target 0 operation.destinations = [edge] →
        edge.source.index < target.index) : last.shape.Descends := by
  obtain ⟨_ | ⟨emits, _ | ⟨switches, _ | ⟨closes, _ | _⟩⟩⟩, _⟩ := does
  have emitted := emits.descends descends (by simp)
  have switched := switches.descends emitted (by simp)
  refine closes.descends switched ?_
  rintro label ⟨rfl⟩ edge only
  rw [switches.shape_switch, emits.shape_emit current] at only
  exact closing edge only

@[simp] theorem misuse_withInstruction (builder : Builder) (label : Label) (operation : Operation)
    (types : List MachineType) :
    (builder.withInstruction label operation types).misuse = builder.misuse := by
  rw [Builder.withInstruction, Builder.misuse_withEdges]
  rfl

namespace Meets

variable {sure : Prop} {stage : Stage} {goal : β → Stage → Prop}

theorem strengthen {step : Lower α} {wanted : α → Stage → Prop}
    (meets : Meets sure step stage wanted) :
    Meets sure step stage fun value last =>
      last.recording.builder.misuse = none ∧ wanted value last := by
  refine ⟨meets.1, fun result later ran clean => ?_⟩
  obtain ⟨last, rfl, holds⟩ := meets.2 result later ran clean
  exact ⟨last, rfl, clean, holds⟩

theorem andThen {step : Lower α} {rest : α → Lower β} {wanted : α → Stage → Prop}
    (honest : ∀ value, Honest (rest value)) (meets : Meets sure step stage wanted)
    (next : ∀ value last, last.recording.builder.misuse = none → wanted value last →
      Meets sure (rest value) last goal) :
    Meets sure (step >>= rest) stage goal :=
  .bind honest (meets.strengthen.mono fun value last holds => next value last holds.1 holds.2)

/-! ## Single requests -/

theorem create (clean : stage.recording.builder.misuse = none) :
    Meets sure (Lowering.build Build.createBlock) stage fun label last =>
      label = ⟨stage.blocks⟩ ∧ Does [.create] stage last :=
  .build (fun _ => clean) fun _ => ⟨stage.recording.create, rfl, rfl, .single .create⟩

theorem parameter {label : Label} {type : MachineType}
    (clean : stage.recording.builder.misuse = none)
    (early : label ≠ firstBlock → stage.shape.predecessors label = [])
    (able : label.index < stage.shape.blocks ∧
      (stage.recording.builder.state label).pending = []) :
    Meets sure (Lowering.build (Build.appendParameter label type)) stage fun value last =>
      value = stage.next ∧ Does [.parameter label type] stage last := by
  have ran := @Build.appendParameter_run stage.recording.builder label type
    ((stage.recording.hasBlock_iff label).mpr able.1) able.2
  refine .build ?_ fun good => ?_
  · intro _
    rw [ran]
    exact clean
  · obtain ⟨equal, performs⟩ := @appendParameter_performs (some firstBlock) stage.recording label
      type (by rintro _ ⟨rfl⟩; exact early) good
    exact ⟨_, equal, by rw [ran]; rfl, .single performs⟩

theorem switch {label : Label} (clean : stage.recording.builder.misuse = none)
    (able : sure → label.index < stage.shape.blocks ∧ stage.recording.builder.MayLeave) :
    Meets sure (Lowering.build (Build.switchTo label)) stage fun _ last =>
      Does [.switch label] stage last := by
  refine .build ?_ fun good => ?_
  · intro certain
    obtain ⟨inside, left⟩ := able certain
    rw [Build.switchTo_run ((stage.recording.hasBlock_iff label).mpr inside) left]
    simpa using clean
  · obtain ⟨equal, performs⟩ := @switchTo_performs (some firstBlock) stage.recording label good
    exact ⟨_, equal, .single performs⟩

theorem close {label : Label} (steady : Steady stage)
    (able : sure → label.index < stage.shape.blocks ∧ stage.shape.isSealed label = false) :
    Meets sure (Lowering.build (Build.sealBlock label)) stage fun _ last =>
      Does [.close label] stage last := by
  refine .build ?_ fun good => ?_
  · intro certain
    obtain ⟨inside, unsealed⟩ := able certain
    exact Build.sealBlock_clean (Recording.traceable steady.sound steady.descends)
      ((stage.recording.hasBlock_iff label).mpr inside) unsealed steady.clean
  · obtain ⟨later, equal, _, performs⟩ := @sealBlock_performs (some firstBlock) stage.recording
      steady.sound steady.settled label good
    exact ⟨later, equal, .single performs⟩

theorem reserve {size : UInt32} (clean : stage.recording.builder.misuse = none) :
    Meets sure (Lowering.build (Build.createSlot size)) stage fun slot last =>
      slot = stage.nextSlot ∧ Does [.reserve size] stage last :=
  .build (fun _ => clean) fun _ => ⟨stage.recording.reserve size, rfl, rfl, .single (.reserve size)⟩

/-- An instruction is appended if its operands exist and it fits. -/
theorem emit {step : Build α} {operation : Operation} {types : Builder → List MachineType}
    {result : Builder → α} {wanted : List MachineType}
    (realizes : Realizes step operation types result)
    (typed : types stage.recording.builder = wanted) (steady : Steady stage)
    (active : ∃ source, stage.shape.Active source)
    (able : sure → (∀ value ∈ operation.operands,
      (stage.recording.builder.function.value? value).isSome = true) ∧
        operation.Fits stage.recording.builder wanted) :
    Meets sure (Lowering.build step) stage fun value last =>
      value = result stage.recording.builder ∧ Does [.emit operation wanted] stage last := by
  subst typed
  obtain ⟨source, active⟩ := active
  refine .build ?_ fun good => ?_
  · intro certain
    obtain ⟨exist, fits⟩ := able certain
    have unfinished : (stage.recording.builder.function.block source).isTerminated = false := by
      rw [← Bool.not_eq_true, Recording.terminated_iff steady.sound]
      exact active.unfinished
    rw [realizes.run ⟨active.current, unfinished, exist, fits⟩, misuse_withInstruction]
    exact steady.clean
  · obtain ⟨label, current, ran, performs⟩ :=
      @Realizes.performs (some firstBlock) stage.recording _ step operation types result realizes
        good
    rw [ran]
    exact ⟨_, rfl, rfl, .single performs⟩

/-- A variable can be read if it is declared. -/
theorem use {var : Variable} {setting : Setting} {names : List String}
    (ready : Ready setting names stage) (below : var.index < names.length) :
    Meets sure (Lowering.build (Build.useVariable var)) stage fun value last =>
      Does [.use var value] stage last := by
  obtain ⟨source, active⟩ := ready.active
  have unfinished : ∀ label, stage.recording.builder.current = some label →
      (stage.recording.builder.function.block label).isTerminated = false := by
    intro label current
    cases active.current.symm.trans current
    rw [← Bool.not_eq_true, Recording.terminated_iff ready.sound]
    exact active.unfinished
  refine .build ?_ fun good => ?_
  · intro _
    have declared := ready.tabled.declared var
    rw [if_pos below] at declared
    refine Build.useVariable_clean (Recording.traceable ready.sound ready.descends) active.current
      ?_ declared ready.clean
    rw [stage.recording.balanced]
    exact active.inside
  · obtain ⟨middle, label, current, equal, looked, performs⟩ :=
      @useVariable_performs (some firstBlock) stage.recording ready.sound ready.settled var
        (fun _ => unfinished) good
    exact ⟨middle.use label var _, equal, .single performs⟩

theorem bindName {name : String} {value : Value} {setting : Setting} {names : List String}
    (ready : Ready setting names stage) (typed : stage.HasType value .i64) :
    Meets sure (Lowering.bindName name value) stage fun _ last => Binds name value stage last := by
  obtain ⟨source, active⟩ := ready.active
  have unknown : stage.recording.builder.declared.lookup ⟨stage.variableCount⟩ = none := by
    rw [ready.tabled.declared, ready.tabled.count]
    simp
  have declares : Performs (some firstBlock) (.declare ⟨stage.variableCount⟩ .i64)
      stage.recording (stage.recording.declare ⟨stage.variableCount⟩ .i64) :=
    .declare _ _ unknown
  have found : (stage.recording.declare ⟨stage.variableCount⟩
      .i64).builder.declared.lookup ⟨stage.variableCount⟩ = some .i64 := by
    simp [Recording.declare, List.lookup_append, unknown, List.lookup]
  have unfinished : (stage.recording.builder.function.block source).isTerminated = false := by
    rw [← Bool.not_eq_true, Recording.terminated_iff ready.sound]
    exact active.unfinished
  have defines : Performs (some firstBlock) (.define ⟨stage.variableCount⟩ value)
      (stage.recording.declare ⟨stage.variableCount⟩ .i64)
      ((stage.recording.declare ⟨stage.variableCount⟩ .i64).define source
        ⟨stage.variableCount⟩ value) :=
    .define source _ .i64 value active.current found typed fun _ => unfinished
  have ran : (Lowering.bindName name value).run stage.state = .ok ((),
      { builder := ((stage.recording.declare ⟨stage.variableCount⟩ .i64).define source
          ⟨stage.variableCount⟩ value).builder
        bound := (name, ⟨stage.variableCount⟩) :: stage.bound
        variableCount := stage.variableCount + 1
        references := stage.references }) := by
    have first := @Build.declareVariable_run stage.recording.builder ⟨stage.variableCount⟩ .i64
      unknown
    have second := @Build.defineVariable_run
      (stage.recording.declare ⟨stage.variableCount⟩ .i64).builder ⟨stage.variableCount⟩ value
      .i64 source active.current found typed
    refine run_bind_eq_ok.mpr ⟨_, _, rfl, ?_⟩
    refine run_bind_eq_ok.mpr ⟨_, _, build_run _ _, ?_⟩
    refine run_bind_eq_ok.mpr ⟨_, _, build_run _ _, ?_⟩
    change Except.ok _ = _
    simp only [Stage.state]
    rw [first]
    simp only [Recording.declare] at second
    rw [second]
    rfl
  constructor
  · intro _
    exact ⟨_, _, ran, ready.clean⟩
  · intro result later other _
    rw [ran] at other
    cases other
    exact ⟨⟨_, (name, ⟨stage.variableCount⟩) :: stage.bound, stage.variableCount + 1,
      stage.references⟩, rfl, .cons declares (.single defines), rfl⟩

theorem update {change : State → State} {wanted : Unit → Stage → Prop} (later : Stage)
    (same : change stage.state = later.state) (clean : later.recording.builder.misuse = none)
    (holds : wanted () later) : Meets sure (modify change) stage wanted := by
  have ran : (modify change : Lower Unit).run stage.state = .ok ((), later.state) := by
    rw [← same]
    rfl
  refine ⟨fun _ => ⟨(), later.state, ran, clean⟩, ?_⟩
  intro result last other _
  rw [ran] at other
  cases other
  exact ⟨later, rfl, holds⟩

/-- A function of the module can be imported. -/
theorem importFunction {name : String} {id : FunctionId} {setting : Setting}
    (clean : stage.recording.builder.misuse = none)
    (fresh : stage.references.lookup name = none)
    (callable : setting.callable.lookup name = some id)
    (able : sure → ∃ declaration, setting.module.declaration? id = some declaration) :
    Meets sure (Lowering.build (Build.importFunction setting.module id)) stage
      fun found last => Refers setting name stage found
        { last with references := (name, found) :: last.references } := by
  cases imported : stage.recording.builder.imports.lookup id with
  | some reference =>
      have ran := @Build.importFunction_known stage.recording.builder setting.module id
        reference imported
      refine .build ?_ fun _ => ⟨stage.recording, ?_, ?_⟩
      · intro _
        rw [ran]
        exact clean
      · rw [ran]
      · rw [ran]
        exact .again fresh callable imported
  | none =>
      refine .build ?_ fun good => ?_
      · intro certain
        obtain ⟨declaration, declared⟩ := able certain
        rw [Build.importFunction_run imported declared]
        exact clean
      · obtain ⟨_, ⟨_, known⟩ | ⟨_, declaration, declared⟩⟩ := Build.importFunction_inv good
        · rw [imported] at known
          cases known
        · rw [Build.importFunction_run imported declared]
          exact ⟨stage.recording.refer ⟨id, declaration.name, declaration.prototype⟩, rfl,
            .new fresh callable imported declared⟩

/-- A function that may be called has a reference. -/
theorem reference {tree : Expr Typing} {name : String} {setting : Setting}
    (clean : stage.recording.builder.misuse = none)
    (able : sure → ∃ id declaration, setting.callable.lookup name = some id ∧
      setting.module.declaration? id = some declaration) :
    Meets sure (Lowering.reference setting tree name) stage fun reference last =>
      Refers setting name stage reference last := by
  rw [Lowering.reference]
  refine .get ?_
  cases found : stage.references.lookup name with
  | some reference =>
      simp only [Stage.state, found]
      exact .pure clean (.known found)
  | none =>
      cases callable : setting.callable.lookup name with
      | none =>
          simp only [Stage.state, found]
          refine .blame fun certain => ?_
          obtain ⟨id, _, known, _⟩ := able certain
          rw [callable] at known
          cases known
      | some id =>
          simp only [Stage.state, found]
          refine .andThen (fun _ => .bind (.modify fun _ => rfl) fun _ => .pure _)
            (.importFunction clean found callable ?_) fun value last good refers => ?_
          · intro certain
            obtain ⟨other, declaration, known, declared⟩ := able certain
            rw [callable] at known
            cases known
            exact ⟨declaration, declared⟩
          · refine .andThen (fun _ => .pure _) (.update
              { last with references := (name, value) :: last.references } rfl good refers)
              fun _ later fine holds => .pure fine holds

/-! ## Leaving a block -/

/-- A block is left for another one. -/
theorem leave {step : Build Unit} {operation : Operation} {target : Label} {rest : Lower β}
    (realizes : Realizes step operation (fun _ => []) fun _ => ())
    (terminator : operation.isTerminator = true) (steady : Steady stage)
    (active : ∃ source, stage.shape.Active source)
    (able : sure → (∀ value ∈ operation.operands,
      (stage.recording.builder.function.value? value).isSome = true) ∧
        operation.Fits stage.recording.builder [] ∧ target.index < stage.shape.blocks)
    (honest : Honest rest)
    (next : ∀ last, Steady last → Does [.emit operation [], .switch target] stage last →
      Meets sure rest last goal) :
    Meets sure (do
      Lowering.build step
      Lowering.build (Build.switchTo target)
      rest) stage goal := by
  obtain ⟨source, filled⟩ := active
  refine .andThen (fun _ => .bind (.switchTo _) fun _ => honest)
    (.emit realizes rfl steady ⟨source, filled⟩ fun certain =>
      ⟨(able certain).1, (able certain).2.1⟩)
    fun _ middle clean ⟨_, emits⟩ => ?_
  have shape := emits.emit_shape filled.current
  have steadyThen := emits.steady steady clean (by simp)
  refine .andThen (fun _ => honest) (.switch clean fun certain => ⟨?_, ?_⟩)
    fun _ last cleanLast switches => ?_
  · rw [shape]
    exact (able certain).2.2
  · intro old current
    have here : middle.shape.current = some source := by
      rw [shape]
      exact filled.current
    cases here.symm.trans current
    refine .inr ((Recording.terminated_iff steadyThen.sound source).mpr ?_)
    change middle.shape.Terminated source
    rw [shape]
    exact ⟨⟨stage.recording.builder.nextValues 0, operation, []⟩,
      by simp [Shape.emit, Shape.note], terminator⟩
  · exact next last (switches.steady steadyThen cleanLast (by simp)) (emits.append switches)

/-- A block is left for one that can be entered from nowhere else. -/
theorem hop {step : Build Unit} {operation : Operation} {target : Label} {rest : Lower β}
    (realizes : Realizes step operation (fun _ => []) fun _ => ())
    (terminator : operation.isTerminator = true) (steady : Steady stage)
    (active : ∃ source, stage.shape.Active source)
    (able : sure → (∀ value ∈ operation.operands,
      (stage.recording.builder.function.value? value).isSome = true) ∧
        operation.Fits stage.recording.builder [] ∧ target.index < stage.shape.blocks)
    (unsealed : stage.shape.isSealed target = false)
    (honest : Honest rest)
    (next : ∀ last, last.recording.builder.misuse = none →
      Does (hopping operation target) stage last → Meets sure rest last goal) :
    Meets sure (do
      Lowering.build step
      Lowering.build (Build.switchTo target)
      Lowering.build (Build.sealBlock target)
      rest) stage goal := by
  obtain ⟨source, filled⟩ := active
  refine .leave realizes terminator steady ⟨source, filled⟩ able
    (.bind (.sealBlock _) fun _ => honest)
    fun middle steadyThen leaves => ?_
  have shape := leaves.jump_shape filled.current
  refine .andThen (fun _ => honest) (.close steadyThen fun certain => ⟨?_, ?_⟩)
    fun _ last clean closes => next last clean (leaves.append closes)
  · rw [shape]
    exact (able certain).2.2
  · rw [shape]
    exact unsealed

/-! ## Opening and closing blocks -/

structure Fresh (label : Label) (stage : Stage) : Prop where
  inside : label.index < stage.shape.blocks
  unsealed : stage.shape.isSealed label = false
  predecessors : stage.shape.predecessors label = []
  pending : (stage.recording.builder.state label).pending = []

/-- Three blocks are made. -/
theorem creates {rest : Label → Label → Label → Lower β} (steady : Steady stage)
    (honest : ∀ first second third, Honest (rest first second third))
    (next : ∀ last, Steady last → Does [.create, .create, .create] stage last →
      (∀ label : Label, stage.blocks ≤ label.index → label.index < stage.blocks + 3 →
        Fresh label last) →
      Meets sure (rest ⟨stage.blocks⟩ ⟨stage.blocks + 1⟩ ⟨stage.blocks + 2⟩) last goal) :
    Meets sure (do
      let first ← Lowering.build Build.createBlock
      let second ← Lowering.build Build.createBlock
      let third ← Lowering.build Build.createBlock
      rest first second third) stage goal := by
  have honestThird : ∀ first second, Honest (do
      let third ← Lowering.build Build.createBlock
      rest first second third) := fun first second =>
    .bind .createBlock fun third => honest first second third
  refine .andThen (fun first => .bind .createBlock fun second => honestThird first second)
    (.create steady.clean) ?_
  rintro _ one cleanOne ⟨rfl, makes⟩
  have steadyOne := makes.steady steady cleanOne (by simp)
  refine .andThen (honestThird _) (.create cleanOne) ?_
  rintro _ two cleanTwo ⟨rfl, makesTwo⟩
  have steadyTwo := makesTwo.steady steadyOne cleanTwo (by simp)
  refine .andThen (fun third => honest _ _ third) (.create cleanTwo) ?_
  rintro _ last cleanLast ⟨rfl, makesThree⟩
  have all := makes.append (makesTwo.append makesThree)
  have shapeOne : one.shape = stage.shape.create := by
    obtain ⟨_ | ⟨performs, _ | _⟩, _⟩ := makes
    exact performs.shape_create
  have shapeTwo : two.shape = one.shape.create := by
    obtain ⟨_ | ⟨performs, _ | _⟩, _⟩ := makesTwo
    exact performs.shape_create
  have blocksOne : one.blocks = stage.blocks + 1 := by
    rw [Stage.blocks, shapeOne]
    rfl
  have blocksTwo : two.blocks = stage.blocks + 2 := by
    rw [Stage.blocks, shapeTwo, shapeOne]
    rfl
  rw [blocksOne, blocksTwo]
  have steadyLast := makesThree.steady steadyTwo cleanLast (by simp)
  refine next last steadyLast all ?_
  intro label outside below
  have bare := Recording.bare steady.sound
  have shape := all.create_shape
  refine ⟨?_, ?_, ?_, ?_⟩
  · rw [shape]
    exact below
  · rw [shape]
    exact bare.isSealed label outside
  · rw [shape]
    exact bare.predecessors label outside
  · have unsealed : last.shape.isSealed label = false := by
      rw [shape]
      exact bare.isSealed label outside
    rw [steadyLast.sound.tracked.pending label unsealed]
    have same : last.recording.joined = stage.recording.joined := by
      obtain ⟨_ | ⟨one, _ | ⟨two, _ | ⟨three, _ | _⟩⟩⟩, _⟩ := all
      cases one
      cases two
      generalize last.recording = recording at three
      cases three
      rfl
    have absent : stage.recording.builder.hasBlock label = false := by
      rw [← Bool.not_eq_true, Recording.hasBlock_iff]
      exact Nat.not_lt.mpr outside
    rw [same, ← steady.sound.tracked.pending label (bare.isSealed label outside),
      stage.recording.state_of_absent absent]
    rfl

/-- The arms of a condition are opened. -/
theorem fork {setting : Setting} {names : List String} {test : Value}
    {rest : Label → Label → Label → Value → Lower β} (ready : Ready setting names stage)
    (typed : stage.HasType test .i64)
    (honest : ∀ first second third result, Honest (rest first second third result))
    (next : ∀ result last, Ready setting names last → Forks test stage result last →
      Meets sure (rest ⟨stage.blocks⟩ ⟨stage.blocks + 1⟩ ⟨stage.blocks + 2⟩ result) last goal) :
    Meets sure (do
      let trueBlock ← Lowering.build Build.createBlock
      let falseBlock ← Lowering.build Build.createBlock
      let merge ← Lowering.build Build.createBlock
      let result ← Lowering.build (Build.appendParameter merge .i64)
      Lowering.build (Build.branch test ⟨trueBlock, []⟩ ⟨falseBlock, []⟩)
      Lowering.build (Build.switchTo trueBlock)
      Lowering.build (Build.sealBlock trueBlock)
      rest trueBlock falseBlock merge result) stage goal := by
  obtain ⟨source, active⟩ := ready.active
  have honestBranch : ∀ trueBlock falseBlock merge result, Honest (do
      Lowering.build (Build.branch test ⟨trueBlock, []⟩ ⟨falseBlock, []⟩)
      Lowering.build (Build.switchTo trueBlock)
      Lowering.build (Build.sealBlock trueBlock)
      rest trueBlock falseBlock merge result) := fun _ _ _ _ =>
    .bind (.branch _ _ _) fun _ => .bind (.switchTo _) fun _ => .bind (.sealBlock _) fun _ =>
      honest _ _ _ _
  refine .creates ready.toSteady (fun _ _ _ => .bind (.appendParameter _ _) fun _ =>
    honestBranch _ _ _ _) fun made steady creates fresh => ?_
  obtain ⟨inside, _, entered, pending⟩ := fresh ⟨stage.blocks + 2⟩ (Nat.le_add_right _ _)
    (Nat.lt_succ_self _)
  refine .andThen (honestBranch _ _ _)
    (.parameter steady.clean (fun _ => entered) ⟨inside, pending⟩) ?_
  rintro _ joined clean ⟨rfl, merges⟩
  have steadyJoined := merges.steady steady clean (by simp)
  have shape := merges.parameter_shape
  have madeShape := creates.create_shape
  rw [madeShape] at shape
  have filled : joined.shape.Active source := by
    rw [shape]
    exact ⟨active.current, Nat.lt_add_right 3 active.inside, active.unfinished⟩
  have fits : ∀ label : Label, stage.blocks ≤ label.index → label.index < stage.blocks + 3 →
      joined.recording.builder.hasBlock label = true ∧
        joined.shape.isSealed label = false := by
    intro label outside below
    constructor
    · rw [joined.recording.hasBlock_iff]
      change label.index < joined.shape.blocks
      rw [shape]
      exact below
    · have unsealed := (fresh label outside below).unsealed
      rw [madeShape] at unsealed
      rw [shape]
      exact unsealed
  have left := fits ⟨stage.blocks⟩ (Nat.le_refl _) (Nat.lt_add_of_pos_right (by decide))
  have right := fits ⟨stage.blocks + 1⟩ (Nat.le_add_right _ _) (Nat.lt_succ_of_lt
    (Nat.lt_succ_self _))
  refine .hop (Build.branch_realizes _ _ _) rfl steadyJoined ⟨source, filled⟩
    (fun _ => ⟨?_, ?_, ?_⟩)
    left.2 (honest _ _ _ _) fun last cleanLast branches => ?_
  · simpa [Operation.operands] using
      (typed.reaches (creates.reaches.trans merges.reaches)).exist
  · simpa [Operation.Fits] using ⟨left, right⟩
  · exact (joined.recording.hasBlock_iff _).mp left.1
  · have forks : Forks test stage made.next last := .intro creates merges branches
    refine next _ last (ready.later forks.reaches (forks.tabled ready.tabled) ?_ ?_ cleanLast)
      forks
    · refine branches.hop_descends filled.current steadyJoined.descends ?_
      intro edge only
      rw [shape] at only
      have empty : stage.shape.predecessors ⟨stage.blocks⟩ = [] :=
        (Recording.bare ready.sound).predecessors ⟨stage.blocks⟩ (Nat.le_refl _)
      change stage.shape.predecessors ⟨stage.blocks⟩ ++ _ = _ at only
      simp [empty, Operation.destinations, Builder.edgesTo] at only
      rw [← only]
      exact active.inside
    · rw [forks.shape active.current]
      exact ⟨_, Shape.active_fork (Recording.bare ready.sound) active.inside⟩

/-- The blocks of a loop are made, with the parameters for its counter. -/
theorem loopBlocks {rest : Label → Label → Label → Value → Value → Lower β}
    (steady : Steady stage) {source : Label} (active : stage.shape.Active source)
    (honest : ∀ header loop exit counter round, Honest (rest header loop exit counter round))
    (next : ∀ made counted last, Steady last → last.shape.Active source →
      Does [.create, .create, .create] stage made →
      Does [.parameter ⟨stage.blocks⟩ .i64] made counted →
      Does [.parameter ⟨stage.blocks + 1⟩ .i64] counted last →
      last.shape = (stage.shape.create.create.create.parameter ⟨stage.blocks⟩
        made.next).parameter ⟨stage.blocks + 1⟩ counted.next →
      Meets sure (rest ⟨stage.blocks⟩ ⟨stage.blocks + 1⟩ ⟨stage.blocks + 2⟩ made.next
        counted.next) last goal) :
    Meets sure (do
      let header ← Lowering.build Build.createBlock
      let loop ← Lowering.build Build.createBlock
      let exit ← Lowering.build Build.createBlock
      let counter ← Lowering.build (Build.appendParameter header .i64)
      let round ← Lowering.build (Build.appendParameter loop .i64)
      rest header loop exit counter round) stage goal := by
  have honestRound : ∀ header loop exit counter, Honest (do
      let round ← Lowering.build (Build.appendParameter loop .i64)
      rest header loop exit counter round) := fun _ _ _ _ =>
    .bind (.appendParameter _ _) fun _ => honest _ _ _ _ _
  refine .creates steady (fun header loop exit => .bind (.appendParameter _ _) fun counter =>
    honestRound header loop exit counter) fun made steady creates fresh => ?_
  have madeShape := creates.create_shape
  obtain ⟨headerInside, _, headerEntered, headerPending⟩ := fresh ⟨stage.blocks⟩ (Nat.le_refl _)
    (Nat.lt_add_of_pos_right (by decide))
  obtain ⟨loopInside, _, loopEntered, loopPending⟩ := fresh ⟨stage.blocks + 1⟩
    (Nat.le_add_right _ _) (Nat.lt_succ_of_lt (Nat.lt_succ_self _))
  refine .andThen (honestRound _ _ _)
    (.parameter steady.clean (fun _ => headerEntered) ⟨headerInside, headerPending⟩) ?_
  rintro _ counted cleanCounted ⟨rfl, counts⟩
  have steadyCounted := counts.steady steady cleanCounted (by simp)
  have countedShape := counts.parameter_shape
  have pending : (counted.recording.builder.state ⟨stage.blocks + 1⟩).pending = [] := by
    obtain ⟨_ | ⟨performs, _ | _⟩, _⟩ := counts
    generalize counted.recording = recording at performs
    cases performs
    exact loopPending
  refine .andThen (honest _ _ _ _) (.parameter cleanCounted
    (fun _ => by rw [countedShape]; exact loopEntered)
    ⟨by rw [countedShape]; exact loopInside, pending⟩) ?_
  rintro _ rounded cleanRounded ⟨rfl, rounds⟩
  have roundedShape := rounds.parameter_shape
  rw [countedShape, madeShape] at roundedShape
  refine next made counted rounded (rounds.steady steadyCounted cleanRounded (by simp)) ?_ creates
    counts rounds roundedShape
  rw [roundedShape]
  exact ⟨active.current, Nat.lt_add_right 3 active.inside, active.unfinished⟩

/-- The number one is passed to the header of a loop, which is filled from now on. -/
theorem startLoop {header : Label} {rest : Value → Lower β} (steady : Steady stage)
    {source : Label} (filled : stage.shape.Active source)
    (inside : header.index < stage.shape.blocks) (unsealed : stage.shape.isSealed header = false)
    (honest : ∀ one, Honest (rest one))
    (next : ∀ started last, Steady last → Does [.emit (.constant .i64 1) [.i64]] stage started →
      Does [.emit (.jump ⟨header, [stage.next]⟩) [], .switch header] started last →
      last.shape = ((stage.shape.emit source ⟨[stage.next], .constant .i64 1, []⟩).emit source
        ⟨[], .jump ⟨header, [stage.next]⟩, []⟩).switch header →
      Meets sure (rest stage.next) last goal) :
    Meets sure (do
      let one ← Lowering.build (Build.constant .i64 1)
      Lowering.build (Build.jump ⟨header, [one]⟩)
      Lowering.build (Build.switchTo header)
      rest one) stage goal := by
  refine .andThen (fun _ => .bind (.jump _) fun _ => .bind (.switchTo _) fun _ => honest _)
    (.emit (Build.constant_realizes .i64 1) rfl steady ⟨source, filled⟩
      fun _ => ⟨by simp [Operation.operands], rfl⟩) ?_
  rintro _ started clean ⟨rfl, starts⟩
  have startedShape := starts.emit_shape filled.current
  have filledStarted := (starts.emit_flows rfl filled).active
  refine .leave (Build.jump_realizes _) rfl (starts.steady steady clean (by simp))
    ⟨source, filledStarted⟩ (fun _ => ⟨by simp [Operation.operands], ⟨?_, ?_, rfl⟩, ?_⟩)
    (honest _) fun last steadyLast jumps => next started last steadyLast starts jumps ?_
  · rw [started.recording.hasBlock_iff]
    change header.index < started.shape.blocks
    rw [startedShape]
    exact inside
  · change started.shape.isSealed _ = false
    rw [startedShape]
    exact unsealed
  · rw [startedShape]
    exact inside
  · rw [jumps.jump_shape filledStarted.current, startedShape]
    rfl

/-- The start of a loop compares the counter with the limit. -/
theorem compareLimit {counter limit : Value} {header loop exit : Label} {rest : Lower β}
    (steady : Steady stage) (filled : stage.shape.Active header)
    (counts : stage.HasType counter .i64) (limits : stage.HasType limit .i64)
    (toExit : exit.index < stage.shape.blocks ∧ stage.shape.isSealed exit = false)
    (toLoop : loop.index < stage.shape.blocks ∧ stage.shape.isSealed loop = false)
    (honest : Honest rest)
    (next : ∀ compared last, last.recording.builder.misuse = none → Steady compared →
      compared.shape.Active header →
      Does [.emit (.compare .greater counter limit) [.i1]] stage compared →
      Does (hopping (.branch stage.next ⟨exit, []⟩ ⟨loop, [counter]⟩) loop) compared last →
      Meets sure rest last goal) :
    Meets sure (do
      let done ← Lowering.build (Build.compare .greater counter limit)
      Lowering.build (Build.branch done ⟨exit, []⟩ ⟨loop, [counter]⟩)
      Lowering.build (Build.switchTo loop)
      Lowering.build (Build.sealBlock loop)
      rest) stage goal := by
  refine .andThen (fun _ => .bind (.branch _ _ _) fun _ => .bind (.switchTo _) fun _ =>
    .bind (.sealBlock _) fun _ => honest) (.emit (Build.compare_realizes _ _ _) rfl steady
    ⟨header, filled⟩ fun _ => ⟨?_, ?_⟩) ?_
  · simpa [Operation.operands] using ⟨counts.exist, limits.exist⟩
  · exact ⟨counts.type_eq.trans limits.type_eq.symm, rfl⟩
  rintro _ compared clean ⟨rfl, compares⟩
  have steadyThen := compares.steady steady clean (by simp)
  have shape := compares.emit_shape filled.current
  have filledThen := (compares.emit_flows rfl filled).active
  have able : ∀ label : Label,
      label.index < stage.shape.blocks ∧ stage.shape.isSealed label = false →
        compared.recording.builder.hasBlock label = true ∧
          compared.shape.isSealed label = false := by
    rintro label ⟨inside, unsealed⟩
    constructor
    · rw [compared.recording.hasBlock_iff]
      change label.index < compared.shape.blocks
      rw [shape]
      exact inside
    · rw [shape]
      exact unsealed
  refine .hop (Build.branch_realizes _ _ _) rfl steadyThen ⟨header, filledThen⟩
    (fun _ => ⟨?_, ?_, ?_⟩) (able loop toLoop).2 honest fun last cleanLast branches =>
      next compared last cleanLast steadyThen filledThen compares branches
  · simpa [Operation.operands, Stage.next] using compares.emit_hasType.exist
  · simpa [Operation.Fits] using ⟨able exit toExit, able loop toLoop⟩
  · exact (compared.recording.hasBlock_iff _).mp (able loop toLoop).1

/-- A loop is opened. -/
theorem enter {setting : Setting} {names : List String} {limit : Value}
    {rest : Label → Label → Label → Value → Value → Lower β} (ready : Ready setting names stage)
    (typed : stage.HasType limit .i64)
    (honest : ∀ header loop exit round one, Honest (rest header loop exit round one))
    (next : ∀ round one last, Ready setting names last → Enters limit stage round one last →
      last.HasType round .i64 → last.HasType one .i64 →
      Meets sure (rest ⟨stage.blocks⟩ ⟨stage.blocks + 1⟩ ⟨stage.blocks + 2⟩ round one) last
        goal) :
    Meets sure (do
      let header ← Lowering.build Build.createBlock
      let loop ← Lowering.build Build.createBlock
      let exit ← Lowering.build Build.createBlock
      let counter ← Lowering.build (Build.appendParameter header .i64)
      let round ← Lowering.build (Build.appendParameter loop .i64)
      let one ← Lowering.build (Build.constant .i64 1)
      Lowering.build (Build.jump ⟨header, [one]⟩)
      Lowering.build (Build.switchTo header)
      let done ← Lowering.build (Build.compare .greater counter limit)
      Lowering.build (Build.branch done ⟨exit, []⟩ ⟨loop, [counter]⟩)
      Lowering.build (Build.switchTo loop)
      Lowering.build (Build.sealBlock loop)
      rest header loop exit round one) stage goal := by
  obtain ⟨source, active⟩ := ready.active
  have bare : stage.shape.Bare := Recording.bare ready.sound
  have honestCompare : ∀ header loop exit counter round one, Honest (do
      let done ← Lowering.build (Build.compare .greater counter limit)
      Lowering.build (Build.branch done ⟨exit, []⟩ ⟨loop, [counter]⟩)
      Lowering.build (Build.switchTo loop)
      Lowering.build (Build.sealBlock loop)
      rest header loop exit round one) := fun _ _ _ _ _ _ =>
    .bind (.compare _ _ _) fun _ => .bind (.branch _ _ _) fun _ => .bind (.switchTo _) fun _ =>
      .bind (.sealBlock _) fun _ => honest _ _ _ _ _
  refine .loopBlocks ready.toSteady active (fun _ _ _ _ _ => .bind (.constant _ _) fun _ =>
    .bind (.jump _) fun _ => .bind (.switchTo _) fun _ => honestCompare _ _ _ _ _ _) ?_
  intro made counted rounded steadyRounded filled creates counts rounds roundedShape
  refine .startLoop steadyRounded filled ?_ ?_ (fun _ => honestCompare _ _ _ _ _ _) ?_
  · rw [roundedShape]
    exact Nat.lt_add_of_pos_right (show 0 < 3 by decide)
  · rw [roundedShape]
    exact bare.isSealed ⟨stage.blocks⟩ (Nat.le_refl _)
  intro started jumped steadyJumped starts jumps jumpedShape
  rw [roundedShape] at jumpedShape
  have header : jumped.shape.Active ⟨stage.blocks⟩ := by
    rw [jumpedShape]
    refine ⟨rfl, Nat.lt_add_of_pos_right (show 0 < 3 by decide), ?_⟩
    rintro ⟨instruction, member, _⟩
    have different : (⟨stage.blocks⟩ : Label) ≠ source := by
      rw [ne_eq, Label.eq_iff]
      exact Nat.ne_of_gt active.inside
    simp only [Shape.switch, Shape.emit, Shape.note, Shape.parameter, Shape.create,
      Function.update_of_ne different, bare.script ⟨stage.blocks⟩ (Nat.le_refl _)] at member
    cases member
  have able : ∀ label : Label, stage.blocks ≤ label.index → label.index < stage.blocks + 3 →
      label.index < jumped.shape.blocks ∧ jumped.shape.isSealed label = false := by
    intro label outside inside
    rw [jumpedShape]
    exact ⟨inside, bare.isSealed label outside⟩
  have onward := starts.reaches.trans jumps.reaches
  refine .compareLimit steadyJumped header
    (counts.parameter_hasType.reaches (rounds.reaches.trans onward))
    (typed.reaches (creates.reaches.trans (counts.reaches.trans (rounds.reaches.trans onward))))
    (able ⟨stage.blocks + 2⟩ (Nat.le_add_right _ _) (Nat.lt_succ_self _))
    (able ⟨stage.blocks + 1⟩ (Nat.le_add_right _ _) (Nat.lt_succ_of_lt (Nat.lt_succ_self _)))
    (honest _ _ _ _ _) ?_
  intro compared last cleanLast steadyCompared headerCompared compares branches
  have enters : Enters limit stage counted.next rounded.next last :=
    .intro creates counts rounds starts jumps compares branches
  obtain ⟨counter, done, shape⟩ := enters.shape active.current
  have comparedShape := compares.emit_shape header.current
  have ending := compares.reaches.trans branches.reaches
  refine next _ _ last (ready.later enters.reaches (enters.tabled ready.tabled) ?_ ?_ cleanLast)
    enters (rounds.parameter_hasType.reaches (onward.trans ending))
    (starts.emit_hasType.reaches (jumps.reaches.trans ending))
  · refine branches.hop_descends headerCompared.current steadyCompared.descends ?_
    intro edge only
    have empty : stage.shape.predecessors ⟨stage.blocks + 1⟩ = [] :=
      bare.predecessors ⟨stage.blocks + 1⟩ (Nat.le_add_right _ _)
    rw [comparedShape, jumpedShape] at only
    simp [Shape.emit, Shape.switch, Shape.note, Shape.parameter, Shape.create, empty,
      Operation.destinations, Builder.edgesTo] at only
    rw [← only]
    exact Nat.lt_succ_self _
  · rw [shape]
    exact ⟨_, Shape.active_enterLoop bare active.inside⟩

/-- A loop is closed. -/
theorem leaveLoop {next : Value} {number : Nat} {rest : Lower β} (steady : Steady stage)
    {source : Label} (active : stage.shape.Active source)
    (inside : number + 2 < stage.shape.blocks)
    (header : stage.shape.isSealed ⟨number⟩ = false)
    (exit : stage.shape.isSealed ⟨number + 2⟩ = false)
    (entered : stage.shape.predecessors ⟨number⟩ ≠ [])
    (honest : Honest rest)
    (goes : ∀ last, last.recording.builder.misuse = none →
      Does (leaving next number) stage last → Meets sure rest last goal) :
    Meets sure (do
      Lowering.build (Build.jump ⟨⟨number⟩, [next]⟩)
      Lowering.build (Build.switchTo ⟨number + 2⟩)
      Lowering.build (Build.sealBlock ⟨number⟩)
      Lowering.build (Build.sealBlock ⟨number + 2⟩)
      rest) stage goal := by
  refine .leave (Build.jump_realizes _) rfl steady ⟨source, active⟩
    (fun _ => ⟨by simp [Operation.operands], ⟨?_, header, rfl⟩, inside⟩)
    (.bind (.sealBlock _) fun _ => .bind (.sealBlock _) fun _ => honest)
    fun left steadyLeft leaves => ?_
  · rw [stage.recording.hasBlock_iff]
    exact Nat.lt_of_succ_lt (Nat.lt_of_succ_lt inside)
  have shape := leaves.jump_shape active.current
  refine .andThen (fun _ => .bind (.sealBlock _) fun _ => honest)
    (.close steadyLeft fun _ => ⟨?_, ?_⟩) fun _ closed clean closes => ?_
  · rw [shape]
    exact Nat.lt_of_succ_lt (Nat.lt_of_succ_lt inside)
  · rw [shape]
    exact header
  have steadyClosed := closes.steady steadyLeft clean (by
    rintro label ⟨rfl⟩ edge only
    rw [shape] at only
    obtain ⟨first, others, split⟩ := List.exists_cons_of_ne_nil entered
    simp [Shape.switch, Shape.emit, split, Operation.destinations, Builder.edgesTo] at only)
  have closedShape : closed.shape = left.shape.close ⟨number⟩ := by
    obtain ⟨_ | ⟨performs, _ | _⟩, _⟩ := closes
    exact performs.shape_close
  refine .andThen (fun _ => honest) (.close steadyClosed fun _ => ⟨?_, ?_⟩)
    fun _ last cleanLast closesExit =>
      goes last cleanLast ((leaves.append closes).append closesExit)
  · rw [closedShape, shape]
    exact inside
  · rw [closedShape, shape]
    simpa [Shape.close, Shape.switch, Shape.emit, Shape.note] using exit

end Meets

end ExprLang.Lowering
