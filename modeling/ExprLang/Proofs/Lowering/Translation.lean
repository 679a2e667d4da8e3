import ExprLang.Proofs.Lowering.Requests

/-!
# Lowering follows the derivations

Whatever is lowered without a misuse has a derivation. And an expression is lowered without a
misuse if its names are bound, its calls are to known functions with the right number of
arguments, and its arrays are not too long.
-/

namespace ExprLang.Lowering

open Ssa

def Setting.Uniform (setting : Setting) : Prop :=
  ∀ id declaration, setting.module.declaration? id = some declaration →
    declaration.prototype.results = [.i64]

def Setting.arity (setting : Setting) (name : String) : Option Nat :=
  ((setting.callable.lookup name).bind setting.module.declaration?).map
    fun declaration => declaration.prototype.parameters.length

/-- The number of elements that an array has to stay below, so that the size of its slot is a
number of 32 bits. -/
def arrayLimit : Nat := 2 ^ 29 - 1

mutual

/-- An expression can be lowered behind the binding of some names, if functions have the given
numbers of parameters. -/
def Suited (arity : String → Option Nat) (names : List String) : Expr α → Prop
  | .integer _ _ | .boolean _ _ => True
  | .ident _ name => name ∈ names
  | .array _ elements => elements.length < arrayLimit ∧ SuitedAll arity names elements
  | .binary _ operator left right =>
    (∀ symbol, operator ≠ .unknown symbol) ∧ Suited arity names left ∧
      Suited arity (left.scope names) right
  | .bind _ _ value => Suited arity names value
  | .sequence _ first second =>
    Suited arity names first ∧ Suited arity (first.scope names) second
  | .call _ function arguments =>
    arity function = some arguments.length ∧ SuitedAll arity names arguments
  | .conditional _ condition onTrue onFalse =>
    Suited arity names condition ∧ Suited arity (condition.scope names) onTrue ∧
      Suited arity (onTrue.scope (condition.scope names)) onFalse
  | .index _ target position =>
    Suited arity names target ∧ Suited arity (target.scope names) position
  | .length _ target => Suited arity names target
  | .each _ name bound body =>
    Suited arity names bound ∧ Suited arity (name :: bound.scope names) body
  | .unknown _ _ _ => False

def SuitedAll (arity : String → Option Nat) (names : List String) : List (Expr α) → Prop
  | [] => True
  | tree :: trees => Suited arity names tree ∧ SuitedAll arity (tree.scope names) trees

end

/-! ## Slots -/

def Stage.Holds (stage : Stage) (slot : Slot) (count : Nat) : Prop :=
  ∃ size : UInt32, stage.recording.builder.function.slots[slot.index]? = some size ∧
    wordSize * count ≤ size.toNat

theorem toInt_wordOffset_le (index : Nat) :
    (wordOffset index).toInt ≤ (wordSize * index : Nat) := by
  rw [wordOffset, Int32.toInt_toInt64, Int32.toInt_ofNat', Int.bmod_def]
  simp only [Int32.size]
  split <;> omega

section Slots

variable {first last : Stage} {slot : Slot} {count : Nat}

theorem Stage.Holds.reaches (holds : first.Holds slot count) (reaches : Reaches first last) :
    last.Holds slot count := by
  obtain ⟨size, found, room⟩ := holds
  exact ⟨size, (Moves.grows reaches.moves).slot _ _ found, room⟩

theorem Does.reserve_slot {size : UInt32} (does : Does [.reserve size] first last) :
    last.recording.builder.function.slots[first.nextSlot.index]? = some size := by
  obtain ⟨_ | ⟨performs, _ | _⟩, _⟩ := does
  generalize last.recording = recording at performs
  cases performs
  simp [Recording.reserve, Stage.nextSlot]

theorem Does.reserve_holds (few : count < arrayLimit)
    (does : Does [.reserve (UInt32.ofNat (wordSize * (count + 1)))] first last) :
    last.Holds first.nextSlot (count + 1) := by
  refine ⟨_, does.reserve_slot, ?_⟩
  rw [UInt32.toNat_ofNat_of_lt']
  simp only [wordSize, arrayLimit, UInt32.size] at few ⊢
  omega

theorem Stage.Holds.fits (holds : first.Holds slot count) {index : Nat} (below : index < count)
    {value : Value} (typed : first.HasType value .i64) :
    (Operation.slotStore value slot (wordOffset index)).Fits first.recording.builder [] := by
  obtain ⟨size, found, room⟩ := holds
  refine ⟨size, found, ?_, rfl⟩
  have offset := toInt_wordOffset_le index
  rw [typed.type_eq]
  simp only [wordSize, MachineType.size] at offset room ⊢
  omega

end Slots

/-! ## Expressions -/

section Expressions

variable {setting : Setting} {names : List String} {stage : Stage}

theorem Setting.arity_eq_some {name : String} {count : Nat}
    (found : setting.arity name = some count) :
    ∃ id declaration, setting.callable.lookup name = some id ∧
      setting.module.declaration? id = some declaration ∧
      declaration.prototype.parameters.length = count := by
  rw [arity, Option.map_eq_some_iff] at found
  obtain ⟨declaration, found, length⟩ := found
  obtain ⟨id, callable, declared⟩ := Option.bind_eq_some_iff.mp found
  exact ⟨id, declaration, callable, declared, length⟩

theorem Lowers.length_values {work : Work} {values : List Value} {last : Stage}
    (lowers : Lowers setting work stage values last) :
    ∀ trees, work = .expressions trees → values.length = trees.length := by
  induction lowers with
  | nil =>
      rintro _ ⟨rfl⟩
      rfl
  | cons _ _ _ tail =>
      rintro _ ⟨rfl⟩
      simp [tail _ rfl]
  | _ => simp

/-- While the first arm of a condition is filled, the other new blocks stay as they are. -/
theorem Forks.others {test result : Value} {opened filled : Stage} {source : Label}
    (forks : Forks test stage result opened) (sound : Sound stage.recording)
    (active : stage.shape.Active source) (leftArm : Fills opened filled) :
    stage.blocks + 3 ≤ filled.shape.blocks ∧
      (∀ label : Label, stage.blocks < label.index → label.index < stage.blocks + 3 →
        filled.shape.isSealed label = false) ∧
      filled.shape.predecessors ⟨stage.blocks + 1⟩ = [⟨source, 1⟩] ∧
      ∀ (operation : Operation) (leftEnd : Label), filled.shape.Active leftEnd →
        (filled.shape.hop leftEnd operation ⟨stage.blocks + 1⟩).Active ⟨stage.blocks + 1⟩ := by
  have bare : stage.shape.Bare := Recording.bare sound
  have shape := forks.shape active.current
  have inLeft : opened.shape.Active ⟨stage.blocks⟩ := by
    rw [shape]
    exact Shape.active_fork bare active.inside
  obtain ⟨leftEnd, flows⟩ := leftArm.flows (forks.reaches.sound sound) inLeft
  rw [shape] at flows
  refine ⟨flows.before.blocks, fun label => flows.unsealed_fork bare, ?_, ?_⟩
  · rw [flows.apart.predecessors ⟨stage.blocks + 1⟩ (Nat.lt_succ_of_lt (Nat.lt_succ_self _)),
      Shape.predecessors_fork, bare.predecessors _ (Nat.le_add_right _ _)]
    simp [Builder.edgesTo, Stage.blocks]
  · intro operation other filledThere
    cases flows.active.current.symm.trans filledThere.current
    exact Shape.Flows.active_turn bare active.inside flows operation

/-- Behind the first arm of a condition the second one can be lowered. -/
theorem Forks.ready_turned {test result left : Value} {opened filled turned : Stage}
    {source : Label} (forks : Forks test stage result opened) (sound : Sound stage.recording)
    (active : stage.shape.Active source) (leftArm : Fills opened filled)
    (ready : Ready setting names filled)
    (turns : Does (hopping (.jump ⟨⟨stage.blocks + 2⟩, [left]⟩) ⟨stage.blocks + 1⟩) filled turned)
    (clean : turned.recording.builder.misuse = none) : Ready setting names turned := by
  obtain ⟨_, _, entered, turning⟩ := forks.others sound active leftArm
  obtain ⟨leftEnd, filledLeft⟩ := ready.active
  refine ready.later turns.reaches (turns.tabled rfl ready.tabled) ?_ ?_ clean
  · refine turns.hop_descends filledLeft.current ready.descends fun edge only => ?_
    simp [entered, Operation.destinations, Builder.edgesTo] at only
    rw [← only]
    exact Nat.lt_succ_of_lt active.inside
  · rw [turns.hop_shape filledLeft.current]
    exact ⟨_, turning _ leftEnd filledLeft⟩

/-- The block in which the arms of a condition meet stays open while they are filled. -/
theorem Forks.merge_open {test result left : Value} {opened filled turned done : Stage}
    {source : Label} (forks : Forks test stage result opened) (sound : Sound stage.recording)
    (active : stage.shape.Active source) (leftArm : Fills opened filled)
    (ready : Ready setting names filled)
    (turns : Does (hopping (.jump ⟨⟨stage.blocks + 2⟩, [left]⟩) ⟨stage.blocks + 1⟩) filled turned)
    (clean : turned.recording.builder.misuse = none) (rightArm : Fills turned done) :
    stage.blocks + 2 < done.shape.blocks ∧
      done.shape.isSealed ⟨stage.blocks + 2⟩ = false := by
  obtain ⟨blocks, unsealed, _, _⟩ := forks.others sound active leftArm
  have readyTurned := forks.ready_turned sound active leftArm ready turns clean
  obtain ⟨leftEnd, filledLeft⟩ := ready.active
  have shape := turns.hop_shape filledLeft.current
  have inside : stage.blocks + 2 < turned.shape.blocks := by
    rw [shape]
    exact blocks
  obtain ⟨start, filledTurned⟩ := readyTurned.active
  obtain ⟨rightEnd, toRight⟩ := rightArm.flows readyTurned.sound filledTurned
  refine ⟨Nat.lt_of_lt_of_le inside toRight.before.blocks, ?_⟩
  rw [toRight.apart.isSealed _ inside, shape]
  simpa [Shape.hop, Shape.close, Shape.switch, Shape.emit, Shape.note] using
    unsealed ⟨stage.blocks + 2⟩ (Nat.lt_succ_of_lt (Nat.lt_succ_self _)) (Nat.lt_succ_self _)

/-- While the body of a loop is filled, the other new blocks stay as they are. -/
theorem Enters.others {limit round one : Value} {opened advanced : Stage} {source : Label}
    (enters : Enters limit stage round one opened) (sound : Sound stage.recording)
    (active : stage.shape.Active source) (body : Fills opened advanced) :
    stage.blocks + 3 ≤ advanced.shape.blocks ∧
      advanced.shape.isSealed ⟨stage.blocks⟩ = false ∧
      advanced.shape.isSealed ⟨stage.blocks + 2⟩ = false ∧
      advanced.shape.predecessors ⟨stage.blocks⟩ ≠ [] := by
  have bare : stage.shape.Bare := Recording.bare sound
  obtain ⟨counter, done, shape⟩ := enters.shape active.current
  have inBody : opened.shape.Active ⟨stage.blocks + 1⟩ := by
    rw [shape]
    exact Shape.active_enterLoop bare active.inside
  obtain ⟨bodyEnd, flows⟩ := body.flows (enters.reaches.sound sound) inBody
  rw [shape] at flows
  refine ⟨flows.before.blocks, flows.unsealed_loop bare (Nat.le_refl _) ?_ ?_,
    flows.unsealed_loop bare (Nat.le_add_right _ _) (Nat.lt_succ_self _) ?_, ?_⟩
  · exact Nat.lt_add_of_pos_right (show 0 < 3 by decide)
  · simp
  · simp
  · rw [flows.apart.predecessors ⟨stage.blocks⟩ (Nat.lt_add_of_pos_right (show 0 < 3 by decide)),
      Shape.predecessors_enterLoop]
    simp [Builder.edgesTo, Stage.blocks]

def Conforms (setting : Setting) (tree : Expr Typing) : Prop :=
  ∀ {names : List String} {stage : Stage}, Ready setting names stage →
    Meets (Suited setting.arity names tree) (Lowering.expression setting tree) stage
      fun value last => Lowers setting (.expression tree) stage [value] last

/-- Some expressions are lowered one after the other as they should be. -/
def ConformsAll (setting : Setting) (trees : List (Expr Typing)) : Prop :=
  ∀ {names : List String} {stage : Stage}, Ready setting names stage →
    Meets (SuitedAll setting.arity names trees) (Lowering.expressions setting trees) stage
      fun values last => Lowers setting (.expressions trees) stage values last

def Stores (setting : Setting) (slot : Slot) (index : Nat) (trees : List (Expr Typing)) : Prop :=
  ∀ {names : List String} {stage : Stage}, Ready setting names stage →
    Meets (SuitedAll setting.arity names trees ∧ stage.Holds slot (index + trees.length))
      (Lowering.storeElements setting slot index trees) stage
      fun _ last => Lowers setting (.elements slot index trees) stage [] last

namespace Meets

theorem constant {sure : Prop} (ready : Ready setting names stage) (word : Int64) :
    Meets sure (Lowering.build (Build.constant .i64 word)) stage fun value last =>
      value = stage.next ∧ Does [.emit (.constant .i64 word) [.i64]] stage last :=
  .emit (Build.constant_realizes .i64 word) rfl ready.toSteady ready.active fun _ =>
    ⟨by simp [Operation.operands], rfl⟩

theorem arithmetic {sure : Prop} (ready : Ready setting names stage) {operation : Arithmetic}
    {left right : Value} (leftTyped : stage.HasType left .i64)
    (rightTyped : stage.HasType right .i64) :
    Meets sure (Lowering.build (Build.arithmetic operation left right)) stage fun value last =>
      value = stage.next ∧
        Does [.emit (.arithmetic operation left right) [.i64]] stage last :=
  .emit (Build.arithmetic_realizes operation left right) (by rw [leftTyped.type_eq])
    ready.toSteady ready.active fun _ =>
      ⟨by simpa [Operation.operands] using ⟨leftTyped.exist, rightTyped.exist⟩,
        leftTyped.type_eq.trans rightTyped.type_eq.symm, by rw [leftTyped.type_eq]⟩

theorem load {sure : Prop} (ready : Ready setting names stage) {address : Value}
    (typed : stage.HasType address .i64) :
    Meets sure (Lowering.build (Build.load .i64 address 0)) stage fun value last =>
      value = stage.next ∧ Does [.emit (.load .i64 address (wordOffset 0)) [.i64]] stage last :=
  .emit (Build.load_realizes .i64 address 0) rfl ready.toSteady ready.active fun _ =>
    ⟨by simpa [Operation.operands] using typed.exist, rfl⟩

theorem slotStore {sure : Prop} (ready : Ready setting names stage) {value : Value} {slot : Slot}
    {index : Nat} (typed : stage.HasType value .i64)
    (able : sure → ∃ count, index < count ∧ stage.Holds slot count) :
    Meets sure (Lowering.build (Build.slotStore value slot (Int32.ofNat (wordSize * index))))
      stage fun _ last =>
        Does [.emit (.slotStore value slot (wordOffset index)) []] stage last := by
  refine (Meets.emit (Build.slotStore_realizes value slot _) rfl ready.toSteady ready.active
    fun certain => ⟨?_, ?_⟩).mono fun _ _ holds => holds.2
  · simpa [Operation.operands] using typed.exist
  · obtain ⟨count, below, holds⟩ := able certain
    exact holds.fits below typed

/-! ### Steps and what follows them -/

/-- An expression is evaluated, and then the rest is done with a word. -/
theorem evaluate {tree : Expr Typing} {rest : Value → Lower α} {goal : α → Stage → Prop}
    {sure : Prop} (conforms : Conforms setting tree) (ready : Ready setting names stage)
    (suited : sure → Suited setting.arity names tree)
    (honest : ∀ value, Honest (rest value))
    (next : ∀ value last, Lowers setting (.expression tree) stage [value] last →
      Ready setting (tree.scope names) last → last.HasType value .i64 →
      Meets sure (rest value) last goal) :
    Meets sure (Lowering.expression setting tree >>= rest) stage goal :=
  .andThen honest ((conforms ready).imply suited) fun value last clean lowers =>
    next value last lowers (lowers.ready ready clean)
      (lowers.hasType ready.sound ready.tabled value List.mem_cons_self)

/-- An instruction with one result is emitted, and then the rest is done with the result. -/
theorem emitted {step : Lower Value} {operation : Operation} {type : MachineType}
    {rest : Value → Lower α} {goal : α → Stage → Prop} {sure : Prop}
    (plain : operation.isTerminator = false) (ready : Ready setting names stage)
    (meets : Meets sure step stage fun value last =>
      value = stage.next ∧ Does [.emit operation [type]] stage last)
    (honest : ∀ value, Honest (rest value))
    (next : ∀ last, Does [.emit operation [type]] stage last → Ready setting names last →
      last.HasType stage.next type → Meets sure (rest stage.next) last goal) :
    Meets sure (step >>= rest) stage goal := by
  refine .andThen honest meets ?_
  rintro _ last clean ⟨rfl, emits⟩
  exact next last emits (emits.emit_ready plain ready clean) emits.emit_hasType

end Meets

/-! ### Compound expressions -/

namespace Conforms

theorem arithmetic {note : Typing} {operation : Arithmetic} {left right : Expr Typing}
    (ofLeft : Conforms setting left) (ofRight : Conforms setting right) :
    Conforms setting (.binary note (.arithmetic operation) left right) := by
  intro names stage ready
  rw [Lowering.expression]
  refine .evaluate ofLeft ready (fun sure => sure.2.1)
    (fun _ => .bind (.expression _ _) fun _ => .arithmetic _ _ _) ?_
  intro leftValue middle onLeft readyMiddle leftTyped
  refine .evaluate ofRight readyMiddle (fun sure => sure.2.2) (fun _ => .arithmetic _ _ _) ?_
  intro rightValue last onRight readyLast rightTyped
  refine (Meets.arithmetic readyLast (leftTyped.reaches onRight.reaches) rightTyped).mono ?_
  rintro _ final ⟨rfl, emits⟩
  exact .arithmetic onLeft onRight emits

theorem comparison {note : Typing} {relation : Comparison} {left right : Expr Typing}
    (ofLeft : Conforms setting left) (ofRight : Conforms setting right) :
    Conforms setting (.binary note (.comparison relation) left right) := by
  intro names stage ready
  rw [Lowering.expression]
  refine .evaluate ofLeft ready (fun sure => sure.2.1)
    (fun _ => .bind (.expression _ _) fun _ => .bind (.compare _ _ _) fun _ => .signExtend _ _) ?_
  intro leftValue middle onLeft readyMiddle leftTyped
  refine .evaluate ofRight readyMiddle (fun sure => sure.2.2)
    (fun _ => .bind (.compare _ _ _) fun _ => .signExtend _ _) ?_
  intro rightValue last onRight readyLast rightTyped
  have leftThen := leftTyped.reaches onRight.reaches
  refine .emitted rfl readyLast (.emit (Build.compare_realizes _ _ _) rfl readyLast.toSteady
    readyLast.active fun _ => ⟨?_, ?_⟩) (fun _ => .signExtend _ _) ?_
  · simpa [Operation.operands] using ⟨leftThen.exist, rightTyped.exist⟩
  · exact ⟨leftThen.type_eq.trans rightTyped.type_eq.symm, rfl⟩
  intro compared compares readyCompared bit
  refine (Meets.emit (Build.signExtend_realizes _ _) rfl readyCompared.toSteady
    readyCompared.active fun _ => ⟨?_, rfl⟩).mono ?_
  · simpa [Operation.operands] using bit.exist
  · rintro _ final ⟨rfl, widens⟩
    exact .comparison onLeft onRight compares widens

theorem bind {note : Typing} {name : String} {value : Expr Typing}
    (ofValue : Conforms setting value) : Conforms setting (.bind note name value) := by
  intro names stage ready
  rw [Lowering.expression]
  refine .evaluate ofValue ready id (fun _ => .bind (.bindName _ _) fun _ => .pure _) ?_
  intro word middle inner readyMiddle typed
  refine .andThen (fun _ => .pure _) (Meets.bindName readyMiddle typed) ?_
  intro _ last clean binds
  exact .pure clean (.bind inner binds)

theorem sequence {note : Typing} {first second : Expr Typing} (ofFirst : Conforms setting first)
    (ofSecond : Conforms setting second) : Conforms setting (.sequence note first second) := by
  intro names stage ready
  rw [Lowering.expression]
  refine .evaluate ofFirst ready (fun sure => sure.1) (fun _ => .expression _ _) ?_
  intro _ middle onFirst readyMiddle _
  exact ((ofSecond readyMiddle).imply fun sure => sure.2).mono fun _ _ onSecond =>
    .sequence onFirst onSecond

theorem call (uniform : setting.Uniform) {note : Typing} {function : String}
    {arguments : List (Expr Typing)} (ofArguments : ConformsAll setting arguments) :
    Conforms setting (.call note function arguments) := by
  intro names stage ready
  rw [Lowering.expression]
  refine .andThen (fun _ => .bind (.expressions _ _) fun _ => .bind (.call _ _) fun results =>
    by cases results <;> simp) (Meets.reference ready.clean fun sure => ?_) ?_
  · obtain ⟨id, declaration, callable, declared, _⟩ := Setting.arity_eq_some sure.1
    exact ⟨id, declaration, callable, declared⟩
  intro target named clean refers
  have readyNamed := refers.ready ready clean
  obtain ⟨id, declaration, callable, declared, placed⟩ := refers.external ready.tabled
  refine .andThen (fun _ => .bind (.call _ _) fun results => by cases results <;> simp)
    ((ofArguments readyNamed).imply fun sure => sure.2) ?_
  intro values passed cleanPassed onArguments
  have readyPassed := onArguments.ready readyNamed cleanPassed
  have placedThen := (Moves.grows onArguments.reaches.moves).reference _ _ placed
  have results : Build.resultTypes target passed.recording.builder = [.i64] := by
    simp [Build.resultTypes, placedThen, uniform id declaration declared]
  refine .andThen (fun results => by cases results <;> simp)
    (.emit (Build.call_realizes target values) results readyPassed.toSteady
      readyPassed.active fun sure => ⟨?_, ?_⟩) ?_
  · intro value member
    exact (onArguments.hasType readyNamed.sound readyNamed.tabled value member).exist
  · obtain ⟨other, known, same, found, length⟩ := Setting.arity_eq_some sure.1
    rw [callable] at same
    cases same
    rw [declared] at found
    cases found
    exact ⟨_, placedThen, by rw [onArguments.length_values _ rfl]; exact length.symm,
      (uniform id declaration declared).symm⟩
  rintro _ last cleanLast ⟨rfl, emits⟩
  rw [results]
  exact .pure cleanLast (.call refers onArguments emits)

theorem conditional {note : Typing} {test onTrue onFalse : Expr Typing}
    (ofTest : Conforms setting test) (ofTrue : Conforms setting onTrue)
    (ofFalse : Conforms setting onFalse) :
    Conforms setting (.conditional note test onTrue onFalse) := by
  intro names stage ready
  rw [Lowering.expression]
  have honestJoin : ∀ (merge : Label) (result falseValue : Value), Honest (do
      Lowering.build (Build.jump ⟨merge, [falseValue]⟩)
      Lowering.build (Build.switchTo merge)
      Lowering.build (Build.sealBlock merge)
      return result) := fun _ _ _ =>
    .bind (.jump _) fun _ => .bind (.switchTo _) fun _ => .bind (.sealBlock _) fun _ => .pure _
  have honestTurn : ∀ (falseBlock merge : Label) (result trueValue : Value), Honest (do
      Lowering.build (Build.jump ⟨merge, [trueValue]⟩)
      Lowering.build (Build.switchTo falseBlock)
      Lowering.build (Build.sealBlock falseBlock)
      let falseValue ← Lowering.expression setting onFalse
      Lowering.build (Build.jump ⟨merge, [falseValue]⟩)
      Lowering.build (Build.switchTo merge)
      Lowering.build (Build.sealBlock merge)
      return result) := fun _ _ _ _ =>
    .bind (.jump _) fun _ => .bind (.switchTo _) fun _ => .bind (.sealBlock _) fun _ =>
      .bind (.expression _ _) fun _ => honestJoin _ _ _
  refine .evaluate ofTest ready (fun sure => sure.1) (fun _ => .bind .createBlock fun _ =>
    .bind .createBlock fun _ => .bind .createBlock fun _ => .bind (.appendParameter _ _)
      fun _ => .bind (.branch _ _ _) fun _ => .bind (.switchTo _) fun _ =>
        .bind (.sealBlock _) fun _ => .bind (.expression _ _) fun _ => honestTurn _ _ _ _) ?_
  intro testValue tested onTest readyTested testTyped
  obtain ⟨source, active⟩ := readyTested.active
  refine .fork readyTested testTyped
    (fun _ _ _ _ => .bind (.expression _ _) fun _ => honestTurn _ _ _ _)
    fun result opened readyOpened forks => ?_
  refine .evaluate ofTrue readyOpened (fun sure => sure.2.1) (fun _ => honestTurn _ _ _ _) ?_
  intro left filled leftArm readyFilled leftTyped
  obtain ⟨blocks, unsealed, _, _⟩ := forks.others readyTested.sound active leftArm.fills
  refine .hop (Build.jump_realizes _) rfl readyFilled.toSteady readyFilled.active
    (fun _ => ⟨by simp [Operation.operands], ⟨?_, unsealed ⟨tested.blocks + 2⟩
      (Nat.lt_succ_of_lt (Nat.lt_succ_self _)) (Nat.lt_succ_self _), rfl⟩, ?_⟩)
    (unsealed ⟨tested.blocks + 1⟩ (Nat.lt_succ_self _) (Nat.lt_succ_of_lt (Nat.lt_succ_self _)))
    (.bind (.expression _ _) fun _ => honestJoin _ _ _) fun turned cleanTurned turns => ?_
  · rw [filled.recording.hasBlock_iff]
    exact blocks
  · exact Nat.lt_of_succ_lt blocks
  have readyTurned := forks.ready_turned readyTested.sound active leftArm.fills readyFilled turns
    cleanTurned
  refine .evaluate ofFalse readyTurned (fun sure => sure.2.2) (fun _ => honestJoin _ _ _) ?_
  intro right done rightArm readyDone rightTyped
  obtain ⟨inside, unsealedDone⟩ := forks.merge_open readyTested.sound active leftArm.fills
    readyFilled turns cleanTurned rightArm.fills
  refine .hop (Build.jump_realizes _) rfl readyDone.toSteady readyDone.active
    (fun _ => ⟨by simp [Operation.operands], ⟨?_, unsealedDone, rfl⟩, inside⟩)
    unsealedDone (.pure _) fun last cleanLast joins => ?_
  · rw [done.recording.hasBlock_iff]
    exact inside
  exact .pure cleanLast (.conditional onTest forks leftArm turns rightArm joins)

theorem each {note : Typing} {name : String} {bound body : Expr Typing}
    (ofBound : Conforms setting bound) (ofBody : Conforms setting body) :
    Conforms setting (.each note name bound body) := by
  intro names stage ready
  rw [Lowering.expression]
  have honestLeave : ∀ (header exit : Label) (next : Value), Honest (do
      Lowering.build (Build.jump ⟨header, [next]⟩)
      Lowering.build (Build.switchTo exit)
      Lowering.build (Build.sealBlock header)
      Lowering.build (Build.sealBlock exit)
      Lowering.build (Build.constant .i64 0)) := fun _ _ _ =>
    .bind (.jump _) fun _ => .bind (.switchTo _) fun _ => .bind (.sealBlock _) fun _ =>
      .bind (.sealBlock _) fun _ => .constant _ _
  have honestBody : ∀ (header exit : Label) (round one : Value), Honest (do
      Lowering.bindName name round
      let _ ← Lowering.expression setting body
      let next ← Lowering.build (Build.arithmetic .add round one)
      Lowering.build (Build.jump ⟨header, [next]⟩)
      Lowering.build (Build.switchTo exit)
      Lowering.build (Build.sealBlock header)
      Lowering.build (Build.sealBlock exit)
      Lowering.build (Build.constant .i64 0)) := fun _ _ _ _ =>
    .bind (.bindName _ _) fun _ => .bind (.expression _ _) fun _ =>
      .bind (.arithmetic _ _ _) fun _ => honestLeave _ _ _
  refine .evaluate ofBound ready (fun sure => sure.1) (fun _ => .bind .createBlock fun _ =>
    .bind .createBlock fun _ => .bind .createBlock fun _ => .bind (.appendParameter _ _)
      fun _ => .bind (.appendParameter _ _) fun _ => .bind (.constant _ _) fun _ =>
        .bind (.jump _) fun _ => .bind (.switchTo _) fun _ => .bind (.compare _ _ _) fun _ =>
          .bind (.branch _ _ _) fun _ => .bind (.switchTo _) fun _ => .bind (.sealBlock _)
            fun _ => honestBody _ _ _ _) ?_
  intro limit limited onBound readyLimited limitTyped
  obtain ⟨source, active⟩ := readyLimited.active
  refine .enter readyLimited limitTyped (fun _ _ _ _ _ => honestBody _ _ _ _)
    fun round one opened readyOpened enters roundTyped oneTyped => ?_
  refine .andThen (fun _ => .bind (.expression _ _) fun _ => .bind (.arithmetic _ _ _)
    fun _ => honestLeave _ _ _) (Meets.bindName readyOpened roundTyped) ?_
  intro _ inside cleanInside binds
  have readyInside := binds.ready readyOpened cleanInside
  refine .evaluate ofBody readyInside (fun sure => sure.2)
    (fun _ => .bind (.arithmetic _ _ _) fun _ => honestLeave _ _ _) ?_
  intro value filled inLoop readyFilled _
  have onward := binds.reaches.trans inLoop.reaches
  refine .emitted rfl readyFilled (Meets.arithmetic readyFilled (roundTyped.reaches onward)
    (oneTyped.reaches onward)) (fun _ => honestLeave _ _ _) ?_
  intro advanced advances readyAdvanced _
  have fills : Fills opened advanced := by
    refine ⟨onward.trans advances.reaches, fun sound active => ?_⟩
    have bound := binds.flows active
    obtain ⟨target, flows⟩ := inLoop.flows readyInside.sound bound.active
    exact ⟨target, bound.trans (flows.trans (advances.emit_flows rfl flows.active))⟩
  obtain ⟨blocks, header, exit, entered⟩ := enters.others readyLimited.sound active fills
  obtain ⟨bodyEnd, filledEnd⟩ := readyAdvanced.active
  refine .leaveLoop readyAdvanced.toSteady filledEnd blocks header exit entered
    (.constant _ _) fun left cleanLeft leaves => ?_
  have whole := enters.flows readyLimited.sound active binds inLoop.fills advances leaves
  obtain ⟨_, _, _, _, _, flows⟩ := whole
  have reaches := enters.reaches.trans (fills.reaches.trans leaves.reaches)
  have readyLeft := readyLimited.flows reaches (leaves.tabled rfl readyAdvanced.tabled) flows
    cleanLeft
  refine (Meets.constant readyLeft 0).mono ?_
  rintro _ last ⟨rfl, emits⟩
  exact .each onBound enters binds inLoop advances leaves emits

theorem array {note : Typing} {elements : List (Expr Typing)}
    (stores : ∀ slot, Stores setting slot 1 elements) :
    Conforms setting (.array note elements) := by
  intro names stage ready
  rw [Lowering.expression]
  refine .andThen (fun _ => .bind (.constant _ _) fun _ => .bind (.slotStore _ _ _) fun _ =>
    .bind (.storeElements _ _ _ _) fun _ => .slotAddress _ _) (Meets.reserve ready.clean) ?_
  rintro _ reserved cleanReserved ⟨rfl, reserves⟩
  have readyReserved := reserves.reserve_ready ready cleanReserved
  have room : elements.length < arrayLimit →
      reserved.Holds stage.nextSlot (elements.length + 1) := reserves.reserve_holds
  refine .emitted rfl readyReserved (Meets.constant readyReserved (Int64.ofNat elements.length))
    (fun _ => .bind (.slotStore _ _ _) fun _ => .bind (.storeElements _ _ _ _) fun _ =>
      .slotAddress _ _) ?_
  intro counted counts readyCounted countTyped
  refine .andThen (fun _ => .bind (.storeElements _ _ _ _) fun _ => .slotAddress _ _)
    (@Meets.slotStore _ _ _ _ readyCounted _ _ 0 countTyped fun sure =>
      ⟨_, Nat.succ_pos _, (room sure.1).reaches counts.reaches⟩) ?_
  intro _ started cleanStarted starts
  have readyStarted := starts.emit_ready rfl readyCounted cleanStarted
  refine .andThen (fun _ => .slotAddress _ _)
    ((stores stage.nextSlot readyStarted).imply fun sure => ⟨sure.2, ?_⟩) ?_
  · rw [Nat.add_comm]
    exact (room sure.1).reaches (counts.reaches.trans starts.reaches)
  intro _ filled cleanFilled stored
  have readyFilled := stored.ready readyStarted cleanFilled
  refine (Meets.emit (Build.slotAddress_realizes _ _) rfl readyFilled.toSteady
    readyFilled.active fun _ => ⟨by simp [Operation.operands], rfl, ?_, rfl⟩).mono ?_
  · have found := (Moves.grows (counts.reaches.trans
      (starts.reaches.trans stored.reaches)).moves).slot _ _ reserves.reserve_slot
    exact (Array.getElem?_eq_some_iff.mp found).1
  · rintro _ last ⟨rfl, locates⟩
    exact .array reserves counts starts stored locates

theorem index {note : Typing} {target position : Expr Typing} (ofTarget : Conforms setting target)
    (ofPosition : Conforms setting position) : Conforms setting (.index note target position) := by
  intro names stage ready
  rw [Lowering.expression]
  have honestEnd : ∀ place word base : Value, Honest (do
      let offset ← Lowering.build (Build.arithmetic .multiply place word)
      let address ← Lowering.build (Build.arithmetic .add base offset)
      Lowering.build (Build.load .i64 address 0)) := fun _ _ _ =>
    .bind (.arithmetic _ _ _) fun _ => .bind (.arithmetic _ _ _) fun _ => .load _ _ _
  refine .evaluate ofTarget ready (fun sure => sure.1) (fun _ => .bind (.expression _ _) fun _ =>
    .bind (.constant _ _) fun _ => .bind (.constant _ _) fun _ => .bind (.arithmetic _ _ _)
      fun _ => honestEnd _ _ _) ?_
  intro base based onTarget readyBased baseTyped
  refine .evaluate ofPosition readyBased (fun sure => sure.2) (fun _ => .bind (.constant _ _)
    fun _ => .bind (.constant _ _) fun _ => .bind (.arithmetic _ _ _) fun _ =>
      honestEnd _ _ _) ?_
  intro position reached onPosition readyReached positionTyped
  refine .emitted rfl readyReached (Meets.constant readyReached 1) (fun _ =>
    .bind (.constant _ _) fun _ => .bind (.arithmetic _ _ _) fun _ => honestEnd _ _ _) ?_
  intro one ones readyOne oneTyped
  refine .emitted rfl readyOne (Meets.constant readyOne (Int64.ofNat wordSize))
    (fun _ => .bind (.arithmetic _ _ _) fun _ => honestEnd _ _ _) ?_
  intro word words readyWord wordTyped
  refine .emitted rfl readyWord (Meets.arithmetic readyWord
    (positionTyped.reaches (ones.reaches.trans words.reaches)) (oneTyped.reaches words.reaches))
    (fun _ => honestEnd _ _ _) ?_
  intro placed places readyPlaced placeTyped
  refine .emitted rfl readyPlaced (Meets.arithmetic readyPlaced placeTyped
    (wordTyped.reaches places.reaches)) (fun _ => .bind (.arithmetic _ _ _) fun _ =>
      .load _ _ _) ?_
  intro scaled scales readyScaled offsetTyped
  refine .emitted rfl readyScaled (Meets.arithmetic readyScaled
    (baseTyped.reaches (onPosition.reaches.trans (ones.reaches.trans (words.reaches.trans
      (places.reaches.trans scales.reaches))))) offsetTyped) (fun _ => .load _ _ _) ?_
  intro located locates readyLocated addressTyped
  refine (Meets.load readyLocated addressTyped).mono ?_
  rintro _ last ⟨rfl, loads⟩
  exact .index onTarget onPosition ones words places scales locates loads

theorem length {note : Typing} {target : Expr Typing} (ofTarget : Conforms setting target) :
    Conforms setting (.length note target) := by
  intro names stage ready
  rw [Lowering.expression]
  refine .evaluate ofTarget ready id (fun _ => .load _ _ _) ?_
  intro base based onTarget readyBased typed
  refine (Meets.load readyBased typed).mono ?_
  rintro _ last ⟨rfl, loads⟩
  exact .length onTarget loads

end Conforms

theorem Stores.cons {slot : Slot} {index : Nat} {tree : Expr Typing} {trees : List (Expr Typing)}
    (conforms : Conforms setting tree) (others : Stores setting slot (index + 1) trees) :
    Stores setting slot index (tree :: trees) := by
  intro names stage ready
  rw [Lowering.storeElements]
  refine .evaluate conforms ready (fun sure => sure.1.1)
    (fun _ => .bind (.slotStore _ _ _) fun _ => .storeElements _ _ _ _) ?_
  intro value middle head readyMiddle typed
  refine .andThen (fun _ => .storeElements _ _ _ _) (Meets.slotStore readyMiddle typed fun sure =>
    ⟨_, ?_, sure.2.reaches head.reaches⟩) ?_
  · simp
  intro _ stored clean stores
  refine ((others (stores.emit_ready rfl readyMiddle clean)).imply fun sure =>
    ⟨sure.1.2, ?_⟩).mono ?_
  · have holds := sure.2.reaches (head.reaches.trans stores.reaches)
    rwa [List.length_cons, Nat.add_comm trees.length, ← Nat.add_assoc] at holds
  · intro _ last tail
    exact .store head stores tail

namespace Meets

mutual

theorem expression (uniform : setting.Uniform) (tree : Expr Typing) {names : List String}
    {stage : Stage} (ready : Ready setting names stage) :
    Meets (Suited setting.arity names tree) (Lowering.expression setting tree) stage
      fun value last => Lowers setting (.expression tree) stage [value] last := by
  cases tree with
  | integer note value =>
      rw [Lowering.expression]
      refine (constant ready value).mono ?_
      rintro _ last ⟨rfl, emits⟩
      exact .integer emits
  | boolean note value =>
      rw [Lowering.expression]
      refine (constant ready (truthWord value)).mono ?_
      rintro _ last ⟨rfl, emits⟩
      exact .boolean emits
  | ident note name =>
      rw [Lowering.expression]
      refine .get ?_
      have bound : stage.state.bound.lookup name = (cell? name names).map Variable.mk := by
        rw [Stage.state, ready.tabled.bound, lookup_numbered]
      cases found : cell? name names with
      | none =>
          rw [bound, found]
          refine .blame fun member => ?_
          have some := cell?_isSome member
          rw [found] at some
          cases some
      | some cell =>
          rw [bound, found]
          rw [found] at bound
          exact (use ready (cell?_lt found)).mono fun value last uses => .ident bound uses
  | binary note operator left right =>
      cases operator with
      | comparison =>
          exact Conforms.comparison (fun ready => expression uniform left ready)
            (fun ready => expression uniform right ready) ready
      | arithmetic =>
          exact Conforms.arithmetic (fun ready => expression uniform left ready)
            (fun ready => expression uniform right ready) ready
      | unknown symbol =>
          rw [Lowering.expression]
          refine .evaluate (fun ready => expression uniform left ready) ready
            (fun sure => sure.2.1) (fun _ => .bind (.expression _ _) fun _ => .blame _ _ _)
            fun _ _ _ readyMiddle _ => ?_
          refine .evaluate (fun ready => expression uniform right ready) readyMiddle
            (fun sure => sure.2.2) (fun _ => .blame _ _ _) fun _ _ _ _ _ => ?_
          exact .blame fun sure => sure.1 symbol rfl
  | bind note name value =>
      exact Conforms.bind (fun ready => expression uniform value ready) ready
  | sequence note first second =>
      exact Conforms.sequence (fun ready => expression uniform first ready)
        (fun ready => expression uniform second ready) ready
  | call note function arguments =>
      exact Conforms.call uniform (fun ready => expressions uniform arguments ready) ready
  | conditional note test onTrue onFalse =>
      exact Conforms.conditional (fun ready => expression uniform test ready)
        (fun ready => expression uniform onTrue ready)
        (fun ready => expression uniform onFalse ready) ready
  | each note name bound body =>
      exact Conforms.each (fun ready => expression uniform bound ready)
        (fun ready => expression uniform body ready) ready
  | array note elements =>
      exact Conforms.array (fun slot _ _ ready => storeElements uniform slot 1 elements ready) ready
  | index note target position =>
      exact Conforms.index (fun ready => expression uniform target ready)
        (fun ready => expression uniform position ready) ready
  | length note target =>
      exact Conforms.length (fun ready => expression uniform target ready) ready
  | unknown note kind children =>
      rw [Lowering.expression]
      exact .blame id

theorem expressions (uniform : setting.Uniform) (trees : List (Expr Typing))
    {names : List String} {stage : Stage} (ready : Ready setting names stage) :
    Meets (SuitedAll setting.arity names trees) (Lowering.expressions setting trees) stage
      fun values last => Lowers setting (.expressions trees) stage values last := by
  cases trees with
  | nil =>
      rw [Lowering.expressions]
      exact .pure ready.clean .nil
  | cons tree trees =>
      rw [Lowering.expressions]
      refine .andThen (fun _ => .bind (.expressions _ _) fun _ => .pure _)
        ((expression uniform tree ready).imply fun sure => sure.1) ?_
      intro value middle clean head
      refine .andThen (fun _ => .pure _) ((expressions uniform trees
        (head.ready ready clean)).imply fun sure => sure.2) ?_
      intro values last cleanLast tail
      exact .pure cleanLast (.cons head tail)

theorem storeElements (uniform : setting.Uniform) (slot : Slot) (index : Nat)
    (trees : List (Expr Typing)) {names : List String} {stage : Stage}
    (ready : Ready setting names stage) :
    Meets (SuitedAll setting.arity names trees ∧ stage.Holds slot (index + trees.length))
      (Lowering.storeElements setting slot index trees) stage
      fun _ last => Lowers setting (.elements slot index trees) stage [] last := by
  cases trees with
  | nil =>
      rw [Lowering.storeElements]
      exact .pure ready.clean .stop
  | cons tree trees =>
      exact Stores.cons (fun ready => expression uniform tree ready)
        (fun ready => storeElements uniform slot (index + 1) trees ready) ready

end

end Meets

end Expressions

end ExprLang.Lowering
