import ExprLang.Lowering.Body
import ExprLang.Proofs.Ssa.Flow

/-!
# Derivations of lowered code

What the caller of a builder does to lower an expression, one rule for each kind of expression.
Everything about lowered code is proved by induction over these rules.
-/

namespace ExprLang.Lowering

open Ssa

def firstBlock : Label := ⟨0⟩

/-- A stage of lowering a function: the state, with the recording of its builder. -/
structure Stage where
  recording : Recording
  bound : List (String × Variable)
  variableCount : Nat
  references : List (String × Reference)

namespace Stage

def state (stage : Stage) : State :=
  ⟨stage.recording.builder, stage.bound, stage.variableCount, stage.references⟩

def next (stage : Stage) : Value :=
  stage.recording.builder.nextValue

def nextSlot (stage : Stage) : Slot :=
  ⟨stage.recording.builder.function.slots.size⟩

def shape (stage : Stage) : Shape :=
  stage.recording.shape

abbrev blocks (stage : Stage) : Nat :=
  stage.shape.blocks

end Stage

structure Does (deeds : List Deed) (stage later : Stage) : Prop where
  performs : PerformsAll (some firstBlock) deeds stage.recording later.recording
  same : later = { stage with recording := later.recording }

structure Binds (name : String) (value : Value) (stage later : Stage) : Prop where
  performs : PerformsAll (some firstBlock)
    [.declare ⟨stage.variableCount⟩ .i64, .define ⟨stage.variableCount⟩ value]
    stage.recording later.recording
  same : later = {
    recording := later.recording
    bound := (name, ⟨stage.variableCount⟩) :: stage.bound
    variableCount := stage.variableCount + 1
    references := stage.references }

inductive Refers (setting : Setting) (name : String) : Stage → Reference → Stage → Prop
  | known {stage : Stage} {reference : Reference}
      (found : stage.references.lookup name = some reference) :
      Refers setting name stage reference stage
  | again {stage : Stage} {reference : Reference} {id : FunctionId}
      (fresh : stage.references.lookup name = none)
      (callable : setting.callable.lookup name = some id)
      (found : stage.recording.builder.imports.lookup id = some reference) :
      Refers setting name stage reference
        { stage with references := (name, reference) :: stage.references }
  | new {stage : Stage} {id : FunctionId} {declaration : Declaration}
      (fresh : stage.references.lookup name = none)
      (callable : setting.callable.lookup name = some id)
      (unknown : stage.recording.builder.imports.lookup id = none)
      (declared : setting.module.declaration? id = some declaration) :
      Refers setting name stage ⟨stage.recording.builder.function.references.size⟩
        { stage with
          recording := stage.recording.refer ⟨id, declaration.name, declaration.prototype⟩
          references :=
            (name, ⟨stage.recording.builder.function.references.size⟩) :: stage.references }

def hopping (operation : Operation) (target : Label) : List Deed :=
  [.emit operation [], .switch target, .close target]

inductive Forks (test : Value) : Stage → Value → Stage → Prop
  | intro {first made joined last : Stage}
      (creates : Does [.create, .create, .create] first made)
      (merges : Does [.parameter ⟨first.blocks + 2⟩ .i64] made joined)
      (branches : Does (hopping
        (.branch test ⟨⟨first.blocks⟩, []⟩ ⟨⟨first.blocks + 1⟩, []⟩) ⟨first.blocks⟩)
        joined last) :
      Forks test first made.next last

/-- A loop is opened, with parameters for the counter at its start and in its body, and the
value by which it is increased. -/
inductive Enters (limit : Value) : Stage → (round one : Value) → Stage → Prop
  | intro {first made counted rounded started jumped compared last : Stage}
      (creates : Does [.create, .create, .create] first made)
      (counts : Does [.parameter ⟨first.blocks⟩ .i64] made counted)
      (rounds : Does [.parameter ⟨first.blocks + 1⟩ .i64] counted rounded)
      (starts : Does [.emit (.constant .i64 1) [.i64]] rounded started)
      (jumps : Does [.emit (.jump ⟨⟨first.blocks⟩, [rounded.next]⟩) [],
        .switch ⟨first.blocks⟩] started jumped)
      (compares : Does [.emit (.compare .greater made.next limit) [.i1]] jumped compared)
      (branches : Does (hopping (.branch jumped.next ⟨⟨first.blocks + 2⟩, []⟩
        ⟨⟨first.blocks + 1⟩, [made.next]⟩) ⟨first.blocks + 1⟩) compared last) :
      Enters limit first counted.next rounded.next last

def leaving (next : Value) (first : Nat) : List Deed :=
  [.emit (.jump ⟨⟨first⟩, [next]⟩) [], .switch ⟨first + 2⟩, .close ⟨first⟩, .close ⟨first + 2⟩]

/-- What is lowered: an expression, or several for their values, or several that become the
words of a slot. -/
inductive Work where
  | expression (tree : Expr Typing)
  | expressions (trees : List (Expr Typing))
  | elements (slot : Slot) (index : Nat) (trees : List (Expr Typing))

def wordOffset (index : Nat) : Int64 :=
  (Int32.ofNat (wordSize * index)).toInt64

inductive Lowers (setting : Setting) : Work → Stage → List Value → Stage → Prop
  | integer {note value first last}
      (emits : Does [.emit (.constant .i64 value) [.i64]] first last) :
      Lowers setting (.expression (.integer note value)) first [first.next] last
  | boolean {note value first last}
      (emits : Does [.emit (.constant .i64 (truthWord value)) [.i64]] first last) :
      Lowers setting (.expression (.boolean note value)) first [first.next] last
  | ident {note name var value first last}
      (bound : first.bound.lookup name = some var) (uses : Does [.use var value] first last) :
      Lowers setting (.expression (.ident note name)) first [value] last
  | comparison {note relation left right leftValue rightValue first middle ready compared last}
      (onLeft : Lowers setting (.expression left) first [leftValue] middle)
      (onRight : Lowers setting (.expression right) middle [rightValue] ready)
      (compares : Does [.emit (.compare (condition relation) leftValue rightValue) [.i1]]
        ready compared)
      (widens : Does [.emit (.signExtend .i64 ready.next) [.i64]] compared last) :
      Lowers setting (.expression (.binary note (.comparison relation) left right)) first
        [compared.next] last
  | arithmetic {note operation left right leftValue rightValue first middle ready last}
      (onLeft : Lowers setting (.expression left) first [leftValue] middle)
      (onRight : Lowers setting (.expression right) middle [rightValue] ready)
      (emits : Does [.emit (.arithmetic operation leftValue rightValue) [.i64]] ready last) :
      Lowers setting (.expression (.binary note (.arithmetic operation) left right)) first
        [ready.next] last
  | bind {note name tree value first middle last}
      (inner : Lowers setting (.expression tree) first [value] middle)
      (binds : Binds name value middle last) :
      Lowers setting (.expression (.bind note name tree)) first [value] last
  | sequence {note left right leftValue rightValue first middle last}
      (onLeft : Lowers setting (.expression left) first [leftValue] middle)
      (onRight : Lowers setting (.expression right) middle [rightValue] last) :
      Lowers setting (.expression (.sequence note left right)) first [rightValue] last
  | call {note function trees reference values first named ready last}
      (refers : Refers setting function first reference named)
      (onArguments : Lowers setting (.expressions trees) named values ready)
      (emits : Does [.emit (.call reference values) [.i64]] ready last) :
      Lowers setting (.expression (.call note function trees)) first [ready.next] last
  | conditional {note test onTrue onFalse testValue result left right first tested opened filled
      turned done last}
      (onTest : Lowers setting (.expression test) first [testValue] tested)
      (forks : Forks testValue tested result opened)
      (leftArm : Lowers setting (.expression onTrue) opened [left] filled)
      (turns : Does (hopping (.jump ⟨⟨tested.blocks + 2⟩, [left]⟩) ⟨tested.blocks + 1⟩)
        filled turned)
      (rightArm : Lowers setting (.expression onFalse) turned [right] done)
      (joins : Does (hopping (.jump ⟨⟨tested.blocks + 2⟩, [right]⟩) ⟨tested.blocks + 2⟩)
        done last) :
      Lowers setting (.expression (.conditional note test onTrue onFalse)) first [result] last
  | each {note name bound body limit round one value first limited opened inside filled advanced
      left last}
      (onBound : Lowers setting (.expression bound) first [limit] limited)
      (enters : Enters limit limited round one opened)
      (binds : Binds name round opened inside)
      (inLoop : Lowers setting (.expression body) inside [value] filled)
      (advances : Does [.emit (.arithmetic .add round one) [.i64]] filled advanced)
      (leaves : Does (leaving filled.next limited.blocks) advanced left)
      (emits : Does [.emit (.constant .i64 0) [.i64]] left last) :
      Lowers setting (.expression (.each note name bound body)) first [left.next] last
  | array {note trees first reserved counted started filled last}
      (reserves : Does [.reserve (UInt32.ofNat (wordSize * (trees.length + 1)))] first reserved)
      (counts : Does [.emit (.constant .i64 (Int64.ofNat trees.length)) [.i64]] reserved counted)
      (starts : Does [.emit (.slotStore reserved.next first.nextSlot (wordOffset 0)) []]
        counted started)
      (stores : Lowers setting (.elements first.nextSlot 1 trees) started [] filled)
      (locates : Does [.emit (.slotAddress .i64 first.nextSlot (wordOffset 0)) [.i64]]
        filled last) :
      Lowers setting (.expression (.array note trees)) first [filled.next] last
  | index {note target position base offset first based ready one word placed scaled located last}
      (onTarget : Lowers setting (.expression target) first [base] based)
      (onPosition : Lowers setting (.expression position) based [offset] ready)
      (ones : Does [.emit (.constant .i64 1) [.i64]] ready one)
      (words : Does [.emit (.constant .i64 (Int64.ofNat wordSize)) [.i64]] one word)
      (places : Does [.emit (.arithmetic .add offset ready.next) [.i64]] word placed)
      (scales : Does [.emit (.arithmetic .multiply word.next one.next) [.i64]] placed scaled)
      (locates : Does [.emit (.arithmetic .add base placed.next) [.i64]] scaled located)
      (loads : Does [.emit (.load .i64 scaled.next (wordOffset 0)) [.i64]] located last) :
      Lowers setting (.expression (.index note target position)) first [located.next] last
  | length {note target base first based last}
      (onTarget : Lowers setting (.expression target) first [base] based)
      (loads : Does [.emit (.load .i64 base (wordOffset 0)) [.i64]] based last) :
      Lowers setting (.expression (.length note target)) first [based.next] last
  | nil {stage} : Lowers setting (.expressions []) stage [] stage
  | cons {tree trees value values first middle last}
      (head : Lowers setting (.expression tree) first [value] middle)
      (tail : Lowers setting (.expressions trees) middle values last) :
      Lowers setting (.expressions (tree :: trees)) first (value :: values) last
  | stop {slot index stage} : Lowers setting (.elements slot index []) stage [] stage
  | store {slot index tree trees value first middle stored last}
      (head : Lowers setting (.expression tree) first [value] middle)
      (stores : Does [.emit (.slotStore value slot (wordOffset index)) []] middle stored)
      (tail : Lowers setting (.elements slot (index + 1) trees) stored [] last) :
      Lowers setting (.elements slot index (tree :: trees)) first [] last

/-! ## What is done along the way -/

/-- One stage is reached from another. -/
def Reaches (first last : Stage) : Prop :=
  ∃ deeds, PerformsAll (some firstBlock) deeds first.recording last.recording

section Reaching

variable {setting : Setting} {first middle last : Stage} {name : String} {value : Value}

theorem Reaches.trans (left : Reaches first middle) (right : Reaches middle last) :
    Reaches first last := by
  obtain ⟨early, some⟩ := left
  obtain ⟨late, others⟩ := right
  exact ⟨early ++ late, some.append others⟩

theorem Reaches.moves (reaches : Reaches first last) :
    Moves (some firstBlock) first.recording last.recording := by
  obtain ⟨deeds, performs⟩ := reaches
  exact performs.moves

theorem Does.reaches {deeds : List Deed} (does : Does deeds first last) : Reaches first last :=
  ⟨deeds, does.performs⟩

theorem Binds.reaches (binds : Binds name value first last) : Reaches first last :=
  ⟨_, binds.performs⟩

theorem Refers.reaches {reference : Reference}
    (refers : Refers setting name first reference last) : Reaches first last := by
  cases refers with
  | known found => exact ⟨_, .nil⟩
  | again fresh callable found => exact ⟨_, .nil⟩
  | new fresh callable unknown declared => exact ⟨_, .single (.refer _ unknown)⟩

theorem Forks.reaches {test result : Value} (forks : Forks test first result last) :
    Reaches first last := by
  obtain ⟨creates, merges, branches⟩ := forks
  exact (creates.reaches.trans merges.reaches).trans branches.reaches

theorem Enters.reaches {limit round one : Value} (enters : Enters limit first round one last) :
    Reaches first last := by
  obtain ⟨creates, counts, rounds, starts, jumps, compares, branches⟩ := enters
  exact creates.reaches.trans (counts.reaches.trans (rounds.reaches.trans (starts.reaches.trans
    (jumps.reaches.trans (compares.reaches.trans branches.reaches)))))

theorem Lowers.reaches {work : Work} {values : List Value}
    (lowers : Lowers setting work first values last) : Reaches first last := by
  induction lowers with
  | integer emits | boolean emits => exact emits.reaches
  | ident _ uses => exact uses.reaches
  | comparison _ _ compares widens left right =>
      exact (left.trans right).trans (compares.reaches.trans widens.reaches)
  | arithmetic _ _ emits left right => exact (left.trans right).trans emits.reaches
  | bind _ binds inner => exact inner.trans binds.reaches
  | sequence _ _ left right => exact left.trans right
  | call refers _ emits arguments =>
      exact (refers.reaches.trans arguments).trans emits.reaches
  | conditional _ forks _ turns _ joins test left right =>
      exact (test.trans (forks.reaches.trans left)).trans
        ((turns.reaches.trans right).trans joins.reaches)
  | each _ enters binds _ advances leaves emits bound body =>
      exact (bound.trans (enters.reaches.trans (binds.reaches.trans body))).trans
        (advances.reaches.trans (leaves.reaches.trans emits.reaches))
  | array reserves counts starts _ locates elements =>
      exact (reserves.reaches.trans (counts.reaches.trans starts.reaches)).trans
        (elements.trans locates.reaches)
  | index _ _ ones words places scales locates loads target position =>
      exact (target.trans position).trans (ones.reaches.trans (words.reaches.trans
        (places.reaches.trans (scales.reaches.trans (locates.reaches.trans loads.reaches)))))
  | length _ loads target => exact target.trans loads.reaches
  | nil | stop => exact ⟨_, .nil⟩
  | cons _ _ head tail => exact head.trans tail
  | store _ stores _ head tail => exact (head.trans stores.reaches).trans tail

end Reaching

/-! ## The shapes of stages -/

section Shapes

variable {setting : Setting} {first last : Stage} {source : Label}

theorem Does.emit_shape {operation : Operation} {types : List MachineType}
    (does : Does [.emit operation types] first last)
    (current : first.shape.current = some source) :
    last.shape = first.shape.emit source
      ⟨first.recording.builder.nextValues types.length, operation, []⟩ := by
  obtain ⟨_ | ⟨performs, _ | _⟩, _⟩ := does
  exact performs.shape_emit current

theorem nextValues_one (builder : Builder) : builder.nextValues 1 = [builder.nextValue] := rfl

theorem Does.hop_shape {operation : Operation} {target : Label}
    (does : Does (hopping operation target) first last)
    (current : first.shape.current = some source) :
    last.shape = first.shape.hop source operation target := by
  obtain ⟨_ | ⟨emits, _ | ⟨switches, _ | ⟨closes, _ | _⟩⟩⟩, _⟩ := does
  rw [Stage.shape, closes.shape_close, switches.shape_switch, emits.shape_emit current]
  rfl

theorem Does.use_shape {var : Variable} {value : Value}
    (does : Does [.use var value] first last) (current : first.shape.current = some source) :
    last.shape = first.shape.note source (.use var value) := by
  obtain ⟨_ | ⟨performs, _ | _⟩, _⟩ := does
  exact performs.shape_use current

theorem Does.reserve_shape {size : UInt32} (does : Does [.reserve size] first last) :
    last.shape = first.shape := by
  obtain ⟨_ | ⟨performs, _ | _⟩, _⟩ := does
  exact performs.shape_reserve

theorem Does.create_shape (does : Does [.create, .create, .create] first last) :
    last.shape = first.shape.create.create.create := by
  obtain ⟨_ | ⟨one, _ | ⟨two, _ | ⟨three, _ | _⟩⟩⟩, _⟩ := does
  rw [Stage.shape, three.shape_create, two.shape_create, one.shape_create]
  rfl

theorem Does.parameter_shape {label : Label} {type : MachineType}
    (does : Does [.parameter label type] first last) :
    last.shape = first.shape.parameter label first.next := by
  obtain ⟨_ | ⟨performs, _ | _⟩, _⟩ := does
  exact performs.shape_parameter

theorem Does.jump_shape {operation : Operation} {target : Label}
    (does : Does [.emit operation [], .switch target] first last)
    (current : first.shape.current = some source) :
    last.shape = (first.shape.emit source ⟨[], operation, []⟩).switch target := by
  obtain ⟨_ | ⟨emits, _ | ⟨switches, _ | _⟩⟩, _⟩ := does
  rw [Stage.shape, switches.shape_switch, emits.shape_emit current]
  rfl

theorem Does.leave_shape {next : Value} {number : Nat}
    (does : Does (leaving next number) first last)
    (current : first.shape.current = some source) :
    last.shape = first.shape.leaveLoop source next ⟨number⟩ ⟨number + 2⟩ := by
  obtain ⟨_ | ⟨emits, _ | ⟨switches, _ | ⟨header, _ | ⟨exit, _ | _⟩⟩⟩⟩, _⟩ := does
  rw [Stage.shape, exit.shape_close, header.shape_close, switches.shape_switch,
    emits.shape_emit current]
  rfl

theorem Binds.shape {name : String} {value : Value} (binds : Binds name value first last)
    (current : first.shape.current = some source) :
    last.shape = first.shape.note source (.define ⟨first.variableCount⟩ value) := by
  obtain ⟨_ | ⟨declares, _ | ⟨defines, _ | _⟩⟩, _⟩ := binds
  have declared := declares.shape_declare
  have current : _ = some source := (congrArg Shape.current declared).trans current
  rw [Stage.shape, defines.shape_define current, declared]
  rfl

theorem Refers.shape {name : String} {reference : Reference}
    (refers : Refers setting name first reference last) : last.shape = first.shape := by
  cases refers <;> rfl

theorem Forks.shape {test result : Value} (forks : Forks test first result last)
    (current : first.shape.current = some source) :
    last.shape = first.shape.fork source test result := by
  obtain ⟨creates, merges, branches⟩ := forks
  have made := creates.create_shape
  have joined := merges.parameter_shape
  rw [made] at joined
  rw [branches.hop_shape (by rw [joined]; exact current), joined]
  rfl

/-- The shape of an opened loop, if the stages on the way are given. -/
theorem enterLoop_shape {limit : Value}
    {made counted rounded started jumped compared : Stage}
    (creates : Does [.create, .create, .create] first made)
    (counts : Does [.parameter ⟨first.blocks⟩ .i64] made counted)
    (rounds : Does [.parameter ⟨first.blocks + 1⟩ .i64] counted rounded)
    (starts : Does [.emit (.constant .i64 1) [.i64]] rounded started)
    (jumps : Does [.emit (.jump ⟨⟨first.blocks⟩, [rounded.next]⟩) [], .switch ⟨first.blocks⟩]
      started jumped)
    (compares : Does [.emit (.compare .greater made.next limit) [.i1]] jumped compared)
    (branches : Does (hopping (.branch jumped.next ⟨⟨first.blocks + 2⟩, []⟩
      ⟨⟨first.blocks + 1⟩, [made.next]⟩) ⟨first.blocks + 1⟩) compared last)
    (current : first.shape.current = some source) :
    last.shape = first.shape.enterLoop source limit made.next counted.next rounded.next
      jumped.next := by
  have roundedShape := rounds.parameter_shape
  rw [counts.parameter_shape, creates.create_shape] at roundedShape
  have currentThen : rounded.shape.current = some source := by
    rw [roundedShape]
    exact current
  have startedShape := starts.emit_shape currentThen
  have jumpedShape := jumps.jump_shape (by rw [startedShape]; exact currentThen)
  have comparedShape := compares.emit_shape
    (show jumped.shape.current = some ⟨first.blocks⟩ by rw [jumpedShape]; rfl)
  rw [branches.hop_shape
    (show compared.shape.current = some ⟨first.blocks⟩ by
      rw [comparedShape, jumpedShape]; rfl),
    comparedShape, jumpedShape, startedShape, roundedShape]
  rfl

theorem Enters.shape {limit round one : Value} (enters : Enters limit first round one last)
    (current : first.shape.current = some source) :
    ∃ counter done, last.shape = first.shape.enterLoop source limit counter round one done := by
  obtain ⟨creates, counts, rounds, starts, jumps, compares, branches⟩ := enters
  exact ⟨_, _, enterLoop_shape creates counts rounds starts jumps compares branches current⟩

end Shapes

/-! ## Lowered code is a part of its function -/

section Flows

variable {setting : Setting} {first last : Stage} {source : Label}

theorem Reaches.sound (reaches : Reaches first last) (sound : Sound first.recording) :
    Sound last.recording :=
  sound.moves reaches.moves

theorem Does.emit_flows {operation : Operation} {types : List MachineType}
    (does : Does [.emit operation types] first last) (plain : operation.isTerminator = false)
    (active : first.shape.Active source) :
    Shape.Flows source source first.shape last.shape := by
  have plain : Instruction.isTerminator
      ⟨first.recording.builder.nextValues types.length, operation, []⟩ = false := plain
  rw [does.emit_shape active.current, Shape.emit_of_plain _ _ plain]
  refine .note active ?_
  rintro _ ⟨rfl⟩
  exact plain

theorem Does.use_flows {var : Variable} {value : Value} (does : Does [.use var value] first last)
    (active : first.shape.Active source) :
    Shape.Flows source source first.shape last.shape := by
  rw [does.use_shape active.current]
  exact .note active (by simp)

theorem Binds.flows {name : String} {value : Value} (binds : Binds name value first last)
    (active : first.shape.Active source) :
    Shape.Flows source source first.shape last.shape := by
  rw [binds.shape active.current]
  exact .note active (by simp)

structure Fills (first last : Stage) : Prop where
  reaches : Reaches first last
  flows : ∀ {source : Label}, Sound first.recording → first.shape.Active source →
    ∃ target, Shape.Flows source target first.shape last.shape

/-- The parts that a condition is made of. -/
theorem Forks.flows {test result left right : Value} {opened filled turned done : Stage}
    (forks : Forks test first result opened) (sound : Sound first.recording)
    (active : first.shape.Active source)
    (leftArm : Fills opened filled)
    (turns : Does (hopping (.jump ⟨⟨first.blocks + 2⟩, [left]⟩) ⟨first.blocks + 1⟩)
      filled turned)
    (rightArm : Fills turned done)
    (joins : Does (hopping (.jump ⟨⟨first.blocks + 2⟩, [right]⟩) ⟨first.blocks + 2⟩)
      done last) :
    ∃ leftEnd rightEnd, opened.shape.Active ⟨first.blocks⟩ ∧
      Shape.Flows ⟨first.blocks⟩ leftEnd opened.shape filled.shape ∧
      turned.shape.Active ⟨first.blocks + 1⟩ ∧
      Shape.Flows ⟨first.blocks + 1⟩ rightEnd turned.shape done.shape ∧
      Shape.Flows source ⟨first.blocks + 2⟩ first.shape last.shape := by
  have bare := Recording.bare sound
  have opens := forks.shape active.current
  have sound := forks.reaches.sound sound
  have inLeft : opened.shape.Active ⟨first.blocks⟩ := by
    rw [opens]
    exact Shape.active_fork bare active.inside
  obtain ⟨leftEnd, toLeft⟩ := leftArm.flows sound inLeft
  have turnedShape := turns.hop_shape toLeft.active.current
  have whole := toLeft
  rw [opens] at whole
  have inRight : turned.shape.Active ⟨first.blocks + 1⟩ := by
    rw [turnedShape]
    exact Shape.Flows.active_turn bare active.inside whole _
  obtain ⟨rightEnd, toRight⟩ :=
    rightArm.flows (turns.reaches.sound (leftArm.reaches.sound sound)) inRight
  refine ⟨leftEnd, rightEnd, inLeft, toLeft, inRight, toRight, ?_⟩
  have joined := joins.hop_shape toRight.active.current
  rw [turnedShape] at toRight
  exact .conditional bare active rfl whole toRight joined

/-- The parts that a loop is made of. -/
theorem Enters.flows {name : String} {limit round one : Value}
    {opened inside filled advanced : Stage}
    (enters : Enters limit first round one opened) (sound : Sound first.recording)
    (active : first.shape.Active source)
    (binds : Binds name round opened inside)
    (inLoop : Fills inside filled)
    (advances : Does [.emit (.arithmetic .add round one) [.i64]] filled advanced)
    (leaves : Does (leaving filled.next first.blocks) advanced last) :
    ∃ bodyEnd, opened.shape.Active ⟨first.blocks + 1⟩ ∧
      Shape.Flows ⟨first.blocks + 1⟩ ⟨first.blocks + 1⟩ opened.shape inside.shape ∧
      Shape.Flows ⟨first.blocks + 1⟩ bodyEnd inside.shape filled.shape ∧
      Shape.Flows bodyEnd bodyEnd filled.shape advanced.shape ∧
      Shape.Flows source ⟨first.blocks + 2⟩ first.shape last.shape := by
  have bare := Recording.bare sound
  obtain ⟨counter, done, opens⟩ := enters.shape active.current
  have inBody : opened.shape.Active ⟨first.blocks + 1⟩ := by
    rw [opens]
    exact Shape.active_enterLoop bare active.inside
  have bindFlow := binds.flows inBody
  obtain ⟨bodyEnd, toEnd⟩ := inLoop.flows
    (binds.reaches.sound (enters.reaches.sound sound)) bindFlow.active
  have advanced := advances.emit_flows rfl toEnd.active
  refine ⟨bodyEnd, inBody, bindFlow, toEnd, advanced, ?_⟩
  have whole := bindFlow.trans (toEnd.trans advanced)
  rw [opens] at whole
  exact .loop bare active rfl rfl whole (leaves.leave_shape whole.active.current)

theorem Lowers.flows {work : Work} {values : List Value}
    (lowers : Lowers setting work first values last) :
    ∀ {source : Label}, Sound first.recording → first.shape.Active source →
      ∃ target, Shape.Flows source target first.shape last.shape := by
  induction lowers with
  | integer emits | boolean emits =>
      intro source sound active
      exact ⟨source, emits.emit_flows rfl active⟩
  | ident _ uses =>
      intro source sound active
      exact ⟨source, uses.use_flows active⟩
  | comparison onLeft onRight compares widens left right =>
      intro source sound active
      obtain ⟨middle, toMiddle⟩ := left sound active
      obtain ⟨target, toTarget⟩ := right (onLeft.reaches.sound sound) toMiddle.active
      have compared := compares.emit_flows rfl toTarget.active
      have widened := widens.emit_flows rfl compared.active
      exact ⟨target, toMiddle.trans (toTarget.trans (compared.trans widened))⟩
  | arithmetic onLeft onRight emits left right =>
      intro source sound active
      obtain ⟨middle, toMiddle⟩ := left sound active
      obtain ⟨target, toTarget⟩ := right (onLeft.reaches.sound sound) toMiddle.active
      exact ⟨target, toMiddle.trans (toTarget.trans (emits.emit_flows rfl toTarget.active))⟩
  | bind _ binds inner =>
      intro source sound active
      obtain ⟨target, toTarget⟩ := inner sound active
      exact ⟨target, toTarget.trans (binds.flows toTarget.active)⟩
  | sequence onLeft _ left right =>
      intro source sound active
      obtain ⟨middle, toMiddle⟩ := left sound active
      obtain ⟨target, toTarget⟩ := right (onLeft.reaches.sound sound) toMiddle.active
      exact ⟨target, toMiddle.trans toTarget⟩
  | call refers onArguments emits arguments =>
      intro source sound active
      rw [← refers.shape] at active ⊢
      obtain ⟨target, toTarget⟩ := arguments (refers.reaches.sound sound) active
      exact ⟨target, toTarget.trans (emits.emit_flows rfl toTarget.active)⟩
  | conditional onTest forks leftArm turns rightArm joins test left right =>
      intro source sound active
      obtain ⟨middle, toMiddle⟩ := test sound active
      obtain ⟨_, _, _, _, _, _, whole⟩ := forks.flows (onTest.reaches.sound sound)
        toMiddle.active ⟨leftArm.reaches, left⟩ turns ⟨rightArm.reaches, right⟩ joins
      exact ⟨_, toMiddle.trans whole⟩
  | each onBound enters binds inLoop advances leaves emits bound body =>
      intro source sound active
      obtain ⟨middle, toMiddle⟩ := bound sound active
      obtain ⟨_, _, _, _, _, whole⟩ := enters.flows (onBound.reaches.sound sound)
        toMiddle.active binds ⟨inLoop.reaches, body⟩ advances leaves
      exact ⟨_, toMiddle.trans (whole.trans (emits.emit_flows rfl whole.active))⟩
  | array reserves counts starts stores locates elements =>
      intro source sound active
      rw [← reserves.reserve_shape] at active ⊢
      have sound := reserves.reaches.sound sound
      have counted := counts.emit_flows rfl active
      have started := starts.emit_flows rfl counted.active
      obtain ⟨target, toTarget⟩ := elements
        (starts.reaches.sound (counts.reaches.sound sound)) started.active
      exact ⟨target, counted.trans (started.trans (toTarget.trans
        (locates.emit_flows rfl toTarget.active)))⟩
  | index onTarget onPosition ones words places scales locates loads target position =>
      intro source sound active
      obtain ⟨middle, toMiddle⟩ := target sound active
      obtain ⟨last, toLast⟩ := position (onTarget.reaches.sound sound) toMiddle.active
      have one := ones.emit_flows rfl toLast.active
      have word := words.emit_flows rfl one.active
      have placed := places.emit_flows rfl word.active
      have scaled := scales.emit_flows rfl placed.active
      have located := locates.emit_flows rfl scaled.active
      have loaded := loads.emit_flows rfl located.active
      exact ⟨last, toMiddle.trans (toLast.trans (one.trans (word.trans (placed.trans
        (scaled.trans (located.trans loaded))))))⟩
  | length _ loads target =>
      intro source sound active
      obtain ⟨last, toLast⟩ := target sound active
      exact ⟨last, toLast.trans (loads.emit_flows rfl toLast.active)⟩
  | nil | stop =>
      intro source sound active
      exact ⟨source, .refl active⟩
  | cons onHead _ head tail =>
      intro source sound active
      obtain ⟨middle, toMiddle⟩ := head sound active
      obtain ⟨target, toTarget⟩ := tail (onHead.reaches.sound sound) toMiddle.active
      exact ⟨target, toMiddle.trans toTarget⟩
  | store onHead stores _ head tail =>
      intro source sound active
      obtain ⟨middle, toMiddle⟩ := head sound active
      have stored := stores.emit_flows rfl toMiddle.active
      obtain ⟨target, toTarget⟩ := tail (stores.reaches.sound (onHead.reaches.sound sound))
        stored.active
      exact ⟨target, toMiddle.trans (stored.trans toTarget)⟩

theorem Lowers.fills {work : Work} {values : List Value}
    (lowers : Lowers setting work first values last) : Fills first last :=
  ⟨lowers.reaches, lowers.flows⟩

end Flows

end ExprLang.Lowering
