import ExprLang.Proofs.Lowering.Acceptance
import ExprLang.Proofs.Lowering.Accounts
import ExprLang.Proofs.Lowering.Readiness
import ExprLang.Proofs.Ssa.Truths
import ExprLang.Proofs.Typing.Nodes

/-!
# Truths in lowered code

Each new variable gets values of one type only, since every binding of a name makes a variable of
its own. So the variables that are bound to truths hold truths wherever they are read, and all
nodes of type `Bool` have values that are truths, provided that arithmetic is done on numbers only
and no truth is taken out of an array.
-/

namespace ExprLang

open Ssa

/-! ## Careful expressions -/

/-- Whether an operator is applied to integers if it is one of arithmetic. -/
def Operator.isCareful : Operator → (left right : Ty) → Bool
  | .arithmetic _, left, right => decide (left = .int ∧ right = .int)
  | _, _, _ => true

namespace Expr

mutual

/-- Whether all arithmetic in an expression is on integers, and no index expression in it has a
truth as its value. -/
def isCareful : Expr Typing → Bool
  | integer _ _ | boolean _ _ | ident _ _ => true
  | array _ elements => areCareful elements
  | binary _ operator left right =>
    operator.isCareful left.type right.type && (left.isCareful && right.isCareful)
  | bind _ _ value => value.isCareful
  | sequence _ first second => first.isCareful && second.isCareful
  | call _ _ arguments => areCareful arguments
  | conditional _ condition onTrue onFalse =>
    condition.isCareful && (onTrue.isCareful && onFalse.isCareful)
  | index note target position =>
    decide (note.type ≠ .bool) && (target.isCareful && position.isCareful)
  | length _ target => target.isCareful
  | each _ _ bound body => bound.isCareful && body.isCareful
  | unknown _ _ children => areCareful children

def areCareful : List (Expr Typing) → Bool
  | [] => true
  | tree :: trees => tree.isCareful && areCareful trees

end

end Expr

/-- The newest binding of a name is the one that the name stands for. -/
theorem getElem?_of_cell? {name : String} {type : Ty} {bindings : List (String × Ty)} {cell : Nat}
    (found : cell? name (bindings.map Prod.fst).reverse = some cell)
    (bound : bindings.reverse.lookup name = some type) : bindings[cell]? = some (name, type) := by
  rw [← List.map_reverse] at found
  rw [← List.reverse_reverse bindings]
  generalize bindings.reverse = newest at found bound ⊢
  induction newest with
  | nil => cases found
  | cons binding others induction =>
      obtain ⟨other, kind⟩ := binding
      rw [List.map_cons, cell?] at found
      rw [List.reverse_cons]
      by_cases same : other = name
      · subst same
        simp only [if_true, List.length_map, Option.some.injEq, List.lookup_cons_self]
          at found bound
        subst found bound
        rw [← List.length_reverse, List.getElem?_concat_length]
      · have different : (name == other) = false := beq_eq_false_iff_ne.mpr (Ne.symm same)
        simp only [if_neg same] at found
        rw [List.lookup_cons, different] at bound
        have inside := cell?_lt found
        rw [List.getElem?_append_left (by simpa using inside)]
        exact induction found bound

namespace Lowering

namespace Work

def bindings : Work → List (String × Ty)
  | expression tree => tree.bindings
  | expressions trees | elements _ _ trees => Expr.bindingsAll trees

/-- Every node notes the type that the rules give it. -/
def Annotated (known : SignatureTable) (vars : Variables) : Work → Prop
  | expression tree => tree.Annotated known vars
  | expressions trees | elements _ _ trees => Expr.AnnotatedAll known vars trees

def isCareful : Work → Bool
  | expression tree => tree.isCareful
  | expressions trees | elements _ _ trees => Expr.areCareful trees

end Work

/-! ## What is known of a function -/

/-- A function as it is in the end, with the bindings of its variables, and promises. -/
structure Outlook where
  promises : Promises
  bindings : List (String × Ty)
  final : Recording

namespace Outlook

def HoldsTruths (outlook : Outlook) (var : Variable) : Prop :=
  ∃ name, outlook.bindings[var.index]? = some (name, .bool)

def Truth (outlook : Outlook) : Value → Prop :=
  outlook.final.Truth outlook.promises firstBlock outlook.HoldsTruths

def Keeps (outlook : Outlook) (event : Event) : Prop :=
  event.Keeps outlook.promises outlook.final.builder.function outlook.HoldsTruths outlook.Truth

/-- Functions are called by their names, and what is promised of them agrees with their
signatures. -/
structure Suits (outlook : Outlook) (setting : Setting) (known : SignatureTable) : Prop where
  named : ∀ name id declaration, setting.callable.lookup name = some id →
    setting.module.declaration? id = some declaration → declaration.name = name
  takes : ∀ name signature, known.find? name = some signature → ∀ index,
    outlook.promises.takes name index → signature.parameters[index]? = some .bool
  gives : ∀ name signature, known.find? name = some signature → signature.result = .bool →
    outlook.promises.gives name

end Outlook

/-! ## Deeds -/

section Deeds

variable {outlook : Outlook} {setting : Setting} {first last : Stage}

def Stage.Keeps (outlook : Outlook) (stage : Stage) : Prop :=
  ∀ label, ∀ event ∈ stage.recording.script label, outlook.Keeps event

def Deed.isIdle : Deed → Bool
  | .define _ _ | .emit (.call _ _) _ | .emit (.ret _) _ => false
  | _ => true

theorem Outlook.keeps_of_idle {deed : Deed} (idle : Deed.isIdle deed = true) {event : Event}
    (adds : deed.Adds event) : outlook.Keeps event := by
  cases adds with
  | define => cases idle
  | use => trivial
  | @emit operation types instruction same =>
      subst same
      change instruction.operation.Keeps _ _ _
      cases operation : instruction.operation with
      | call reference arguments =>
          rw [operation] at idle
          cases idle
      | ret values =>
          rw [operation] at idle
          cases idle
      | _ => trivial

theorem Does.keeps {deeds : List Deed} (does : Does deeds first last)
    (idle : deeds.all Deed.isIdle = true) (keeps : first.Keeps outlook) : last.Keeps outlook := by
  intro label event member
  rcases does.performs.adds member with old | ⟨deed, done, adds⟩
  · exact keeps label event old
  · exact outlook.keeps_of_idle (List.all_eq_true.mp idle deed done) adds

theorem Does.emit_keeps {operation : Operation} {types : List MachineType}
    (does : Does [.emit operation types] first last)
    (handed : operation.Keeps outlook.promises outlook.final.builder.function outlook.Truth)
    (keeps : first.Keeps outlook) : last.Keeps outlook := by
  intro label event member
  rcases does.performs.adds member with old | ⟨deed, done, adds⟩
  · exact keeps label event old
  · cases List.mem_singleton.mp done
    cases adds with
    | emit same =>
        subst same
        exact handed

theorem Refers.keeps {name : String} {reference : Reference}
    (refers : Refers setting name first reference last) (keeps : first.Keeps outlook) :
    last.Keeps outlook := by
  cases refers with
  | known | again | new => exact keeps

theorem Forks.keeps {test result : Value} (forks : Forks test first result last)
    (keeps : first.Keeps outlook) : last.Keeps outlook := by
  obtain ⟨creates, merges, branches⟩ := forks
  exact branches.keeps rfl (merges.keeps rfl (creates.keeps rfl keeps))

theorem Enters.keeps {limit round one : Value} (enters : Enters limit first round one last)
    (keeps : first.Keeps outlook) : last.Keeps outlook := by
  obtain ⟨creates, counts, rounds, starts, jumps, compares, branches⟩ := enters
  have rounded := rounds.keeps rfl (counts.keeps rfl (creates.keeps rfl keeps))
  exact branches.keeps rfl (compares.keeps rfl (jumps.keeps rfl (starts.keeps rfl rounded)))

end Deeds

/-! ## Stages -/

/-- A stage at which some variables have been bound, and all events so far hand on truths where
they are wanted. -/
structure Kept (outlook : Outlook) (setting : Setting) (bound : List (String × Ty))
    (stage : Stage) : Prop where
  sound : Sound stage.recording
  sourced : stage.recording.Sourced
  tabled : Tabled setting (bound.map Prod.fst).reverse stage
  active : ∃ source, stage.shape.Active source
  keeps : stage.Keeps outlook

namespace Kept

variable {outlook : Outlook} {setting : Setting} {bound : List (String × Ty)}
  {first last : Stage}

theorem reaches (kept : Kept outlook setting bound first) (reaches : Reaches first last)
    {more : List (String × Ty)} (tabled : Tabled setting (more.map Prod.fst).reverse last)
    (active : ∃ source, last.shape.Active source) (keeps : last.Keeps outlook) :
    Kept outlook setting more last :=
  ⟨reaches.sound kept.sound, kept.sourced.moves kept.sound reaches.moves, tabled, active, keeps⟩

theorem emit (kept : Kept outlook setting bound first) {operation : Operation}
    {types : List MachineType} (does : Does [.emit operation types] first last)
    (plain : operation.isTerminator = false)
    (keeps : operation.Keeps outlook.promises outlook.final.builder.function outlook.Truth) :
    Kept outlook setting bound last := by
  obtain ⟨source, active⟩ := kept.active
  exact kept.reaches does.reaches (does.tabled rfl kept.tabled)
    ⟨source, (does.emit_flows plain active).active⟩ (does.emit_keeps keeps kept.keeps)

theorem bind (kept : Kept outlook setting bound first) {name : String} {value : Value} {type : Ty}
    (binds : Binds name value first last) (listed : bound ++ [(name, type)] <+: outlook.bindings)
    (truth : type = .bool → outlook.Truth value) :
    Kept outlook setting (bound ++ [(name, type)]) last := by
  obtain ⟨source, active⟩ := kept.active
  refine kept.reaches binds.reaches ?_ ⟨source, (binds.flows active).active⟩
    fun label event member => ?_
  · simpa using binds.tabled kept.tabled
  · rcases binds.performs.adds member with old | ⟨deed, done, adds⟩
    · exact kept.keeps label event old
    · cases adds with
      | define =>
          simp only [List.mem_cons, reduceCtorEq, Deed.define.injEq, List.not_mem_nil, or_false,
            false_or] at done
          obtain ⟨rfl, rfl⟩ := done
          rintro ⟨other, held⟩
          have count : first.variableCount = bound.length := by
            simpa using kept.tabled.count
          have own : outlook.bindings[bound.length]? = some (name, type) := by
            obtain ⟨others, whole⟩ := listed
            simp [← whole]
          rw [count] at held
          cases own.symm.trans held
          exact truth rfl
      | use | emit => simp at done

theorem stands (kept : Kept outlook setting bound first)
    (moves : Moves (some firstBlock) first.recording outlook.final) {var : Variable}
    {value : Value} (stands : first.recording.Stands var value)
    (holds : outlook.HoldsTruths var) : outlook.Truth value := by
  have grows := Moves.grows moves
  cases stands with
  | given member => exact kept.keeps _ _ member holds
  | zero member => exact .zero ((grows.zeros _).subset member)
  | joined member => exact .joined ((grows.joined _).subset member) holds

end Kept

/-- The result of an instruction that makes a truth is a truth. -/
theorem Does.truth {outlook : Outlook} {first last : Stage} {operation : Operation}
    {type : MachineType} (does : Does [.emit operation [type]] first last)
    (active : ∃ source, first.shape.Active source)
    (moves : Moves (some firstBlock) last.recording outlook.final)
    (makes : operation.MakesTruth outlook.promises outlook.final.builder.function) :
    outlook.Truth first.next := by
  obtain ⟨source, active⟩ := active
  have appended : .instruction ⟨[first.next], operation, []⟩ ∈ last.recording.script source := by
    have script := congrArg (fun shape => shape.script source) (does.emit_shape active.current)
    change last.recording.script source = _ at script
    rw [script]
    simp [Shape.emit, Shape.note, nextValues_one, Stage.next]
  exact .made (mem_emitted.mpr (((Moves.grows moves).script source).subset appended))
    (List.mem_singleton.mpr rfl) makes

/-! ## Where the arms of a condition come together -/

theorem Does.hopped {first last : Stage} {operation : Operation} {target source : Label}
    (does : Does (hopping operation target) first last)
    (current : first.shape.current = some source) {entry : Option Label} {final : Recording}
    (moves : Moves entry last.recording final) :
    ⟨[], operation, []⟩ ∈ emitted (final.script source) := by
  refine mem_emitted.mpr (((Moves.grows moves).script _).subset (?_ : _ ∈ last.shape.script _))
  rw [does.hop_shape current]
  simp [Shape.hop, Shape.close, Shape.switch, Shape.emit, Shape.note]

/-- The block in which the arms of a condition come together has a parameter for the result, and
only the arms lead to it, each with its own value. -/
theorem Forks.merged {test result left right : Value} {final : Recording} {source : Label}
    {first opened filled turned done last : Stage} (forks : Forks test first result opened)
    (sound : Sound first.recording) (active : first.shape.Active source)
    (leftArm : Fills opened filled)
    (turns : Does (hopping (.jump ⟨⟨first.blocks + 2⟩, [left]⟩) ⟨first.blocks + 1⟩)
      filled turned)
    (rightArm : Fills turned done)
    (joins : Does (hopping (.jump ⟨⟨first.blocks + 2⟩, [right]⟩) ⟨first.blocks + 2⟩) done last)
    (moves : Moves (some firstBlock) last.recording final) :
    result ∈ final.explicit ⟨first.blocks + 2⟩ ∧ ∀ origin instruction destination,
      instruction ∈ emitted (final.script origin) →
        destination ∈ instruction.operation.destinations →
          destination.block = ⟨first.blocks + 2⟩ →
            destination.arguments = [left] ∨ destination.arguments = [right] := by
  have bare : first.shape.Bare := Recording.bare sound
  have opens := forks.shape active.current
  obtain ⟨leftEnd, rightEnd, -, toLeft, -, toRight, -⟩ :=
    forks.flows sound active leftArm turns rightArm joins
  have turnedShape := turns.hop_shape toLeft.active.current
  have lastShape := joins.hop_shape toRight.active.current
  have movesTurned := rightArm.reaches.moves.trans (joins.reaches.moves.trans moves)
  have movesOpened := leftArm.reaches.moves.trans (turns.reaches.moves.trans movesTurned)
  have soundFinal : Sound final := (forks.reaches.sound sound).moves movesOpened
  constructor
  · refine ((Moves.grows movesOpened).explicit _).subset (?_ : result ∈ opened.shape.explicit _)
    rw [opens]
    simp [Shape.fork, Shape.hop, Shape.close, Shape.switch, Shape.emit, Shape.note,
      Shape.parameter]
  have entered : last.shape.predecessors ⟨first.blocks + 2⟩ = [⟨leftEnd, 0⟩, ⟨rightEnd, 0⟩] := by
    rw [opens] at toLeft
    rw [turnedShape] at toRight
    exact toLeft.merged bare rfl toRight lastShape
  have closed : last.shape.isSealed ⟨first.blocks + 2⟩ = true := by
    rw [lastShape]
    exact Shape.isSealed_hop _ _ _ _
  have same : (final.builder.state ⟨first.blocks + 2⟩).predecessors =
      last.shape.predecessors ⟨first.blocks + 2⟩ := ((Moves.grows moves).isSealed _ closed).2
  -- The block is sealed, so the jumps at the ends of the arms stay the only ones to it.
  have fromLeft := turns.hopped toLeft.active.current movesTurned
  have fromRight := joins.hopped toRight.active.current moves
  intro origin instruction destination member leads there
  have ends : instruction.isTerminator = true := by
    by_contra plain
    rw [Operation.destinations_eq_nil (by simpa [Instruction.isTerminator] using plain)] at leads
    cases leads
  obtain ⟨side, chosen⟩ := List.mem_iff_getElem?.mp leads
  have edge : (⟨origin, side⟩ : Edge) ∈ [⟨leftEnd, 0⟩, (⟨rightEnd, 0⟩ : Edge)] := by
    rw [← entered, ← same]
    exact (soundFinal.scripted.edges _ _).mpr ⟨instruction, member, destination, chosen, there⟩
  rcases List.mem_cons.mp edge with onLeft | onRight
  · cases onLeft
    cases soundFinal.scripted.terminator_eq member fromLeft ends rfl
    cases List.mem_singleton.mp leads
    exact .inl rfl
  · cases List.mem_singleton.mp onRight
    cases soundFinal.scripted.terminator_eq member fromRight ends rfl
    cases List.mem_singleton.mp leads
    exact .inr rfl

/-! ## Parts of a function -/

/-- Whatever is done from one stage to another, which binds some variables, hands on truths where
they are wanted, and the nodes of a table whose type is `Bool` have truths as their values. -/
structure Tells (outlook : Outlook) (setting : Setting) (bound : List (String × Ty))
    (first last : Stage) (added : List (String × Ty)) (table : Table) : Prop where
  reaches : Reaches first last
  tells : Moves (some firstBlock) last.recording outlook.final →
    Kept outlook setting bound first → Kept outlook setting (bound ++ added) last ∧
      ∀ entry ∈ table, entry.1.type = .bool → outlook.Truth entry.2

namespace Tells

variable {outlook : Outlook} {setting : Setting} {known : SignatureTable}
  {bound added more : List (String × Ty)} {first middle last : Stage} {table others : Table}
  {note : Typing} {value : Value}

theorem refl (outlook : Outlook) (setting : Setting) (bound : List (String × Ty))
    (stage : Stage) : Tells outlook setting bound stage stage [] [] where
  reaches := ⟨_, .nil⟩
  tells _ kept := ⟨by simpa using kept, by simp⟩

theorem append (left : Tells outlook setting bound first middle added table)
    (right : Tells outlook setting (bound ++ added) middle last more others) :
    Tells outlook setting bound first last (added ++ more) (table ++ others) where
  reaches := left.reaches.trans right.reaches
  tells moves kept := by
    obtain ⟨keptThen, early⟩ := left.tells (right.reaches.moves.trans moves) kept
    obtain ⟨keptLast, late⟩ := right.tells moves keptThen
    rw [List.append_assoc] at keptLast
    exact ⟨keptLast, List.forall_mem_append.mpr ⟨early, late⟩⟩

theorem andThen (left : Tells outlook setting bound first middle [] table)
    (right : Tells outlook setting bound middle last more others) :
    Tells outlook setting bound first last more (table ++ others) :=
  left.append (by rwa [List.append_nil])

theorem subset (tells : Tells outlook setting bound first last added table)
    (fewer : ∀ entry ∈ others, entry ∈ table) :
    Tells outlook setting bound first last added others where
  reaches := tells.reaches
  tells moves kept := by
    obtain ⟨keptLast, truths⟩ := tells.tells moves kept
    exact ⟨keptLast, fun entry member => truths entry (fewer entry member)⟩

theorem node (tells : Tells outlook setting bound first last added table)
    (same : note.type = .bool → ∃ entry ∈ table, entry.1.type = .bool ∧ entry.2 = value) :
    Tells outlook setting bound first last added ((note, value) :: table) where
  reaches := tells.reaches
  tells moves kept := by
    obtain ⟨keptLast, truths⟩ := tells.tells moves kept
    refine ⟨keptLast, List.forall_mem_cons.mpr ⟨fun isBool => ?_, truths⟩⟩
    obtain ⟨entry, member, type, rfl⟩ := same isBool
    exact truths entry member type

theorem emits (tells : Tells outlook setting bound first middle added table)
    {operation : Operation} {types : List MachineType}
    (does : Does [.emit operation types] middle last) (plain : operation.isTerminator = false)
    (idle : Deed.isIdle (.emit operation types) = true) :
    Tells outlook setting bound first last added table where
  reaches := tells.reaches.trans does.reaches
  tells moves kept := by
    obtain ⟨keptMiddle, truths⟩ := tells.tells (does.reaches.moves.trans moves) kept
    have adds : (Deed.emit operation types).Adds (.instruction ⟨[], operation, []⟩) := .emit rfl
    exact ⟨keptMiddle.emit does plain (outlook.keeps_of_idle idle adds), truths⟩

/-- An instruction is appended that computes the value of a node. -/
theorem emit (tells : Tells outlook setting bound first middle added table)
    {operation : Operation} {type : MachineType}
    (does : Does [.emit operation [type]] middle last) (plain : operation.isTerminator = false)
    (idle : Deed.isIdle (.emit operation [type]) = true)
    (makes : note.type = .bool → Moves (some firstBlock) last.recording outlook.final →
      operation.MakesTruth outlook.promises outlook.final.builder.function) :
    Tells outlook setting bound first last added ((note, middle.next) :: table) where
  reaches := tells.reaches.trans does.reaches
  tells moves kept := by
    obtain ⟨keptLast, truths⟩ := (tells.emits does plain idle).tells moves kept
    obtain ⟨keptMiddle, -⟩ := tells.tells (does.reaches.moves.trans moves) kept
    exact ⟨keptLast, List.forall_mem_cons.mpr
      ⟨fun isBool => does.truth keptMiddle.active moves (makes isBool moves), truths⟩⟩

theorem reserve {size : UInt32} (does : Does [.reserve size] first last) :
    Tells outlook setting bound first last [] [] where
  reaches := does.reaches
  tells moves kept := by
    rw [List.append_nil]
    exact ⟨kept.reaches does.reaches (does.tabled rfl kept.tabled)
      (does.reserve_shape ▸ kept.active) (does.keeps rfl kept.keeps), by simp⟩

theorem ident {name : String} {var : Variable}
    (resolves : first.bound.lookup name = some var) (uses : Does [.use var value] first last)
    (typed : Variables.bindAll (fun _ => none) bound name = some note.type)
    (listed : bound <+: outlook.bindings) :
    Tells outlook setting bound first last [] [(note, value)] where
  reaches := uses.reaches
  tells moves kept := by
    obtain ⟨source, active⟩ := kept.active
    have flows := uses.use_flows active
    have keptLast : Kept outlook setting bound last := kept.reaches uses.reaches
      (uses.tabled rfl kept.tabled) ⟨source, flows.active⟩ (uses.keeps rfl kept.keeps)
    rw [List.append_nil]
    refine ⟨keptLast, List.forall_mem_singleton.mpr fun isBool => ?_⟩
    -- The variable is the one of the newest binding of its name, and so it is bound to truths.
    rw [Variables.bindAll_apply, Option.or_none] at typed
    rw [kept.tabled.bound, lookup_numbered, Option.map_eq_some_iff] at resolves
    obtain ⟨cell, found, rfl⟩ := resolves
    have binding := getElem?_of_cell? found typed
    have holds : outlook.HoldsTruths ⟨cell⟩ := by
      obtain ⟨others, whole⟩ := listed
      refine ⟨name, ?_⟩
      rw [← whole, List.getElem?_append_left (List.getElem?_eq_some_iff.mp binding).1]
      exact isBool ▸ binding
    have used : .use ⟨cell⟩ value ∈ last.recording.script source := by
      have script := congrArg (fun shape => shape.script source) (uses.use_shape active.current)
      change last.recording.script source = _ at script
      rw [script]
      simp [Shape.note]
    exact keptLast.stands moves (keptLast.sourced.used keptLast.sound.tracked used) holds

theorem bind (tells : Tells outlook setting bound first middle added table) {name : String}
    {type : Ty} (binds : Binds name value middle last)
    (listed : bound ++ (added ++ [(name, type)]) <+: outlook.bindings)
    (same : type = .bool → ∃ entry ∈ table, entry.1.type = .bool ∧ entry.2 = value) :
    Tells outlook setting bound first last (added ++ [(name, type)]) table where
  reaches := tells.reaches.trans binds.reaches
  tells moves kept := by
    obtain ⟨keptMiddle, truths⟩ := tells.tells (binds.reaches.moves.trans moves) kept
    rw [← List.append_assoc] at listed ⊢
    refine ⟨keptMiddle.bind binds listed fun isBool => ?_, truths⟩
    obtain ⟨entry, member, type, rfl⟩ := same isBool
    exact truths entry member type

/-- A function is called with the values of some nodes. -/
theorem call (suits : outlook.Suits setting known) {function : String} {reference : Reference}
    {named ready : Stage} {trees : List (Expr Typing)} {values : List Value}
    {signature : Signature} (refers : Refers setting function first reference named)
    (arguments : Tells outlook setting bound named ready added table)
    (emits : Does [.emit (.call reference values) [.i64]] ready last)
    (roots : List.Forall₂ (fun tree value => (tree.note, value) ∈ table) trees values)
    (found : known.find? function = some signature)
    (parameters : signature.parameters = trees.map Expr.type)
    (result : signature.result = note.type) :
    Tells outlook setting bound first last added ((note, ready.next) :: table) where
  reaches := refers.reaches.trans (arguments.reaches.trans emits.reaches)
  tells moves kept := by
    obtain ⟨id, declaration, callable, declared, placed⟩ := refers.external kept.tabled
    have name := suits.named function id declaration callable declared
    have keptNamed := kept.reaches refers.reaches (refers.tabled kept.tabled)
      (refers.shape ▸ kept.active) (refers.keeps kept.keeps)
    have movesReady := emits.reaches.moves.trans moves
    obtain ⟨keptReady, truths⟩ := arguments.tells movesReady keptNamed
    have called :=
      (Moves.grows (arguments.reaches.moves.trans movesReady)).reference _ _ placed
    refine ⟨keptReady.emit emits rfl ?_, List.forall_mem_cons.mpr ⟨fun isBool => ?_, truths⟩⟩
    · intro external there index argument takes given
      cases called.symm.trans there
      have wanted := suits.takes function signature found index (name ▸ takes)
      rw [parameters, List.getElem?_map, Option.map_eq_some_iff] at wanted
      obtain ⟨tree, foundTree, type⟩ := wanted
      obtain ⟨inside, rfl⟩ := List.getElem?_eq_some_iff.mp foundTree
      obtain ⟨within, rfl⟩ := List.getElem?_eq_some_iff.mp given
      exact truths _ ((List.forall₂_iff_get.mp roots).2 index inside within) type
    · refine emits.truth keptReady.active moves ⟨_, called, ?_⟩
      exact name ▸ suits.gives function signature found (result.trans isBool)

/-- The arms of a condition come together in a block whose parameter is the value of a node. -/
theorem join {tested opened filled turned done : Stage} {test result left right : Value}
    {others : List (String × Ty)} {leftTable rightTable : Table}
    (forks : Forks test tested result opened) (leftFills : Fills opened filled)
    (leftArm : Tells outlook setting bound opened filled added leftTable)
    (turns : Does (hopping (.jump ⟨⟨tested.blocks + 2⟩, [left]⟩) ⟨tested.blocks + 1⟩)
      filled turned)
    (rightFills : Fills turned done)
    (rightArm : Tells outlook setting (bound ++ added) turned done others rightTable)
    (joins : Does (hopping (.jump ⟨⟨tested.blocks + 2⟩, [right]⟩) ⟨tested.blocks + 2⟩) done last)
    (onLeft : note.type = .bool → ∃ entry ∈ leftTable, entry.1.type = .bool ∧ entry.2 = left)
    (onRight : note.type = .bool → ∃ entry ∈ rightTable, entry.1.type = .bool ∧ entry.2 = right) :
    Tells outlook setting bound tested last (added ++ others)
      ((note, result) :: (leftTable ++ rightTable)) where
  reaches := forks.reaches.trans (leftArm.reaches.trans (turns.reaches.trans
    (rightArm.reaches.trans joins.reaches)))
  tells moves kept := by
    obtain ⟨source, active⟩ := kept.active
    obtain ⟨leftEnd, rightEnd, inLeft, -, inRight, -, whole⟩ :=
      forks.flows kept.sound active leftFills turns rightFills joins
    have movesDone := joins.reaches.moves.trans moves
    have keptOpened := kept.reaches forks.reaches (forks.tabled kept.tabled) ⟨_, inLeft⟩
      (forks.keeps kept.keeps)
    obtain ⟨keptFilled, early⟩ := leftArm.tells
      (turns.reaches.moves.trans (rightArm.reaches.moves.trans movesDone)) keptOpened
    have keptTurned := keptFilled.reaches turns.reaches (turns.tabled rfl keptFilled.tabled)
      ⟨_, inRight⟩ (turns.keeps rfl keptFilled.keeps)
    obtain ⟨keptDone, late⟩ := rightArm.tells movesDone keptTurned
    have keptLast := keptDone.reaches joins.reaches (joins.tabled rfl keptDone.tabled)
      ⟨_, whole.active⟩ (joins.keeps rfl keptDone.keeps)
    rw [List.append_assoc] at keptLast
    refine ⟨keptLast, List.forall_mem_cons.mpr ⟨fun isBool => ?_,
      List.forall_mem_append.mpr ⟨early, late⟩⟩⟩
    obtain ⟨explicit, passed⟩ :=
      forks.merged kept.sound active leftFills turns rightFills joins moves
    refine .merged (by simp [firstBlock]) explicit
      fun origin instruction destination argument member leads there given => ?_
    rcases passed origin instruction destination member leads there with same | same
    · rw [same, List.mem_singleton] at given
      obtain ⟨entry, listed, type, rfl⟩ := onLeft isBool
      exact given ▸ early entry listed type
    · rw [same, List.mem_singleton] at given
      obtain ⟨entry, listed, type, rfl⟩ := onRight isBool
      exact given ▸ late entry listed type

/-- A loop binds its name to numbers only. -/
theorem loop {limited opened inside filled advanced left : Stage} {name : String}
    {limit round one : Value} (enters : Enters limit limited round one opened)
    (binds : Binds name round opened inside) (fills : Fills inside filled)
    (body : Tells outlook setting (bound ++ [(name, .int)]) inside filled added table)
    (advances : Does [.emit (.arithmetic .add round one) [.i64]] filled advanced)
    (leaves : Does (leaving filled.next limited.blocks) advanced left)
    (listed : bound ++ [(name, .int)] <+: outlook.bindings) :
    Tells outlook setting bound limited left ((name, .int) :: added) table where
  reaches := enters.reaches.trans (binds.reaches.trans (body.reaches.trans
    (advances.reaches.trans leaves.reaches)))
  tells moves kept := by
    obtain ⟨source, active⟩ := kept.active
    obtain ⟨bodyEnd, inBody, -, -, -, whole⟩ :=
      enters.flows kept.sound active binds fills advances leaves
    have keptOpened := kept.reaches enters.reaches (enters.tabled kept.tabled) ⟨_, inBody⟩
      (enters.keeps kept.keeps)
    have keptInside := keptOpened.bind binds listed fun isBool => by cases isBool
    obtain ⟨keptFilled, truths⟩ := body.tells
      (advances.reaches.moves.trans (leaves.reaches.moves.trans moves)) keptInside
    have keptAdvanced := keptFilled.emit advances rfl trivial
    have keptLeft := keptAdvanced.reaches leaves.reaches (leaves.tabled rfl keptAdvanced.tabled)
      ⟨_, whole.active⟩ (leaves.keeps rfl keptAdvanced.keeps)
    rw [List.append_assoc] at keptLeft
    exact ⟨keptLeft, truths⟩

end Tells

/-! ## All nodes -/

theorem isTruth_truthWord (value : Bool) : IsTruth (truthWord value) := by
  cases value <;> decide

theorem listed_left {bound left right all : List (String × Ty)}
    (listed : bound ++ (left ++ right) <+: all) : bound ++ left <+: all := by
  rw [← List.append_assoc] at listed
  exact (List.prefix_append _ _).trans listed

section Nodes

variable {outlook : Outlook} {setting : Setting} {known : SignatureTable} {work next : Work}
  {first middle last : Stage} {values : List Value} {table others : Table}

/-- What is lowered tells of its nodes if it is annotated as the rules demand and careful, and if
what it binds is listed. -/
def Told (outlook : Outlook) (setting : Setting) (known : SignatureTable) (work : Work)
    (first last : Stage) (table : Table) : Prop :=
  ∀ {bound}, work.Annotated known (Variables.bindAll (fun _ => none) bound) →
    work.isCareful = true → bound ++ work.bindings <+: outlook.bindings →
      Tells outlook setting bound first last work.bindings table

/-- The second of two parts is annotated where the first has bound its variables. -/
theorem Told.append (left : Told outlook setting known work first middle table)
    (right : Told outlook setting known next middle last others) {bound : List (String × Ty)}
    (ofLeft : work.Annotated known (Variables.bindAll (fun _ => none) bound))
    (ofRight : next.Annotated known
      (Variables.bindAll (Variables.bindAll (fun _ => none) bound) work.bindings))
    (careful : work.isCareful = true ∧ next.isCareful = true)
    (listed : bound ++ (work.bindings ++ next.bindings) <+: outlook.bindings) :
    Tells outlook setting bound first last (work.bindings ++ next.bindings) (table ++ others) := by
  rw [← Variables.bindAll_append] at ofRight
  exact Tells.append (left ofLeft careful.1 (listed_left listed))
    (right ofRight careful.2 (by rwa [List.append_assoc]))

theorem Accounts.tells (suits : outlook.Suits setting known)
    (accounts : Accounts setting work first values last table) :
    Told outlook setting known work first last table := by
  induction accounts with
  | integer emits =>
      intro bound annotated careful listed
      have type := Expr.Annotated.integer annotated
      exact (Tells.refl _ _ _ _).emit emits rfl rfl fun isBool => by simp [type] at isBool
  | boolean emits =>
      intro bound annotated careful listed
      exact (Tells.refl _ _ _ _).emit emits rfl rfl fun _ _ => isTruth_truthWord _
  | ident resolves uses =>
      intro bound annotated careful listed
      exact .ident resolves uses (Expr.Annotated.ident annotated)
        ((List.prefix_append _ _).trans listed)
  | comparison onLeft onRight compares widens left right =>
      intro bound annotated careful listed
      obtain ⟨ofLeft, ofRight⟩ := Expr.Annotated.comparison annotated
      rw [Work.isCareful, Expr.isCareful, Bool.and_eq_true, Bool.and_eq_true] at careful
      rw [Work.bindings, Expr.bindings] at listed ⊢
      have both := left.append right ofLeft ofRight careful.2 listed
      exact (both.emits compares rfl rfl).emit widens rfl rfl fun _ moves =>
        (Moves.grows (widens.reaches.moves.trans moves)).type? compares.emit_hasType
  | arithmetic onLeft onRight emits left right =>
      intro bound annotated careful listed
      obtain ⟨ofLeft, ofRight, type⟩ := Expr.Annotated.arithmetic annotated
      rw [Work.isCareful, Expr.isCareful, Bool.and_eq_true, Bool.and_eq_true,
        Operator.isCareful, decide_eq_true_iff] at careful
      rw [Work.bindings, Expr.bindings] at listed ⊢
      have both := left.append right ofLeft ofRight careful.2 listed
      exact both.emit emits rfl rfl fun isBool => by simp [type, careful.1.1] at isBool
  | bind onValue binds inner =>
      intro bound annotated careful listed
      obtain ⟨ofValue, type⟩ := Expr.Annotated.bind annotated
      rw [Work.isCareful, Expr.isCareful] at careful
      rw [Work.bindings, Expr.bindings] at listed ⊢
      have root := onValue.root
      refine ((inner ofValue careful (listed_left listed)).bind binds listed ?_).node ?_
      · exact fun isBool => ⟨_, root, isBool, rfl⟩
      · exact fun isBool => ⟨_, root, type.symm.trans isBool, rfl⟩
  | sequence onLeft onRight left right =>
      intro bound annotated careful listed
      obtain ⟨ofLeft, ofRight, type⟩ := Expr.Annotated.sequence annotated
      rw [Work.isCareful, Expr.isCareful, Bool.and_eq_true] at careful
      rw [Work.bindings, Expr.bindings] at listed ⊢
      have both := left.append right ofLeft ofRight careful listed
      exact both.node fun isBool =>
        ⟨_, List.mem_append_right _ onRight.root, type.symm.trans isBool, rfl⟩
  | call refers onArguments emits arguments =>
      intro bound annotated careful listed
      obtain ⟨ofArguments, signature, found, parameters, result⟩ := Expr.Annotated.call annotated
      rw [Work.isCareful, Expr.isCareful] at careful
      rw [Work.bindings, Expr.bindings] at listed ⊢
      exact .call suits refers (arguments ofArguments careful listed) emits onArguments.roots found
        parameters result
  | conditional onTest forks leftArm turns rightArm joins test left right =>
      intro bound annotated careful listed
      obtain ⟨ofTest, ofTrue, ofFalse, typeTrue, typeFalse⟩ :=
        Expr.Annotated.conditional annotated
      rw [Work.isCareful, Expr.isCareful, Bool.and_eq_true, Bool.and_eq_true] at careful
      rw [Work.bindings, Expr.bindings] at listed ⊢
      rw [← Variables.bindAll_append] at ofTrue ofFalse
      rw [← Variables.bindAll_append, ← List.append_assoc] at ofFalse
      have arms := listed
      rw [← List.append_assoc] at arms
      have joined := Tells.join forks leftArm.lowers.fills
        (left ofTrue careful.2.1 (listed_left arms)) turns rightArm.lowers.fills
        (right ofFalse careful.2.2 (by rwa [List.append_assoc])) joins
        (fun isBool => ⟨_, leftArm.root, typeTrue.symm.trans isBool, rfl⟩)
        (fun isBool => ⟨_, rightArm.root, typeFalse.symm.trans isBool, rfl⟩)
      exact ((test ofTest careful.1 (listed_left listed)).append joined).subset
        fun _ => List.perm_middle.mem_iff.mpr
  | each onBound enters binds inLoop advances leaves emits limit body =>
      intro bound annotated careful listed
      obtain ⟨ofBound, ofBody, type⟩ := Expr.Annotated.each annotated
      rw [Work.isCareful, Expr.isCareful, Bool.and_eq_true] at careful
      rw [Work.bindings, Expr.bindings] at listed ⊢
      have inner := listed
      rw [← List.append_assoc, ← List.singleton_append] at inner
      rw [← Variables.bindAll_append, ← Variables.bindAll_nil (Variables.bind _ _ _),
        ← Variables.bindAll_cons, ← Variables.bindAll_append] at ofBody
      have looped := Tells.loop enters binds inLoop.lowers.fills
        (body ofBody careful.2 (by rwa [List.append_assoc])) advances leaves (listed_left inner)
      exact ((limit ofBound careful.1 (listed_left listed)).append looped).emit emits rfl rfl
        fun isBool => by simp [type] at isBool
  | array reserves counts starts onElements locates elements =>
      intro bound annotated careful listed
      obtain ⟨ofElements, element, type⟩ := Expr.Annotated.array annotated
      rw [Work.isCareful, Expr.isCareful] at careful
      rw [Work.bindings, Expr.bindings] at listed ⊢
      have started : Tells outlook setting bound _ _ [] [] :=
        ((Tells.reserve reserves).emits counts rfl rfl).emits starts rfl rfl
      exact (started.andThen (elements ofElements careful listed)).emit locates rfl rfl
        fun isBool => by simp [type] at isBool
  | index onTarget onPosition ones words places scales locates loads target position =>
      intro bound annotated careful listed
      obtain ⟨ofTarget, ofPosition⟩ := Expr.Annotated.index annotated
      rw [Work.isCareful, Expr.isCareful, Bool.and_eq_true, Bool.and_eq_true,
        decide_eq_true_iff] at careful
      rw [Work.bindings, Expr.bindings] at listed ⊢
      have both := target.append position ofTarget ofPosition careful.2 listed
      have placed := ((both.emits ones rfl rfl).emits words rfl rfl).emits places rfl rfl
      exact ((placed.emits scales rfl rfl).emits locates rfl rfl).emit loads rfl rfl
        fun isBool => absurd isBool careful.1
  | length onTarget loads target =>
      intro bound annotated careful listed
      obtain ⟨ofTarget, type⟩ := Expr.Annotated.length annotated
      rw [Work.isCareful, Expr.isCareful] at careful
      rw [Work.bindings, Expr.bindings] at listed ⊢
      exact (target ofTarget careful listed).emit loads rfl rfl
        fun isBool => by simp [type] at isBool
  | nil | stop =>
      intro bound annotated careful listed
      exact .refl _ _ _ _
  | cons onHead onTail head tail =>
      intro bound annotated careful listed
      rw [Work.Annotated, Expr.AnnotatedAll] at annotated
      obtain ⟨ofHead, ofTail⟩ := annotated
      rw [Work.isCareful, Expr.areCareful, Bool.and_eq_true] at careful
      rw [Work.bindings, Expr.bindingsAll] at listed ⊢
      exact head.append tail ofHead ofTail careful listed
  | store onHead stores onTail head tail =>
      intro bound annotated careful listed
      rw [Work.Annotated, Expr.AnnotatedAll] at annotated
      obtain ⟨ofHead, ofTail⟩ := annotated
      rw [Work.isCareful, Expr.areCareful, Bool.and_eq_true] at careful
      rw [Work.bindings, Expr.bindingsAll] at listed ⊢
      have stored : Told outlook setting known (.expression _) _ _ _ :=
        fun annotated careful listed => (head annotated careful listed).emits stores rfl rfl
      exact stored.append tail ofHead ofTail careful listed

end Nodes

end Lowering

end ExprLang

/-!
## Definitions that keep promises

The code of a careful definition keeps the promises that are made for the functions of its program
by their signatures.
-/

namespace ExprLang

open Ssa

def TypedParameter.binding (parameter : TypedParameter) : String × Ty :=
  (parameter.name, parameter.type)

/-- The variables of a definition with their types: the parameters, and what the body binds. -/
def TypedDefinition.bindings (definition : TypedDefinition) : List (String × Ty) :=
  definition.parameters.map TypedParameter.binding ++ definition.body.bindings

namespace Lowering

variable {outlook : Outlook} {promises : Promises} {setting : Setting} {known : SignatureTable}

/-- The parameters are bound to their values. -/
theorem BindsAll.kept {parameters : List TypedParameter} {values : List Value}
    {bound : List (String × Ty)} {first last : Stage}
    (binds : BindsAll (parameters.map TypedParameter.name) values first last)
    (kept : Kept outlook setting bound first)
    (listed : bound ++ parameters.map TypedParameter.binding <+: outlook.bindings)
    (truth : ∀ (index : Nat) parameter value, parameters[index]? = some parameter →
      values[index]? = some value → parameter.type = .bool → outlook.Truth value) :
    Kept outlook setting (bound ++ parameters.map TypedParameter.binding) last := by
  induction parameters generalizing bound values first with
  | nil =>
      cases binds
      simpa using kept
  | cons parameter parameters induction =>
      rw [List.map_cons, ← List.singleton_append, ← List.append_assoc] at listed ⊢
      cases binds with
      | cons head rest =>
          have bindsHead := kept.bind head ((List.prefix_append _ _).trans listed)
            (truth 0 parameter _ rfl rfl)
          exact induction rest bindsHead listed fun index => truth (index + 1)

theorem Stage.kept_opened (outlook : Outlook) (setting : Setting) (id : FunctionId)
    (declaration : Declaration) : Kept outlook setting [] (Stage.opened id declaration) := by
  have ready := Stage.ready_opened id declaration setting
  refine ⟨ready.sound, (Recording.Sourced.start id declaration).moves
    (Sound.start id declaration) (Stage.reaches_opened id declaration).moves, ready.tabled,
    ready.active, fun label event member => ?_⟩
  have script := congrArg (fun shape => shape.script label) (Stage.shape_opened id declaration)
  change (Stage.opened id declaration).recording.script label = [] at script
  rw [script] at member
  cases member

/-- A careful definition keeps promises, and all of its nodes of type `Bool` have truths as their
values. -/
theorem Compiles.truthful {definition : TypedDefinition} {id : FunctionId}
    {declaration : Declaration} {bound lowered last : Stage} {result : Value} {table : Table}
    (compiles : Compiles setting definition id declaration bound lowered result last)
    (accounts : Accounts setting (.expression definition.body) bound [result] lowered table)
    (accepted : last.recording.builder.finalize = .ok ())
    (outlooks : outlook = ⟨promises, definition.bindings, last.recording⟩)
    (suits : outlook.Suits setting known)
    (annotated : definition.body.Annotated known (Variables.bindAll (fun _ => none)
      (definition.parameters.map TypedParameter.binding)))
    (careful : definition.body.isCareful = true)
    (takes : ∀ (index : Nat) parameter, definition.parameters[index]? = some parameter →
      parameter.type = .bool → promises.takes declaration.name index)
    (gives : promises.gives declaration.name → definition.body.type = .bool) :
    last.recording.Truthful promises firstBlock outlook.HoldsTruths ∧
      (∀ entry ∈ table, entry.1.type = .bool → outlook.Truth entry.2) ∧
        ∀ (index : Nat) parameter value, definition.parameters[index]? = some parameter →
          parameter.type = .bool →
            (last.recording.builder.function.block firstBlock).parameters[index]? = some value →
              outlook.Truth value := by
  have finished := compiles.finished accepted
  have name : last.recording.builder.function.name = declaration.name :=
    (Moves.grows compiles.moves).name
  obtain ⟨-, bare, inputs⟩ := compiles.entered
  have given : ∀ (index : Nat) parameter value, definition.parameters[index]? = some parameter →
      parameter.type = .bool → (Stage.inputs declaration)[index]? = some value →
        outlook.Truth value := by
    intro index parameter value found isBool placed
    subst outlooks
    exact .given (inputs ▸ placed) (name ▸ takes index parameter found isBool)
  obtain ⟨binds, lowers, returns⟩ := compiles
  have listed : definition.parameters.map TypedParameter.binding ++ definition.body.bindings <+:
      outlook.bindings := by
    subst outlooks
    exact List.prefix_rfl
  have keptBound := binds.kept (Stage.kept_opened outlook setting id declaration)
    ((List.prefix_append _ _).trans listed) fun index parameter value found placed isBool =>
      given index parameter value found isBool placed
  obtain ⟨keptLowered, truths⟩ := (accounts.tells suits annotated careful listed).tells
    (by subst outlooks; exact returns.reaches.moves) keptBound
  have returned : (Operation.ret [result]).Keeps outlook.promises outlook.final.builder.function
      outlook.Truth := by
    intro promised value member
    cases List.mem_singleton.mp member
    refine truths _ accounts.root (gives ?_)
    subst outlooks
    exact name ▸ promised
  have keeps := returns.emit_keeps returned keptLowered.keeps
  refine ⟨⟨finished, bare, keptLowered.sourced.moves keptLowered.sound returns.reaches.moves,
    ?_⟩, truths, fun index parameter value found isBool placed =>
      given index parameter value found isBool (inputs ▸ placed)⟩
  subst outlooks
  exact keeps

end Lowering

end ExprLang
