import ExprLang.Proofs.Lowering.Arrays

/-!
# Code without arrays

Memory is used for arrays only: a definition in which no array is made or looked at becomes a
function that has no slots and loads nothing.
-/

namespace ExprLang

open Ssa

/-! ## Kinds of operations -/

namespace Ssa

def Deed.kind? : Deed → Option Opcode
  | .emit operation _ => some operation.opcode
  | _ => none

def Recording.Emits (recording : Recording) (kind : Opcode) : Prop :=
  ∃ label instruction, Event.instruction instruction ∈ recording.script label ∧
    instruction.operation.opcode = kind

variable {entry : Option Label} {deeds : List Deed} {recording later : Recording}
  {kind : Opcode}

theorem PerformsAll.emits (performs : PerformsAll entry deeds recording later)
    (emits : later.Emits kind) : recording.Emits kind ∨ some kind ∈ deeds.map Deed.kind? := by
  obtain ⟨label, instruction, member, same⟩ := emits
  rcases performs.adds member with old | ⟨deed, done, adds⟩
  · exact .inl ⟨label, instruction, old, same⟩
  · cases adds with
    | emit appended =>
        rw [appended] at same
        exact .inr (List.mem_map.mpr ⟨_, done, congrArg some same⟩)

structure Function.Scalar (function : Function) : Prop where
  slots : function.slots = #[]
  loads : ∀ label, ∀ instruction ∈ (function.block label).instructions,
    instruction.operation.opcode ≠ .load

theorem Recording.loads_of_code (sound : Sound recording) (absent : ¬ recording.Emits .load)
    (label : Label) {instruction : Instruction}
    (member : instruction ∈ (recording.builder.function.block label).instructions) :
    instruction.operation.opcode ≠ .load := by
  rcases sound.scripted.mem_code.mp member with ⟨zero, _, rfl⟩ | ⟨original, inside, rfl⟩
  · exact fun same => by cases same
  · rw [Instruction.extend, Operation.opcode_extend]
    exact fun same => absent ⟨label, original, mem_emitted.mp inside, same⟩

end Ssa

/-! ## Expressions without arrays -/

namespace Expr

mutual

/-- Whether an expression neither makes an array nor looks at one. -/
def isScalar : Expr α → Bool
  | integer _ _ | boolean _ _ | ident _ _ | unknown _ _ _ => true
  | array _ _ | index _ _ _ | length _ _ => false
  | binary _ _ left right => left.isScalar && right.isScalar
  | bind _ _ value => value.isScalar
  | sequence _ first second => first.isScalar && second.isScalar
  | call _ _ arguments => areScalar arguments
  | conditional _ condition onTrue onFalse =>
    condition.isScalar && (onTrue.isScalar && onFalse.isScalar)
  | each _ _ bound body => bound.isScalar && body.isScalar

def areScalar : List (Expr α) → Bool
  | [] => true
  | tree :: trees => tree.isScalar && areScalar trees

end

mutual

theorem literals_eq_nil : ∀ {tree : Expr α}, tree.isScalar = true → tree.literals = []
  | integer _ _, _ | boolean _ _, _ | ident _ _, _ | unknown _ _ _, _ => by rw [literals]
  | array _ _, scalar | index _ _ _, scalar | length _ _, scalar => by
      rw [isScalar] at scalar
      cases scalar
  | binary _ _ left right, scalar => by
      rw [isScalar, Bool.and_eq_true] at scalar
      rw [literals, literals_eq_nil scalar.1, literals_eq_nil scalar.2, List.append_nil]
  | bind _ _ value, scalar => by
      rw [isScalar] at scalar
      rw [literals, literals_eq_nil scalar]
  | sequence _ first second, scalar => by
      rw [isScalar, Bool.and_eq_true] at scalar
      rw [literals, literals_eq_nil scalar.1, literals_eq_nil scalar.2, List.append_nil]
  | call _ _ arguments, scalar => by
      rw [isScalar] at scalar
      rw [literals, literalsAll_eq_nil scalar]
  | conditional _ condition onTrue onFalse, scalar => by
      rw [isScalar, Bool.and_eq_true, Bool.and_eq_true] at scalar
      rw [literals, literals_eq_nil scalar.1, literals_eq_nil scalar.2.1,
        literals_eq_nil scalar.2.2, List.append_nil, List.append_nil]
  | each _ _ bound body, scalar => by
      rw [isScalar, Bool.and_eq_true] at scalar
      rw [literals, literals_eq_nil scalar.1, literals_eq_nil scalar.2, List.append_nil]

theorem literalsAll_eq_nil : ∀ {trees : List (Expr α)}, areScalar trees = true →
    literalsAll trees = []
  | [], _ => by rw [literalsAll]
  | tree :: trees, scalar => by
      rw [areScalar, Bool.and_eq_true] at scalar
      rw [literalsAll, literals_eq_nil scalar.1, literalsAll_eq_nil scalar.2, List.append_nil]

end

end Expr

/-! ## Lowering expressions without arrays -/

namespace Lowering

variable {setting : Setting} {first middle last : Stage}

def Stage.Loads (stage : Stage) : Prop :=
  stage.recording.Emits .load

def Work.isScalar : Work → Bool
  | .expression tree => tree.isScalar
  | .expressions trees => Expr.areScalar trees
  | .elements _ _ _ => false

theorem Does.loads {deeds : List Deed} (does : Does deeds first last)
    (plain : some .load ∉ deeds.map Deed.kind?) (loads : last.Loads) : first.Loads :=
  (does.performs.emits loads).resolve_right plain

theorem Binds.loads {name : String} {value : Value} (binds : Binds name value first last)
    (loads : last.Loads) : first.Loads :=
  (binds.performs.emits loads).resolve_right (by simp [Deed.kind?])

theorem Refers.loads {name : String} {reference : Reference}
    (refers : Refers setting name first reference last) (loads : last.Loads) : first.Loads := by
  cases refers with
  | known | again => exact loads
  | new => exact loads

theorem Forks.loads {test result : Value} (forks : Forks test first result last)
    (loads : last.Loads) : first.Loads := by
  obtain ⟨creates, merges, branches⟩ := forks
  exact creates.loads (by decide) (merges.loads (by simp [Deed.kind?])
    (branches.loads (by simp [hopping, Deed.kind?, Operation.opcode]) loads))

theorem Enters.loads {limit round one : Value} (enters : Enters limit first round one last)
    (loads : last.Loads) : first.Loads := by
  obtain ⟨creates, counts, rounds, starts, jumps, compares, branches⟩ := enters
  have compared := branches.loads (by simp [hopping, Deed.kind?, Operation.opcode]) loads
  have jumped := compares.loads (by simp [Deed.kind?, Operation.opcode]) compared
  have started := jumps.loads (by simp [Deed.kind?, Operation.opcode]) jumped
  have rounded := starts.loads (by simp [Deed.kind?, Operation.opcode]) started
  exact creates.loads (by simp [Deed.kind?]) (counts.loads (by simp [Deed.kind?])
    (rounds.loads (by simp [Deed.kind?]) rounded))

theorem Lowers.loads {work : Work} {values : List Value}
    (lowers : Lowers setting work first values last) (scalar : work.isScalar = true)
    (loads : last.Loads) : first.Loads := by
  induction lowers with
  | integer emits | boolean emits =>
      exact emits.loads (by simp [Deed.kind?, Operation.opcode]) loads
  | ident _ uses => exact uses.loads (by simp [Deed.kind?]) loads
  | comparison _ _ compares widens left right =>
      rw [Work.isScalar, Expr.isScalar, Bool.and_eq_true] at scalar
      have compared := widens.loads (by simp [Deed.kind?, Operation.opcode]) loads
      have before := compares.loads (by simp [Deed.kind?, Operation.opcode]) compared
      exact left scalar.1 (right scalar.2 before)
  | arithmetic _ _ emits left right =>
      rw [Work.isScalar, Expr.isScalar, Bool.and_eq_true] at scalar
      have before := emits.loads (by simp [Deed.kind?, Operation.opcode]) loads
      exact left scalar.1 (right scalar.2 before)
  | bind _ binds inner =>
      rw [Work.isScalar, Expr.isScalar] at scalar
      exact inner scalar (binds.loads loads)
  | sequence _ _ left right =>
      rw [Work.isScalar, Expr.isScalar, Bool.and_eq_true] at scalar
      exact left scalar.1 (right scalar.2 loads)
  | call refers _ emits arguments =>
      rw [Work.isScalar, Expr.isScalar] at scalar
      have before := emits.loads (by simp [Deed.kind?, Operation.opcode]) loads
      exact refers.loads (arguments scalar before)
  | conditional _ forks _ turns _ joins test left right =>
      rw [Work.isScalar, Expr.isScalar, Bool.and_eq_true, Bool.and_eq_true] at scalar
      have filled := joins.loads (by simp [hopping, Deed.kind?, Operation.opcode]) loads
      have turned := turns.loads (by simp [hopping, Deed.kind?, Operation.opcode])
        (right scalar.2.2 filled)
      exact test scalar.1 (forks.loads (left scalar.2.1 turned))
  | each _ enters binds _ advances leaves emits bound body =>
      rw [Work.isScalar, Expr.isScalar, Bool.and_eq_true] at scalar
      have left := emits.loads (by simp [Deed.kind?, Operation.opcode]) loads
      have advanced := leaves.loads (by simp [leaving, Deed.kind?, Operation.opcode]) left
      have filled := advances.loads (by simp [Deed.kind?, Operation.opcode]) advanced
      exact bound scalar.1 (enters.loads (binds.loads (body scalar.2 filled)))
  | array | index | length =>
      rw [Work.isScalar, Expr.isScalar] at scalar
      cases scalar
  | nil => exact loads
  | cons _ _ head tail =>
      rw [Work.isScalar, Expr.areScalar, Bool.and_eq_true] at scalar
      exact head scalar.1 (tail scalar.2 loads)
  | stop | store => cases scalar

theorem BindsAll.loads {names : List String} {values : List Value}
    (binds : BindsAll names values first last) (loads : last.Loads) : first.Loads := by
  induction binds with
  | nil => exact loads
  | cons binds _ induction => exact binds.loads (induction loads)

theorem Compiles.scalar {definition : TypedDefinition} {id : FunctionId}
    {declaration : Declaration} {bound lowered : Stage} {result : Value}
    (compiles : Compiles setting definition id declaration bound lowered result last)
    (scalar : definition.body.isScalar = true) : last.recording.builder.function.Scalar where
  slots := by
    have slots := compiles.slots.1
    rw [Expr.literals_eq_nil scalar] at slots
    exact Array.toList_eq_nil_iff.mp slots
  loads label instruction member := by
    refine Recording.loads_of_code compiles.sound (fun loads => ?_) label member
    obtain ⟨binds, lowers, returns⟩ := compiles
    have opened := binds.loads (lowers.loads scalar
      (returns.loads (by simp [Deed.kind?, Operation.opcode]) loads))
    rcases (Stage.performs_opened id declaration).emits opened with start | opening
    · obtain ⟨label, instruction, written, _⟩ := start
      cases written
    · simp [Stage.opening, Deed.kind?] at opening

end Lowering

theorem Origin.scalar {definitions : List TypedDefinition} {module : Module} {id : FunctionId}
    {body : Function} (origin : Origin definitions module id body)
    (scalar : ∀ definition ∈ definitions, definition.body.isScalar = true) : body.Scalar := by
  obtain ⟨member, _, compiles, _, rfl, _⟩ := origin
  exact compiles.scalar (scalar _ member)

end ExprLang
