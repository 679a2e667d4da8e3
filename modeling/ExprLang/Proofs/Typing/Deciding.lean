import ExprLang.Builtin
import ExprLang.Proofs.Typing.Checking

/-!
# Typable expressions are accepted

Main statement: the checker accepts an expression if and only if the rules give it a type, it
annotates every node with the type that they give to the node, and leaves the scope that they say.
-/

namespace ExprLang

namespace Expr

variable {around : Surroundings}

mutual

theorem infer_complete (tree : Expr Position) {scope : Scope} {type : Ty} {later : Variables}
    (types : Types around.known scope.find? tree type later) :
    ∃ typed after, (tree.infer around).run scope = (.ok typed, after) ∧
      typed.type = type ∧ after.find? = later := by
  cases types with
  | integer | boolean =>
      rw [infer]
      exact ⟨_, scope, rfl, rfl, rfl⟩
  | @ident _ note name _ bound =>
      refine ⟨.ident ⟨Placed.position note, type⟩ name, scope, ?_, rfl, rfl⟩
      rw [infer]
      refine Check.run_bind_eq_ok.mpr ⟨_, _, Check.run_get_eq_ok.mpr ⟨rfl, rfl⟩, ?_⟩
      rw [bound]
      rfl
  | @array _ note trees element types _ elements same =>
      obtain ⟨typed, after, ran, given, rfl⟩ := inferElements_complete trees none 0 elements
        (by simpa using same)
      obtain ⟨first, others, rfl, rfl, -⟩ := List.map_eq_cons_iff.mp given
      refine ⟨.array ⟨Placed.position note, .array first.type⟩ (first :: others), after, ?_, rfl,
        rfl⟩
      rw [infer]
      exact Check.run_bind_eq_ok.mpr ⟨_, _, ran, rfl⟩
  | @arithmetic _ note operation left right _ _ _ onLeft onRight =>
      obtain ⟨typedLeft, middle, first, rfl, rfl⟩ := infer_complete left onLeft
      obtain ⟨typedRight, after, second, same, rfl⟩ := infer_complete right onRight
      refine ⟨.binary ⟨Placed.position note, typedLeft.type⟩ (.arithmetic operation) typedLeft
        typedRight, after, ?_, rfl, rfl⟩
      rw [infer]
      refine Check.run_bind_eq_ok.mpr ⟨_, _, first, ?_⟩
      refine Check.run_bind_eq_ok.mpr ⟨_, _, second, ?_⟩
      refine Check.run_bind_eq_ok.mpr ⟨typedLeft.type, _, rfl, ?_⟩
      dsimp only
      rw [if_pos same.symm]
      rfl
  | @comparison _ note relation left right _ _ _ onLeft onRight =>
      obtain ⟨typedLeft, middle, first, rfl, rfl⟩ := infer_complete left onLeft
      obtain ⟨typedRight, after, second, same, rfl⟩ := infer_complete right onRight
      refine ⟨.binary ⟨Placed.position note, .bool⟩ (.comparison relation) typedLeft typedRight,
        after, ?_, rfl, rfl⟩
      rw [infer]
      refine Check.run_bind_eq_ok.mpr ⟨_, _, first, ?_⟩
      refine Check.run_bind_eq_ok.mpr ⟨_, _, second, ?_⟩
      refine Check.run_bind_eq_ok.mpr ⟨.bool, _, rfl, ?_⟩
      dsimp only
      rw [if_pos same.symm]
      rfl
  | @bind _ note name value _ _ inner =>
      obtain ⟨typedValue, middle, first, rfl, rfl⟩ := infer_complete value inner
      refine ⟨.bind ⟨Placed.position note, typedValue.type⟩ name typedValue,
        middle.bind name typedValue.type, ?_, rfl, Scope.find?_bind ..⟩
      rw [infer]
      refine Check.run_bind_eq_ok.mpr ⟨_, _, first, ?_⟩
      exact Check.run_bind_eq_ok.mpr ⟨(), _, Check.run_bindVariable_eq_ok.mpr rfl, rfl⟩
  | @sequence _ note left right _ _ _ _ onFirst onSecond =>
      obtain ⟨typedLeft, middle, first, rfl, rfl⟩ := infer_complete left onFirst
      obtain ⟨typedRight, after, second, rfl, rfl⟩ := infer_complete right onSecond
      refine ⟨.sequence ⟨Placed.position note, typedRight.type⟩ typedLeft typedRight, after, ?_,
        rfl, rfl⟩
      rw [infer]
      refine Check.run_bind_eq_ok.mpr ⟨_, _, first, ?_⟩
      exact Check.run_bind_eq_ok.mpr ⟨_, _, second, rfl⟩
  | @call _ note function arguments signature _ found onArguments =>
      obtain ⟨typed, after, ran, rfl⟩ := inferArguments_complete arguments function 0 onArguments
      refine ⟨.call ⟨Placed.position note, signature.result⟩ function typed, after, ?_, rfl, rfl⟩
      rw [infer, found]
      dsimp only
      rw [if_pos onArguments.length_eq]
      exact Check.run_bind_eq_ok.mpr ⟨_, _, ran, rfl⟩
  | @conditional _ note condition onTrue onFalse _ _ _ _ onCondition trueArm falseArm =>
      obtain ⟨test, tested, first, truth, rfl⟩ := infer_complete condition onCondition
      obtain ⟨typedTrue, middle, second, rfl, rfl⟩ := infer_complete onTrue trueArm
      obtain ⟨typedFalse, after, third, same, rfl⟩ := infer_complete onFalse falseArm
      refine ⟨.conditional ⟨Placed.position note, typedTrue.type⟩ test typedTrue typedFalse, after,
        ?_, rfl, rfl⟩
      rw [infer]
      refine Check.run_bind_eq_ok.mpr ⟨_, _, first, ?_⟩
      rw [if_pos truth]
      refine Check.run_bind_eq_ok.mpr ⟨_, _, second, ?_⟩
      refine Check.run_bind_eq_ok.mpr ⟨_, _, third, ?_⟩
      rw [if_pos same.symm]
      rfl
  | @index _ note target position _ _ _ onTarget ofArrays onPosition =>
      obtain ⟨base, middle, first, rfl, rfl⟩ := infer_complete target onTarget
      obtain ⟨offset, after, second, number, rfl⟩ := infer_complete position onPosition
      refine ⟨.index ⟨Placed.position note, base.type.element⟩ base offset, after, ?_, rfl, rfl⟩
      rw [infer]
      refine Check.run_bind_eq_ok.mpr ⟨_, _, first, ?_⟩
      rw [if_pos ofArrays]
      refine Check.run_bind_eq_ok.mpr ⟨_, _, second, ?_⟩
      rw [if_pos number]
      rfl
  | @length _ note target _ _ onTarget ofArrays =>
      obtain ⟨base, middle, first, rfl, rfl⟩ := infer_complete target onTarget
      refine ⟨.length ⟨Placed.position note, .int⟩ base, middle, ?_, rfl, rfl⟩
      rw [infer]
      refine Check.run_bind_eq_ok.mpr ⟨_, _, first, ?_⟩
      rw [if_pos ofArrays]
      rfl
  | @each _ note name bound body _ _ _ onBound inLoop =>
      obtain ⟨limit, middle, first, number, rfl⟩ := infer_complete bound onBound
      rw [← Scope.find?_bind] at inLoop
      obtain ⟨typedBody, after, second, -, rfl⟩ := infer_complete body inLoop
      refine ⟨.each ⟨Placed.position note, .int⟩ name limit typedBody, after, ?_, rfl, rfl⟩
      rw [infer]
      refine Check.run_bind_eq_ok.mpr ⟨_, _, first, ?_⟩
      rw [if_pos number]
      refine Check.run_bind_eq_ok.mpr ⟨(), _, Check.run_bindVariable_eq_ok.mpr rfl, ?_⟩
      exact Check.run_bind_eq_ok.mpr ⟨_, _, second, rfl⟩

theorem inferElements_complete (trees : List (Expr Position)) (expected : Option Ty) (index : Nat)
    {scope : Scope} {types : List Ty} {later : Variables}
    (all : TypesAll around.known scope.find? trees types later)
    (same : ∀ type ∈ types, ∀ wanted, expected.or types.head? = some wanted → type = wanted) :
    ∃ typed after, (inferElements around expected index trees).run scope = (.ok typed, after) ∧
      typed.map type = types ∧ after.find? = later := by
  cases trees with
  | nil =>
      cases all
      rw [inferElements]
      exact ⟨[], scope, rfl, rfl, rfl⟩
  | cons tree trees =>
      obtain _ | ⟨head, tail⟩ := all
      obtain ⟨element, middle, first, rfl, rfl⟩ := infer_complete tree head
      have fits : element.type = expected.getD element.type :=
        same _ List.mem_cons_self _ (by cases expected <;> rfl)
      obtain ⟨typed, after, second, rfl, rfl⟩ := inferElements_complete trees
        (some (expected.getD element.type)) (index + 1) tail (by
          intro type member wanted given
          cases given
          exact same type (List.mem_cons_of_mem _ member) _ (by cases expected <;> rfl))
      refine ⟨element :: typed, after, ?_, rfl, rfl⟩
      rw [inferElements]
      refine Check.run_bind_eq_ok.mpr ⟨_, _, first, ?_⟩
      dsimp only
      rw [if_pos fits]
      exact Check.run_bind_eq_ok.mpr ⟨_, _, second, rfl⟩

theorem inferArguments_complete (trees : List (Expr Position)) (function : String) (index : Nat)
    {scope : Scope} {types : List Ty} {later : Variables}
    (all : TypesAll around.known scope.find? trees types later) :
    ∃ typed after, (inferArguments around function types index trees).run scope =
      (.ok typed, after) ∧ after.find? = later := by
  cases trees with
  | nil =>
      cases all
      rw [inferArguments]
      exact ⟨[], scope, rfl, rfl⟩
  | cons tree trees =>
      obtain _ | ⟨head, tail⟩ := all
      obtain ⟨argument, middle, first, rfl, rfl⟩ := infer_complete tree head
      obtain ⟨typed, after, second, rfl⟩ := inferArguments_complete trees function (index + 1) tail
      refine ⟨argument :: typed, after, ?_, rfl⟩
      rw [inferArguments]
      refine Check.run_bind_eq_ok.mpr ⟨_, _, first, ?_⟩
      dsimp only [List.headD_cons]
      rw [if_pos rfl]
      exact Check.run_bind_eq_ok.mpr ⟨_, _, second, rfl⟩

end

/-- An expression is accepted in a scope if and only if it has a type there. -/
theorem check_isOk_iff (known : SignatureTable) (scope : Scope) (tree : Expr Position) :
    (∃ typed, (tree.check known scope).1 = .ok typed) ↔
      ∃ type later, Types known scope.find? tree type later := by
  constructor
  · rintro ⟨typed, accepted⟩
    exact ⟨_, _, (infer_sound tree (Prod.ext accepted rfl)).types⟩
  · rintro ⟨type, later, types⟩
    obtain ⟨typed, after, ran, -, -⟩ := @infer_complete ⟨"<expr>", known⟩ tree _ _ _ types
    exact ⟨typed, congrArg Prod.fst ran⟩

end Expr

/-! ## Definitions -/

namespace Definition

/-- The variables that a body starts with: the parameters, of which the last one of a name
counts. -/
def inputs (definition : Definition Position) : Variables :=
  Variables.bindAll (fun _ => none)
    (definition.parameters.map fun parameter => (parameter.name, parameter.type))

/-- A definition was annotated as the rules demand where some functions are known. -/
structure Elaborates (known : SignatureTable) (definition : Definition Position)
    (typed : TypedDefinition) : Prop where
  fresh : known.find? definition.name = none
  name : typed.name = definition.name
  position : typed.position = definition.position
  parameters : typed.parameters =
    definition.parameters.map fun parameter => ⟨parameter.name, parameter.type⟩
  takes : typed.signature.parameters = definition.parameters.map Parameter.type
  gives : typed.signature.result = typed.body.type
  body : typed.body.erase = definition.body
  annotated : typed.body.Annotated known definition.inputs
  typings : typed.typings = typed.body.notes

variable {known : SignatureTable} {definition : Definition Position} {typed : TypedDefinition}

theorem elaborates_of_check (checked : definition.check known = .ok typed) :
    Elaborates known definition typed := by
  rw [check] at checked
  split at checked
  · cases checked
  · rename_i fresh
    dsimp only at checked
    split at checked
    · cases checked
    · rename_i body accepted
      cases checked
      have sound := Expr.infer_sound definition.body (Prod.ext accepted rfl)
      have annotated := sound.annotated
      rw [Scope.find?_ofParameters] at annotated
      exact ⟨by simpa using fresh, rfl, rfl, rfl, rfl, rfl, sound.erase, annotated, rfl⟩

/-- A definition is accepted if and only if its name is not taken and its body has a type. -/
theorem check_isOk_iff :
    (∃ typed, definition.check known = .ok typed) ↔
      known.find? definition.name = none ∧
        ∃ type later, Types known definition.inputs definition.body type later := by
  constructor
  · rintro ⟨typed, checked⟩
    have elaborates := elaborates_of_check checked
    have types := elaborates.annotated.types
    rw [elaborates.body] at types
    exact ⟨elaborates.fresh, _, _, types⟩
  · rintro ⟨fresh, type, later, types⟩
    rw [inputs, ← Scope.find?_ofParameters] at types
    obtain ⟨body, after, ran, -, -⟩ :=
      @Expr.infer_complete ⟨definition.name, known⟩ definition.body _ _ _ types
    rw [check, if_neg (by simp [fresh])]
    dsimp only
    rw [ran]
    exact ⟨_, rfl⟩

end Definition

/-- The checker decides the typing rules. Whatever it accepts differs from the given tree only in
its notes, which are those that the rules demand, and the scope behind it is the given one with
everything that the tree binds. Functions get the parameter types that they declare and the type of
their body. -/
theorem check_decides_types (known : SignatureTable) :
    (∀ (scope : Scope) (tree : Expr Position),
      ((∃ typed, (tree.check known scope).1 = .ok typed) ↔
        ∃ type later, Types known scope.find? tree type later) ∧
      ∀ typed, (tree.check known scope).1 = .ok typed →
        typed.erase = tree ∧ typed.Annotated known scope.find? ∧
          (tree.check known scope).2.find? = Variables.bindAll scope.find? typed.bindings ∧
          ∀ type later, Types known scope.find? tree type later →
            type = typed.type ∧ later = (tree.check known scope).2.find?) ∧
    ∀ definition : Definition Position,
      ((∃ typed, definition.check known = .ok typed) ↔
        known.find? definition.name = none ∧
          ∃ type later, Types known definition.inputs definition.body type later) ∧
      ∀ typed, definition.check known = .ok typed → definition.Elaborates known typed := by
  refine ⟨fun scope tree => ⟨tree.check_isOk_iff known scope, fun typed accepted => ?_⟩,
    fun definition => ⟨Definition.check_isOk_iff, fun typed => Definition.elaborates_of_check⟩⟩
  have sound : Expr.Elaborates ⟨"<expr>", known⟩ tree typed scope (tree.check known scope).2 :=
    Expr.infer_sound tree (Prod.ext accepted rfl)
  exact ⟨sound.erase, sound.annotated, sound.find?, fun type later types =>
    types.unique sound.types⟩

end ExprLang
