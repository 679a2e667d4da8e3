import ExprLang.Proofs.Typing.Checking

/-!
# Errors name the function around an expression, annotations do not

Main statement: what one function accepts another function accepts as well, annotated in the same
way, if both know the same functions.
-/

namespace ExprLang

/-! ## Steps that succeed in the same way -/

namespace Check

variable {α β : Type}

def Allows (first second : Check α) : Prop :=
  ∀ scope result later, first.run scope = (.ok result, later) →
    second.run scope = (.ok result, later)

namespace Allows

variable {first second : Check α} {onward further : α → Check β}

theorem refl (step : Check α) : Allows step step := fun _ _ _ ran => ran

theorem bind (head : Allows first second) (tail : ∀ value, Allows (onward value) (further value)) :
    Allows (first >>= onward) (second >>= further) := by
  intro scope result later ran
  obtain ⟨middle, between, ranFirst, ranThen⟩ := run_bind_eq_ok.mp ran
  exact run_bind_eq_ok.mpr
    ⟨middle, between, head _ _ _ ranFirst, tail middle _ _ _ ranThen⟩

theorem ite {condition : Prop} [Decidable condition] {third fourth : Check α}
    (onTrue : Allows first second) (onFalse : Allows third fourth) :
    Allows (if condition then first else third) (if condition then second else fourth) := by
  split
  · exact onTrue
  · exact onFalse

theorem blame [Placed β] {around : Surroundings} {tree : Expr β} {cause : TypeError.Cause}
    {step : Check α} : Allows (around.blame tree cause) step := by
  intro scope result later ran
  exact absurd ran run_blame_eq_ok

end Allows

end Check

/-! ## The function around an expression -/

namespace Expr

open Check

variable {α : Type} [Placed α] {known : SignatureTable}

mutual

theorem infer_allows (tree : Expr α) (function other : String) :
    Allows (tree.infer ⟨function, known⟩) (tree.infer ⟨other, known⟩) := by
  cases tree with
  | integer | boolean =>
      rw [infer, infer]
      exact .refl _
  | ident note name =>
      rw [infer, infer]
      refine .bind (.refl _) fun scope => ?_
      cases scope.find? name with
      | none => exact .blame
      | some type => exact .refl _
  | array note elements =>
      rw [infer, infer]
      refine .bind (inferElements_allows elements none 0 function other) fun typed => ?_
      cases typed with
      | nil => exact .blame
      | cons first others => exact .refl _
  | binary note operator left right =>
      rw [infer, infer]
      refine .bind (infer_allows left function other) fun left => ?_
      refine .bind (infer_allows right function other) fun right => ?_
      cases operator with
      | arithmetic | comparison => exact .bind (.refl _) fun _ => .ite (.refl _) .blame
      | unknown symbol => exact .bind .blame fun _ => .ite (.refl _) .blame
  | bind note name value =>
      rw [infer, infer]
      exact .bind (infer_allows value function other) fun value => .refl _
  | sequence note first second =>
      rw [infer, infer]
      refine .bind (infer_allows first function other) fun first => ?_
      exact .bind (infer_allows second function other) fun second => .refl _
  | call note callee arguments =>
      rw [infer, infer]
      cases found : known.find? callee with
      | none => exact .blame
      | some signature =>
          refine .ite ?_ .blame
          exact .bind (inferArguments_allows arguments callee _ 0 function other)
            fun arguments => .refl _
  | conditional note condition onTrue onFalse =>
      rw [infer, infer]
      refine .bind (infer_allows condition function other) fun test => .ite ?_ .blame
      refine .bind (infer_allows onTrue function other) fun onTrue => ?_
      exact .bind (infer_allows onFalse function other) fun onFalse => .ite (.refl _) .blame
  | index note target position =>
      rw [infer, infer]
      refine .bind (infer_allows target function other) fun base => .ite ?_ .blame
      exact .bind (infer_allows position function other) fun offset => .ite (.refl _) .blame
  | length note target =>
      rw [infer, infer]
      exact .bind (infer_allows target function other) fun base => .ite (.refl _) .blame
  | each note name bound body =>
      rw [infer, infer]
      refine .bind (infer_allows bound function other) fun limit => .ite ?_ .blame
      refine .bind (.refl _) fun _ => ?_
      exact .bind (infer_allows body function other) fun body => .refl _
  | unknown note kind children =>
      rw [infer, infer]
      exact .blame

theorem inferElements_allows (trees : List (Expr α)) (expected : Option Ty) (index : Nat)
    (function other : String) :
    Allows (inferElements ⟨function, known⟩ expected index trees)
      (inferElements ⟨other, known⟩ expected index trees) := by
  cases trees with
  | nil =>
      rw [inferElements, inferElements]
      exact .refl _
  | cons tree trees =>
      rw [inferElements, inferElements]
      refine .bind (infer_allows tree function other) fun element => .ite ?_ .blame
      exact .bind (inferElements_allows trees _ _ function other) fun others => .refl _

theorem inferArguments_allows (trees : List (Expr α)) (callee : String) (expected : List Ty)
    (index : Nat) (function other : String) :
    Allows (inferArguments ⟨function, known⟩ callee expected index trees)
      (inferArguments ⟨other, known⟩ callee expected index trees) := by
  cases trees with
  | nil =>
      rw [inferArguments, inferArguments]
      exact .refl _
  | cons tree trees =>
      rw [inferArguments, inferArguments]
      refine .bind (infer_allows tree function other) fun argument => .ite ?_ .blame
      exact .bind (inferArguments_allows trees callee _ _ function other) fun others => .refl _

end

end Expr

theorem Definition.check_of_expression {known : SignatureTable} {name : String}
    {tree : Expr Position} {body : Expr Typing} (fresh : known.find? name = none)
    (checked : (tree.check known Scope.empty).1 = .ok body) :
    (Definition.mk name [] tree body.position).check known =
      .ok (.ofExpression name body) := by
  have accepted := Expr.infer_allows tree "<expr>" name _ _ _ (Prod.ext checked rfl)
  rw [Definition.check, fresh]
  simp [Scope.ofParameters, accepted, TypedDefinition.ofExpression, Expr.position, Expr.type]

end ExprLang
