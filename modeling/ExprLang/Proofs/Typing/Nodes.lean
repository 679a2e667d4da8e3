import ExprLang.Proofs.Typing.Checking

/-!
# Types of nodes

What the type that a node notes has to do with the types of the nodes below it, one lemma for each
kind of expression.
-/

namespace ExprLang.Expr

variable {known : SignatureTable} {vars : Variables} {note : Typing}

namespace Annotated

theorem integer {value : Int64} (annotated : (integer note value).Annotated known vars) :
    note.type = .int := by
  have types : Types known vars (.integer note.position value) note.type _ := annotated.types
  generalize note.type = type at types ⊢
  cases types
  rfl

theorem ident {name : String} (annotated : (ident note name).Annotated known vars) :
    vars name = some note.type := by
  have types : Types known vars (.ident note.position name) note.type _ := annotated.types
  cases types with
  | ident bound => exact bound

theorem array {trees : List (Expr Typing)} (annotated : (array note trees).Annotated known vars) :
    AnnotatedAll known vars trees ∧ ∃ element, note.type = .array element := by
  have types : Types known vars (.array note.position (eraseAll trees)) note.type _ :=
    annotated.types
  rw [Annotated.eq_def] at annotated
  refine ⟨annotated.2, ?_⟩
  generalize note.type = type at types ⊢
  cases types
  exact ⟨_, rfl⟩

theorem arithmetic {operation : Arithmetic} {left right : Expr Typing}
    (annotated : (binary note (.arithmetic operation) left right).Annotated known vars) :
    left.Annotated known vars ∧ right.Annotated known (vars.bindAll left.bindings) ∧
      note.type = left.type := by
  have types : Types known vars (.binary note.position (.arithmetic operation) left.erase
    right.erase) note.type _ := annotated.types
  rw [Annotated.eq_def] at annotated
  obtain ⟨-, onLeft, onRight⟩ := annotated
  refine ⟨onLeft, onRight, ?_⟩
  cases types with
  | arithmetic ofLeft => exact (ofLeft.unique onLeft.types).1

theorem comparison {relation : Comparison} {left right : Expr Typing}
    (annotated : (binary note (.comparison relation) left right).Annotated known vars) :
    left.Annotated known vars ∧ right.Annotated known (vars.bindAll left.bindings) := by
  rw [Annotated.eq_def] at annotated
  exact annotated.2

theorem bind {name : String} {value : Expr Typing}
    (annotated : (bind note name value).Annotated known vars) :
    value.Annotated known vars ∧ note.type = value.type := by
  have types : Types known vars (.bind note.position name value.erase) note.type _ :=
    annotated.types
  rw [Annotated.eq_def] at annotated
  refine ⟨annotated.2, ?_⟩
  generalize vars.bindAll _ = later at types
  cases types with
  | bind inner => exact (inner.unique annotated.2.types).1

theorem sequence {first second : Expr Typing}
    (annotated : (sequence note first second).Annotated known vars) :
    first.Annotated known vars ∧ second.Annotated known (vars.bindAll first.bindings) ∧
      note.type = second.type := by
  have types : Types known vars (.sequence note.position first.erase second.erase) note.type _ :=
    annotated.types
  rw [Annotated.eq_def] at annotated
  obtain ⟨-, onFirst, onSecond⟩ := annotated
  refine ⟨onFirst, onSecond, ?_⟩
  cases types with
  | sequence ofFirst ofSecond =>
      obtain ⟨-, rfl⟩ := onFirst.types.unique ofFirst
      exact (ofSecond.unique onSecond.types).1

theorem call {function : String} {trees : List (Expr Typing)}
    (annotated : (call note function trees).Annotated known vars) :
    AnnotatedAll known vars trees ∧ ∃ signature, known.find? function = some signature ∧
      signature.parameters = trees.map type ∧ signature.result = note.type := by
  have types : Types known vars (.call note.position function (eraseAll trees)) note.type _ :=
    annotated.types
  rw [Annotated.eq_def] at annotated
  refine ⟨annotated.2, ?_⟩
  generalize note.type = type at types ⊢
  cases types with
  | call found onArguments =>
      exact ⟨_, found, (onArguments.unique (AnnotatedAll.typesAll annotated.2)).1, rfl⟩

theorem conditional {condition onTrue onFalse : Expr Typing}
    (annotated : (conditional note condition onTrue onFalse).Annotated known vars) :
    condition.Annotated known vars ∧ onTrue.Annotated known (vars.bindAll condition.bindings) ∧
      onFalse.Annotated known ((vars.bindAll condition.bindings).bindAll onTrue.bindings) ∧
        note.type = onTrue.type ∧ note.type = onFalse.type := by
  have types : Types known vars (.conditional note.position condition.erase onTrue.erase
    onFalse.erase) note.type _ := annotated.types
  rw [Annotated.eq_def] at annotated
  obtain ⟨-, onCondition, trueArm, falseArm⟩ := annotated
  refine ⟨onCondition, trueArm, falseArm, ?_⟩
  cases types with
  | conditional ofCondition ofTrue ofFalse =>
      obtain ⟨-, rfl⟩ := onCondition.types.unique ofCondition
      obtain ⟨same, rfl⟩ := trueArm.types.unique ofTrue
      exact ⟨same.symm, (ofFalse.unique falseArm.types).1⟩

theorem index {target position : Expr Typing}
    (annotated : (index note target position).Annotated known vars) :
    target.Annotated known vars ∧ position.Annotated known (vars.bindAll target.bindings) := by
  rw [Annotated.eq_def] at annotated
  exact annotated.2

theorem length {target : Expr Typing} (annotated : (length note target).Annotated known vars) :
    target.Annotated known vars ∧ note.type = .int := by
  have types : Types known vars (.length note.position target.erase) note.type _ :=
    annotated.types
  rw [Annotated.eq_def] at annotated
  refine ⟨annotated.2, ?_⟩
  generalize note.type = type at types ⊢
  cases types
  rfl

theorem each {name : String} {bound body : Expr Typing}
    (annotated : (each note name bound body).Annotated known vars) :
    bound.Annotated known vars ∧
      body.Annotated known ((vars.bindAll bound.bindings).bind name .int) ∧ note.type = .int := by
  have types : Types known vars (.each note.position name bound.erase body.erase) note.type _ :=
    annotated.types
  rw [Annotated.eq_def] at annotated
  refine ⟨annotated.2.1, annotated.2.2, ?_⟩
  generalize note.type = type at types ⊢
  cases types
  rfl

end Annotated

end ExprLang.Expr
