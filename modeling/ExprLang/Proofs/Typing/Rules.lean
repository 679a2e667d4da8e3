import ExprLang.Typed.Checker
import Mathlib

/-!
# Typing rules

Which expressions have a type. Variables are known from the place where they are bound to the end
of the body, whatever branch or loop they are bound in, so a rule says how an expression changes
what is known of the variables: everything that stands further right is typed behind that change.
-/

namespace ExprLang

/-- The types of the variables that are known. -/
abbrev Variables := String → Option Ty

namespace Variables

def bind (vars : Variables) (name : String) (type : Ty) : Variables :=
  Function.update vars name (some type)

def bindAll (vars : Variables) (bindings : List (String × Ty)) : Variables :=
  bindings.foldl (fun vars binding => vars.bind binding.1 binding.2) vars

@[simp] theorem bindAll_nil (vars : Variables) : vars.bindAll [] = vars := rfl

@[simp] theorem bindAll_cons (vars : Variables) (name : String) (type : Ty)
    (bindings : List (String × Ty)) :
    vars.bindAll ((name, type) :: bindings) = (vars.bind name type).bindAll bindings := rfl

@[simp] theorem bindAll_append (vars : Variables) (first second : List (String × Ty)) :
    vars.bindAll (first ++ second) = (vars.bindAll first).bindAll second :=
  List.foldl_append ..

theorem bindAll_apply (vars : Variables) (bindings : List (String × Ty)) (name : String) :
    vars.bindAll bindings name = (bindings.reverse.lookup name).or (vars name) := by
  induction bindings generalizing vars with
  | nil => rfl
  | cons binding bindings induction =>
      obtain ⟨other, type⟩ := binding
      rw [bindAll_cons, induction, List.reverse_cons, List.lookup_append, Option.or_assoc]
      congr 1
      by_cases same : name = other
      · simp [bind, same]
      · have different : (name == other) = false := beq_eq_false_iff_ne.mpr same
        simp [bind, same, different, List.lookup_cons]

end Variables

/-! ## The rules -/

section Rules

variable {α : Type}

mutual

/-- An expression has a type where some variables are known, and leaves others known behind it. -/
inductive Types (known : SignatureTable) : Variables → Expr α → Ty → Variables → Prop
  | integer {vars note value} : Types known vars (.integer note value) .int vars
  | boolean {vars note value} : Types known vars (.boolean note value) .bool vars
  | ident {vars note name type} (bound : vars name = some type) :
      Types known vars (.ident note name) type vars
  | array {vars note trees type types later}
      (elements : TypesAll known vars trees (type :: types) later)
      (same : ∀ other ∈ types, other = type) :
      Types known vars (.array note trees) (.array type) later
  | arithmetic {vars note operation left right type middle later}
      (onLeft : Types known vars left type middle) (onRight : Types known middle right type later) :
      Types known vars (.binary note (.arithmetic operation) left right) type later
  | comparison {vars note relation left right type middle later}
      (onLeft : Types known vars left type middle) (onRight : Types known middle right type later) :
      Types known vars (.binary note (.comparison relation) left right) .bool later
  | bind {vars note name value type later} (inner : Types known vars value type later) :
      Types known vars (.bind note name value) type (later.bind name type)
  | sequence {vars note first second type other middle later}
      (onFirst : Types known vars first other middle)
      (onSecond : Types known middle second type later) :
      Types known vars (.sequence note first second) type later
  | call {vars note function arguments signature later}
      (found : known.find? function = some signature)
      (onArguments : TypesAll known vars arguments signature.parameters later) :
      Types known vars (.call note function arguments) signature.result later
  | conditional {vars note condition onTrue onFalse type tested middle later}
      (onCondition : Types known vars condition .bool tested)
      (trueArm : Types known tested onTrue type middle)
      (falseArm : Types known middle onFalse type later) :
      Types known vars (.conditional note condition onTrue onFalse) type later
  | index {vars note target position type middle later}
      (onTarget : Types known vars target type middle) (ofArrays : type.isArray = true)
      (onPosition : Types known middle position .int later) :
      Types known vars (.index note target position) type.element later
  | length {vars note target type later}
      (onTarget : Types known vars target type later) (ofArrays : type.isArray = true) :
      Types known vars (.length note target) .int later
  | each {vars note name bound body type middle later}
      (onBound : Types known vars bound .int middle)
      (inLoop : Types known (middle.bind name .int) body type later) :
      Types known vars (.each note name bound body) .int later

inductive TypesAll (known : SignatureTable) :
    Variables → List (Expr α) → List Ty → Variables → Prop
  | nil {vars} : TypesAll known vars [] [] vars
  | cons {vars tree trees type types middle later}
      (head : Types known vars tree type middle)
      (tail : TypesAll known middle trees types later) :
      TypesAll known vars (tree :: trees) (type :: types) later

end

end Rules

theorem TypesAll.length_eq {α : Type} {known : SignatureTable} {vars later : Variables}
    {trees : List (Expr α)} {types : List Ty} (all : TypesAll known vars trees types later) :
    trees.length = types.length := by
  induction trees generalizing vars types with
  | nil =>
      cases all
      rfl
  | cons tree trees induction =>
      obtain _ | ⟨_, tail⟩ := all
      simp [induction tail]

/-! ## Types are unique -/

section Uniqueness

variable {α : Type} {known : SignatureTable}

mutual

/-- An expression has at most one type, and leaves one thing known of the variables. -/
theorem Types.unique {tree : Expr α} {vars later other : Variables} {type wanted : Ty}
    (types : Types known vars tree type later) (others : Types known vars tree wanted other) :
    type = wanted ∧ later = other := by
  cases types with
  | integer | boolean =>
      cases others
      exact ⟨rfl, rfl⟩
  | ident bound =>
      cases others with
      | ident found => exact ⟨Option.some.inj (bound.symm.trans found), rfl⟩
  | array elements =>
      cases others with
      | array ofElements _ =>
          obtain ⟨same, rfl⟩ := elements.unique ofElements
          exact ⟨congrArg Ty.array (List.cons.inj same).1, rfl⟩
  | arithmetic onLeft onRight =>
      cases others with
      | arithmetic ofLeft ofRight =>
          obtain ⟨rfl, rfl⟩ := onLeft.unique ofLeft
          exact onRight.unique ofRight
  | comparison onLeft onRight =>
      cases others with
      | comparison ofLeft ofRight =>
          obtain ⟨rfl, rfl⟩ := onLeft.unique ofLeft
          exact ⟨rfl, (onRight.unique ofRight).2⟩
  | bind inner =>
      cases others with
      | bind ofInner =>
          obtain ⟨rfl, rfl⟩ := inner.unique ofInner
          exact ⟨rfl, rfl⟩
  | sequence onFirst onSecond =>
      cases others with
      | sequence ofFirst ofSecond =>
          obtain ⟨rfl, rfl⟩ := onFirst.unique ofFirst
          exact onSecond.unique ofSecond
  | call found onArguments =>
      cases others with
      | call same ofArguments =>
          cases found.symm.trans same
          exact ⟨rfl, (onArguments.unique ofArguments).2⟩
  | conditional onCondition trueArm falseArm =>
      cases others with
      | conditional ofCondition ofTrue ofFalse =>
          obtain ⟨-, rfl⟩ := onCondition.unique ofCondition
          obtain ⟨rfl, rfl⟩ := trueArm.unique ofTrue
          exact falseArm.unique ofFalse
  | index onTarget ofArrays onPosition =>
      cases others with
      | index ofTarget _ ofPosition =>
          obtain ⟨rfl, rfl⟩ := onTarget.unique ofTarget
          exact ⟨rfl, (onPosition.unique ofPosition).2⟩
  | length onTarget ofArrays =>
      cases others with
      | length ofTarget _ => exact ⟨rfl, (onTarget.unique ofTarget).2⟩
  | each onBound inLoop =>
      cases others with
      | each ofBound ofBody =>
          obtain ⟨-, rfl⟩ := onBound.unique ofBound
          exact ⟨rfl, (inLoop.unique ofBody).2⟩

theorem TypesAll.unique {trees : List (Expr α)} {vars later other : Variables}
    {types wanted : List Ty} (all : TypesAll known vars trees types later)
    (others : TypesAll known vars trees wanted other) : types = wanted ∧ later = other := by
  cases all with
  | nil =>
      cases others
      exact ⟨rfl, rfl⟩
  | cons head tail =>
      cases others with
      | cons ofHead ofTail =>
          obtain ⟨rfl, rfl⟩ := head.unique ofHead
          obtain ⟨rfl, rfl⟩ := tail.unique ofTail
          exact ⟨rfl, rfl⟩

end

end Uniqueness

end ExprLang
