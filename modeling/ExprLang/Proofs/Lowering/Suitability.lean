import ExprLang.Proofs.Lowering.Translation
import ExprLang.Proofs.Typing.Checking

/-!
# Checked bodies can be lowered

Where an expression has a type, its names are bound and its calls are to known functions with the
right number of arguments. So only the length of arrays can be in the way of lowering it.
-/

namespace ExprLang

namespace Expr

variable {α : Type}

mutual

/-- Every array literal has fewer elements than a limit. -/
def ArraysBelow (limit : Nat) : Expr α → Prop
  | integer _ _ | boolean _ _ | ident _ _ => True
  | array _ elements => elements.length < limit ∧ AllArraysBelow limit elements
  | binary _ _ left right => left.ArraysBelow limit ∧ right.ArraysBelow limit
  | bind _ _ value => value.ArraysBelow limit
  | sequence _ first second => first.ArraysBelow limit ∧ second.ArraysBelow limit
  | call _ _ arguments => AllArraysBelow limit arguments
  | conditional _ condition onTrue onFalse =>
    condition.ArraysBelow limit ∧ onTrue.ArraysBelow limit ∧ onFalse.ArraysBelow limit
  | index _ target position => target.ArraysBelow limit ∧ position.ArraysBelow limit
  | length _ target => target.ArraysBelow limit
  | each _ _ bound body => bound.ArraysBelow limit ∧ body.ArraysBelow limit
  | unknown _ _ children => AllArraysBelow limit children

def AllArraysBelow (limit : Nat) : List (Expr α) → Prop
  | [] => True
  | tree :: trees => tree.ArraysBelow limit ∧ AllArraysBelow limit trees

end

mutual

instance ArraysBelow.decidable (limit : Nat) (tree : Expr α) :
    Decidable (tree.ArraysBelow limit) :=
  match tree with
  | integer _ _ | boolean _ _ | ident _ _ => .isTrue trivial
  | array _ elements =>
    have := AllArraysBelow.decidable limit elements
    inferInstanceAs (Decidable (elements.length < limit ∧ AllArraysBelow limit elements))
  | binary _ _ left right | sequence _ left right | index _ left right
  | each _ _ left right =>
    have := ArraysBelow.decidable limit left
    have := ArraysBelow.decidable limit right
    inferInstanceAs (Decidable (left.ArraysBelow limit ∧ right.ArraysBelow limit))
  | bind _ _ value | length _ value => ArraysBelow.decidable limit value
  | call _ _ trees | unknown _ _ trees => AllArraysBelow.decidable limit trees
  | conditional _ condition onTrue onFalse =>
    have := ArraysBelow.decidable limit condition
    have := ArraysBelow.decidable limit onTrue
    have := ArraysBelow.decidable limit onFalse
    inferInstanceAs (Decidable
      (condition.ArraysBelow limit ∧ onTrue.ArraysBelow limit ∧ onFalse.ArraysBelow limit))

instance AllArraysBelow.decidable (limit : Nat) (trees : List (Expr α)) :
    Decidable (AllArraysBelow limit trees) :=
  match trees with
  | [] => .isTrue trivial
  | tree :: trees =>
    have := ArraysBelow.decidable limit tree
    have := AllArraysBelow.decidable limit trees
    inferInstanceAs (Decidable (tree.ArraysBelow limit ∧ AllArraysBelow limit trees))

end

mutual

theorem ArraysBelow.mono {limit more : Nat} (less : limit ≤ more) {tree : Expr α}
    (short : tree.ArraysBelow limit) : tree.ArraysBelow more := by
  cases tree with
  | integer | boolean | ident => trivial
  | array note elements => exact ⟨Nat.lt_of_lt_of_le short.1 less, AllArraysBelow.mono less short.2⟩
  | binary note operator left right | sequence note left right | index note left right =>
      exact ⟨ArraysBelow.mono less short.1, ArraysBelow.mono less short.2⟩
  | bind note name value | length note value =>
      rw [ArraysBelow] at short ⊢
      exact ArraysBelow.mono less short
  | call note function trees | unknown note kind trees =>
      rw [ArraysBelow] at short ⊢
      exact AllArraysBelow.mono less short
  | conditional note condition onTrue onFalse =>
      exact ⟨ArraysBelow.mono less short.1, ArraysBelow.mono less short.2.1,
        ArraysBelow.mono less short.2.2⟩
  | each note name bound body =>
      exact ⟨ArraysBelow.mono less short.1, ArraysBelow.mono less short.2⟩

theorem AllArraysBelow.mono {limit more : Nat} (less : limit ≤ more) {trees : List (Expr α)}
    (short : AllArraysBelow limit trees) : AllArraysBelow more trees := by
  cases trees with
  | nil => trivial
  | cons tree trees => exact ⟨ArraysBelow.mono less short.1, AllArraysBelow.mono less short.2⟩

end

section Notes

variable {α β : Type} {limit : Nat} {change : α → β}

theorem length_mapAll (trees : List (Expr α)) : (mapAll change trees).length = trees.length := by
  induction trees with
  | nil => rfl
  | cons tree trees rest => rw [mapAll, List.length_cons, List.length_cons, rest]

mutual

theorem ArraysBelow.of_map {tree : Expr α} (short : (tree.map change).ArraysBelow limit) :
    tree.ArraysBelow limit := by
  cases tree with
  | integer | boolean | ident => trivial
  | array note elements =>
      exact ⟨length_mapAll elements ▸ short.1, AllArraysBelow.of_map short.2⟩
  | binary note operator left right | sequence note left right | index note left right =>
      exact ⟨ArraysBelow.of_map short.1, ArraysBelow.of_map short.2⟩
  | bind note name value | length note value =>
      rw [ArraysBelow]
      rw [map, ArraysBelow] at short
      exact ArraysBelow.of_map short
  | call note function trees | unknown note kind trees =>
      rw [ArraysBelow]
      rw [map, ArraysBelow] at short
      exact AllArraysBelow.of_map short
  | conditional note condition onTrue onFalse =>
      exact ⟨ArraysBelow.of_map short.1, ArraysBelow.of_map short.2.1,
        ArraysBelow.of_map short.2.2⟩
  | each note name bound body =>
      exact ⟨ArraysBelow.of_map short.1, ArraysBelow.of_map short.2⟩

theorem AllArraysBelow.of_map {trees : List (Expr α)}
    (short : AllArraysBelow limit (mapAll change trees)) : AllArraysBelow limit trees := by
  cases trees with
  | nil => trivial
  | cons tree trees => exact ⟨ArraysBelow.of_map short.1, AllArraysBelow.of_map short.2⟩

end

end Notes

end Expr

/-! ## Notes do not matter -/

section Notes

variable {α β : Type} {known : SignatureTable} {change : α → β}

mutual

theorem Types.of_map (tree : Expr α) {vars later : Variables} {type : Ty}
    (types : Types known vars (tree.map change) type later) : Types known vars tree type later := by
  cases tree with
  | integer =>
      cases types
      exact .integer
  | boolean =>
      cases types
      exact .boolean
  | ident =>
      cases types with
      | ident bound => exact .ident bound
  | array note elements =>
      cases types with
      | array all same => exact .array (TypesAll.of_map elements all) same
  | binary note operator left right =>
      cases types with
      | arithmetic onLeft onRight =>
          exact .arithmetic (Types.of_map left onLeft) (Types.of_map right onRight)
      | comparison onLeft onRight =>
          exact .comparison (Types.of_map left onLeft) (Types.of_map right onRight)
  | bind note name value =>
      cases types with
      | bind inner => exact .bind (Types.of_map value inner)
  | sequence note first second =>
      cases types with
      | sequence onFirst onSecond =>
          exact .sequence (Types.of_map first onFirst) (Types.of_map second onSecond)
  | call note function arguments =>
      cases types with
      | call found onArguments => exact .call found (TypesAll.of_map arguments onArguments)
  | conditional note condition onTrue onFalse =>
      cases types with
      | conditional onCondition trueArm falseArm =>
          exact .conditional (Types.of_map condition onCondition) (Types.of_map onTrue trueArm)
            (Types.of_map onFalse falseArm)
  | index note target position =>
      cases types with
      | index onTarget ofArrays onPosition =>
          exact .index (Types.of_map target onTarget) ofArrays (Types.of_map position onPosition)
  | length note target =>
      cases types with
      | length onTarget ofArrays => exact .length (Types.of_map target onTarget) ofArrays
  | each note name bound body =>
      cases types with
      | each onBound inLoop => exact .each (Types.of_map bound onBound) (Types.of_map body inLoop)
  | unknown => cases types

theorem TypesAll.of_map (trees : List (Expr α)) {vars later : Variables} {types : List Ty}
    (all : TypesAll known vars (Expr.mapAll change trees) types later) :
    TypesAll known vars trees types later := by
  cases trees with
  | nil =>
      cases all
      exact .nil
  | cons tree trees =>
      cases all with
      | cons head tail => exact .cons (Types.of_map tree head) (TypesAll.of_map trees tail)

end

end Notes

/-! ## What has a type can be lowered -/

namespace Lowering

def Covers (names : List String) (vars : Variables) : Prop :=
  ∀ name type, vars name = some type → name ∈ names

theorem Covers.none : Covers [] fun _ => none := by
  intro name type found
  cases found

theorem Covers.bind {names : List String} {vars : Variables} (covers : Covers names vars)
    (name : String) (type : Ty) : Covers (name :: names) (vars.bind name type) := by
  intro other bound found
  rw [Variables.bind, Function.update_apply] at found
  split at found
  · rename_i same
    rw [same]
    exact List.mem_cons_self
  · exact List.mem_cons_of_mem _ (covers other bound found)

theorem Covers.bindAll {names : List String} {vars : Variables} (covers : Covers names vars)
    (bindings : List (String × Ty)) :
    Covers ((bindings.map Prod.fst).reverse ++ names) (vars.bindAll bindings) := by
  induction bindings generalizing names vars with
  | nil => exact covers
  | cons binding bindings induction =>
      rw [List.map_cons, List.reverse_cons, List.append_assoc]
      exact induction (covers.bind binding.1 binding.2)

def Answers (arity : String → Option Nat) (known : SignatureTable) : Prop :=
  ∀ name signature, known.find? name = some signature →
    arity name = some signature.parameters.length

section Suited

variable {α : Type} {known : SignatureTable} {arity : String → Option Nat}

mutual

/-- What has a type can be lowered, unless its arrays are too long. -/
theorem suited_of_types (answers : Answers arity known) {tree : Expr α} {vars later : Variables}
    {type : Ty} {names : List String} (types : Types known vars tree type later)
    (covers : Covers names vars) (short : tree.ArraysBelow arrayLimit) :
    Suited arity names tree ∧ Covers (tree.scope names) later := by
  cases types with
  | integer | boolean => exact ⟨trivial, covers⟩
  | ident bound => exact ⟨covers _ _ bound, covers⟩
  | array elements =>
      obtain ⟨few, short⟩ := short
      obtain ⟨suited, after⟩ := suitedAll_of_types answers elements covers short
      exact ⟨⟨few, suited⟩, after⟩
  | arithmetic onLeft onRight | comparison onLeft onRight =>
      obtain ⟨left, middle⟩ := suited_of_types answers onLeft covers short.1
      obtain ⟨right, after⟩ := suited_of_types answers onRight middle short.2
      exact ⟨⟨by simp, left, right⟩, after⟩
  | bind inner =>
      obtain ⟨value, after⟩ := suited_of_types answers inner covers short
      exact ⟨value, after.bind _ _⟩
  | sequence onFirst onSecond =>
      obtain ⟨first, middle⟩ := suited_of_types answers onFirst covers short.1
      obtain ⟨second, after⟩ := suited_of_types answers onSecond middle short.2
      exact ⟨⟨first, second⟩, after⟩
  | call found onArguments =>
      obtain ⟨suited, after⟩ := suitedAll_of_types answers onArguments covers short
      refine ⟨⟨?_, suited⟩, after⟩
      rw [answers _ _ found, onArguments.length_eq]
  | conditional onCondition trueArm falseArm =>
      obtain ⟨condition, tested⟩ := suited_of_types answers onCondition covers short.1
      obtain ⟨onTrue, middle⟩ := suited_of_types answers trueArm tested short.2.1
      obtain ⟨onFalse, after⟩ := suited_of_types answers falseArm middle short.2.2
      exact ⟨⟨condition, onTrue, onFalse⟩, after⟩
  | index onTarget ofArrays onPosition =>
      obtain ⟨target, middle⟩ := suited_of_types answers onTarget covers short.1
      obtain ⟨position, after⟩ := suited_of_types answers onPosition middle short.2
      exact ⟨⟨target, position⟩, after⟩
  | length onTarget ofArrays =>
      obtain ⟨target, after⟩ := suited_of_types answers onTarget covers short
      exact ⟨target, after⟩
  | each onBound inLoop =>
      obtain ⟨bound, middle⟩ := suited_of_types answers onBound covers short.1
      obtain ⟨body, after⟩ := suited_of_types answers inLoop (middle.bind _ _) short.2
      exact ⟨⟨bound, body⟩, after⟩

theorem suitedAll_of_types (answers : Answers arity known) {trees : List (Expr α)}
    {vars later : Variables} {types : List Ty} {names : List String}
    (all : TypesAll known vars trees types later) (covers : Covers names vars)
    (short : Expr.AllArraysBelow arrayLimit trees) :
    SuitedAll arity names trees ∧ Covers (Expr.scopeAll names trees) later := by
  cases all with
  | nil => exact ⟨trivial, covers⟩
  | cons head tail =>
      obtain ⟨first, middle⟩ := suited_of_types answers head covers short.1
      obtain ⟨others, after⟩ := suitedAll_of_types answers tail middle short.2
      exact ⟨⟨first, others⟩, after⟩

end

end Suited

end Lowering

end ExprLang
