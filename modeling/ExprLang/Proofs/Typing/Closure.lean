import ExprLang.Proofs.Typing.Programs

/-!
# Types that are handed on

A program makes integers, truth values and arrays by itself; values of all other types are handed
in. So what is true of these types, of the types of the variables and of the results of the
functions, is true of the type of every node.
-/

namespace ExprLang

structure Ty.Closed (property : Ty → Prop) : Prop where
  int : property .int
  bool : property .bool
  array : ∀ {type : Ty}, property type → property (.array type)
  element : ∀ {type : Ty}, type.isArray = true → property type → property type.element

variable {property : Ty → Prop}

/-- The types of all variables have a property. -/
def Variables.All (property : Ty → Prop) (vars : Variables) : Prop :=
  ∀ name type, vars name = some type → property type

theorem Variables.All.bind {vars : Variables} {name : String} {type : Ty}
    (before : vars.All property) (added : property type) :
    (vars.bind name type).All property := by
  intro other bound found
  rw [Variables.bind, Function.update_apply] at found
  split at found
  · cases found
    exact added
  · exact before other bound found

theorem Variables.All.bindAll {vars : Variables} {bindings : List (String × Ty)}
    (before : vars.All property) (added : ∀ binding ∈ bindings, property binding.2) :
    (vars.bindAll bindings).All property := by
  induction bindings generalizing vars with
  | nil => exact before
  | cons binding bindings induction =>
      rw [List.forall_mem_cons] at added
      exact induction (before.bind added.1) added.2

/-- The results of all functions have a property. -/
def SignatureTable.All (property : Ty → Prop) (known : SignatureTable) : Prop :=
  ∀ name signature, known.find? name = some signature → property signature.result

theorem SignatureTable.All.push {known : SignatureTable} {name : String} {signature : Signature}
    (table : known.All property) (result : property signature.result) :
    (known.push name signature).All property := by
  intro other wanted found
  rw [find?_push, Option.or_eq_some_iff] at found
  rcases found with old | ⟨-, new⟩
  · exact table other wanted old
  · split at new
    · cases new
      exact result
    · cases new

theorem SignatureTable.all_standard (int : property .int) : standard.All property := by
  intro name signature found
  have member : (name, signature) ∈ standard.entries := by
    rw [find?, List.lookup_eq_some_iff] at found
    obtain ⟨before, after, split, -⟩ := found
    simp [split]
  simp only [standard, Registry.entries, Registry.standard, Registry.onIntegers, List.map_cons,
    List.map_nil, List.mem_cons, List.not_mem_nil, or_false, Prod.mk.injEq] at member
  rcases member with ⟨-, rfl⟩ | ⟨-, rfl⟩ | ⟨-, rfl⟩ | ⟨-, rfl⟩ | ⟨-, rfl⟩ <;> exact int

section Rules

variable {α : Type} {known : SignatureTable}

mutual

theorem Types.all {tree : Expr α} {vars later : Variables} {type : Ty}
    (types : Types known vars tree type later) (closed : Ty.Closed property)
    (table : known.All property) (before : vars.All property) :
    property type ∧ later.All property := by
  cases types with
  | integer => exact ⟨closed.int, before⟩
  | boolean => exact ⟨closed.bool, before⟩
  | ident bound => exact ⟨before _ _ bound, before⟩
  | array elements =>
      obtain ⟨all, after⟩ := elements.all closed table before
      exact ⟨closed.array (all _ List.mem_cons_self), after⟩
  | arithmetic onLeft onRight =>
      obtain ⟨-, middle⟩ := onLeft.all closed table before
      exact onRight.all closed table middle
  | comparison onLeft onRight =>
      obtain ⟨-, middle⟩ := onLeft.all closed table before
      exact ⟨closed.bool, (onRight.all closed table middle).2⟩
  | bind inner =>
      obtain ⟨value, after⟩ := inner.all closed table before
      exact ⟨value, after.bind value⟩
  | sequence onFirst onSecond =>
      obtain ⟨-, middle⟩ := onFirst.all closed table before
      exact onSecond.all closed table middle
  | call found onArguments =>
      exact ⟨table _ _ found, (onArguments.all closed table before).2⟩
  | conditional onCondition trueArm falseArm =>
      obtain ⟨-, tested⟩ := onCondition.all closed table before
      obtain ⟨-, middle⟩ := trueArm.all closed table tested
      exact falseArm.all closed table middle
  | index onTarget ofArrays onPosition =>
      obtain ⟨base, middle⟩ := onTarget.all closed table before
      exact ⟨closed.element ofArrays base, (onPosition.all closed table middle).2⟩
  | length onTarget ofArrays => exact ⟨closed.int, (onTarget.all closed table before).2⟩
  | each onBound inLoop =>
      obtain ⟨-, middle⟩ := onBound.all closed table before
      exact ⟨closed.int, (inLoop.all closed table (middle.bind closed.int)).2⟩

theorem TypesAll.all {trees : List (Expr α)} {vars later : Variables} {types : List Ty}
    (each : TypesAll known vars trees types later) (closed : Ty.Closed property)
    (table : known.All property) (before : vars.All property) :
    (∀ type ∈ types, property type) ∧ later.All property := by
  cases each with
  | nil => exact ⟨by simp, before⟩
  | cons head tail =>
      obtain ⟨first, middle⟩ := head.all closed table before
      obtain ⟨others, after⟩ := tail.all closed table middle
      exact ⟨List.forall_mem_cons.mpr ⟨first, others⟩, after⟩

end

mutual

theorem Expr.Annotated.notes_all {tree : Expr Typing} {vars : Variables}
    (annotated : tree.Annotated known vars) (closed : Ty.Closed property)
    (table : known.All property) (before : vars.All property) :
    ∀ note ∈ tree.notes, property note.type := by
  have own : property tree.note.type := (annotated.types.all closed table before).1
  have behind : ∀ {inner : Expr Typing} {vars : Variables}, inner.Annotated known vars →
      vars.All property → (vars.bindAll inner.bindings).All property :=
    fun annotated before => (annotated.types.all closed table before).2
  rw [Expr.Annotated.eq_def] at annotated
  obtain ⟨-, children⟩ := annotated
  cases tree with
  | integer | boolean | ident => exact List.forall_mem_singleton.mpr own
  | array note elements | call note function elements | unknown note kind elements =>
      rw [Expr.notes]
      exact List.forall_mem_cons.mpr ⟨own, children.notes_all closed table before⟩
  | binary note operator left right | sequence note left right | index note left right =>
      obtain ⟨onLeft, onRight⟩ := children
      rw [Expr.notes]
      exact List.forall_mem_cons.mpr ⟨own, List.forall_mem_append.mpr
        ⟨onLeft.notes_all closed table before,
          onRight.notes_all closed table (behind onLeft before)⟩⟩
  | bind note name value | length note value =>
      rw [Expr.notes]
      exact List.forall_mem_cons.mpr ⟨own, children.notes_all closed table before⟩
  | conditional note condition onTrue onFalse =>
      obtain ⟨onCondition, trueArm, falseArm⟩ := children
      have tested := behind onCondition before
      rw [Expr.notes]
      exact List.forall_mem_cons.mpr ⟨own, List.forall_mem_append.mpr
        ⟨onCondition.notes_all closed table before, List.forall_mem_append.mpr
          ⟨trueArm.notes_all closed table tested,
            falseArm.notes_all closed table (behind trueArm tested)⟩⟩⟩
  | each note name bound body =>
      obtain ⟨onBound, inLoop⟩ := children
      have limited := @Variables.All.bind _ _ name .int (behind onBound before) closed.int
      rw [Expr.notes]
      exact List.forall_mem_cons.mpr ⟨own, List.forall_mem_append.mpr
        ⟨onBound.notes_all closed table before, inLoop.notes_all closed table limited⟩⟩

theorem Expr.AnnotatedAll.notes_all {trees : List (Expr Typing)} {vars : Variables}
    (annotated : Expr.AnnotatedAll known vars trees) (closed : Ty.Closed property)
    (table : known.All property) (before : vars.All property) :
    ∀ note ∈ Expr.notesAll trees, property note.type := by
  cases trees with
  | nil => simp [Expr.notesAll]
  | cons tree trees =>
      rw [Expr.AnnotatedAll] at annotated
      obtain ⟨head, tail⟩ := annotated
      rw [Expr.notesAll]
      exact List.forall_mem_append.mpr ⟨head.notes_all closed table before,
        tail.notes_all closed table (head.types.all closed table before).2⟩

end

end Rules

/-!
## Types without floats

There are no floats but those that are handed in. Where no variable holds them and no function
gives them back, no expression has them, and no variable gets to hold them.
-/

def Ty.Floatless (type : Ty) : Prop :=
  type.contains .float = false

theorem Ty.closed_floatless : Ty.Closed Floatless where
  int := rfl
  bool := rfl
  array {type} floatless := by
    rw [Floatless, contains, floatless]
    rfl
  element {type} _ floatless := by
    cases type with
    | array element =>
        rw [Floatless, contains] at floatless
        simpa [Ty.element, Floatless] using floatless
    | _ => rfl

abbrev SignatureTable.Floatless (known : SignatureTable) : Prop :=
  known.All Ty.Floatless

abbrev Variables.Floatless (vars : Variables) : Prop :=
  vars.All Ty.Floatless

end ExprLang
