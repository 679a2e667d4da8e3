import ExprLang.Proofs.Typing.Rules

/-!
# The checker decides the typing rules

Checking succeeds on exactly the expressions that have a type. It changes nothing but the notes of
an expression, and each node gets the note that the rules demand.
-/

namespace ExprLang

/-! ## Scopes -/

namespace Scope

theorem lookup_bindIn (name other : String) (type : Ty) (bindings : List (String × Ty)) :
    (bindIn name type bindings).lookup other =
      if other = name then some type else bindings.lookup other := by
  induction bindings with
  | nil =>
      by_cases same : other = name
      · simp [bindIn, same]
      · have different : (other == name) = false := beq_eq_false_iff_ne.mpr same
        simp [bindIn, same, different, List.lookup_cons]
  | cons binding bindings induction =>
      obtain ⟨first, old⟩ := binding
      rw [bindIn]
      by_cases here : first = name
      · subst here
        by_cases same : other = first
        · simp [same]
        · have different : (other == first) = false := beq_eq_false_iff_ne.mpr same
          simp [same, different, List.lookup_cons]
      · have kept : (first == name) = false := beq_eq_false_iff_ne.mpr here
        simp only [kept, Bool.false_eq_true, if_false, List.lookup_cons]
        by_cases same : other = first
        · subst same
          simp [here]
        · have different : (other == first) = false := beq_eq_false_iff_ne.mpr same
          simp [different, induction]

@[simp] theorem find?_bind (scope : Scope) (name : String) (type : Ty) :
    (scope.bind name type).find? = Variables.bind scope.find? name type := by
  funext other
  rw [find?, bind, lookup_bindIn, Variables.bind, Function.update_apply]
  rfl

@[simp] theorem find?_empty : empty.find? = fun _ => none := rfl

theorem find?_ofParameters (parameters : List Parameter) :
    (ofParameters parameters).find? = Variables.bindAll (fun _ => none)
      (parameters.map fun parameter => (parameter.name, parameter.type)) := by
  have folded : ∀ scope : Scope, (parameters.foldl
      (fun scope parameter => scope.bind parameter.name parameter.type) scope).find? =
        Variables.bindAll scope.find?
          (parameters.map fun parameter => (parameter.name, parameter.type)) := by
    induction parameters with
    | nil => exact fun _ => rfl
    | cons parameter parameters induction =>
        intro scope
        rw [List.foldl_cons, induction, find?_bind]
        rfl
  exact folded empty

end Scope

/-! ## Annotated trees -/

namespace Expr

mutual

def bindings : Expr Typing → List (String × Ty)
  | integer _ _ | boolean _ _ | ident _ _ => []
  | array _ elements => bindingsAll elements
  | binary _ _ left right => left.bindings ++ right.bindings
  | bind _ name value => value.bindings ++ [(name, value.type)]
  | sequence _ first second => first.bindings ++ second.bindings
  | call _ _ arguments => bindingsAll arguments
  | conditional _ condition onTrue onFalse =>
    condition.bindings ++ (onTrue.bindings ++ onFalse.bindings)
  | index _ target position => target.bindings ++ position.bindings
  | length _ target => target.bindings
  | each _ name bound body => bound.bindings ++ (name, .int) :: body.bindings
  | unknown _ _ children => bindingsAll children

def bindingsAll : List (Expr Typing) → List (String × Ty)
  | [] => []
  | tree :: trees => tree.bindings ++ bindingsAll trees

end

mutual

/-- Where some variables are known every node notes the type that the rules give it. -/
def Annotated (known : SignatureTable) (vars : Variables) (tree : Expr Typing) : Prop :=
  Types known vars tree.erase tree.type (vars.bindAll tree.bindings) ∧
    match tree with
    | integer _ _ | boolean _ _ | ident _ _ => True
    | array _ elements => AnnotatedAll known vars elements
    | binary _ _ left right =>
      left.Annotated known vars ∧ right.Annotated known (vars.bindAll left.bindings)
    | bind _ _ value => value.Annotated known vars
    | sequence _ first second =>
      first.Annotated known vars ∧ second.Annotated known (vars.bindAll first.bindings)
    | call _ _ arguments => AnnotatedAll known vars arguments
    | conditional _ condition onTrue onFalse =>
      condition.Annotated known vars ∧
        onTrue.Annotated known (vars.bindAll condition.bindings) ∧
          onFalse.Annotated known ((vars.bindAll condition.bindings).bindAll onTrue.bindings)
    | index _ target position =>
      target.Annotated known vars ∧ position.Annotated known (vars.bindAll target.bindings)
    | length _ target => target.Annotated known vars
    | each _ name bound body =>
      bound.Annotated known vars ∧
        body.Annotated known ((vars.bindAll bound.bindings).bind name .int)
    | unknown _ _ children => AnnotatedAll known vars children

def AnnotatedAll (known : SignatureTable) (vars : Variables) : List (Expr Typing) → Prop
  | [] => True
  | tree :: trees =>
    tree.Annotated known vars ∧ AnnotatedAll known (vars.bindAll tree.bindings) trees

end

def eraseAll (trees : List (Expr Typing)) : List (Expr Position) :=
  mapAll Typing.position trees

@[simp] theorem eraseAll_cons (tree : Expr Typing) (trees : List (Expr Typing)) :
    eraseAll (tree :: trees) = tree.erase :: eraseAll trees := by
  simp [eraseAll, erase, mapAll]

theorem Annotated.types {known : SignatureTable} {vars : Variables} {tree : Expr Typing}
    (annotated : tree.Annotated known vars) :
    Types known vars tree.erase tree.type (vars.bindAll tree.bindings) := by
  rw [Annotated.eq_def] at annotated
  exact annotated.1

theorem AnnotatedAll.typesAll {known : SignatureTable} {vars : Variables}
    {trees : List (Expr Typing)} (annotated : AnnotatedAll known vars trees) :
    TypesAll known vars (eraseAll trees) (trees.map type) (vars.bindAll (bindingsAll trees)) := by
  induction trees generalizing vars with
  | nil => exact .nil
  | cons tree trees induction =>
      rw [AnnotatedAll] at annotated
      obtain ⟨head, tail⟩ := annotated
      rw [eraseAll_cons, List.map_cons, bindingsAll, Variables.bindAll_append]
      exact .cons head.types (induction tail)

end Expr

/-! ## Runs of the checker -/

namespace Check

variable {scope later : Scope}

theorem run_bind_eq_ok {step : Check α} {rest : α → Check β} {result : β} :
    (step >>= rest).run scope = (.ok result, later) ↔ ∃ middle between,
      step.run scope = (.ok middle, between) ∧ (rest middle).run between = (.ok result, later) := by
  have unfolded : (step >>= rest).run scope =
      ExceptT.bindCont rest (step.run scope).1 (step.run scope).2 := rfl
  rw [unfolded]
  rcases step.run scope with ⟨error | middle, between⟩
  · constructor
    · intro final
      cases final
    · rintro ⟨_, _, same, _⟩
      cases same
  · constructor
    · exact fun final => ⟨middle, between, rfl, final⟩
    · rintro ⟨_, _, same, final⟩
      cases same
      exact final

@[simp] theorem run_pure_eq_ok {value result : α} :
    (pure value : Check α).run scope = (.ok result, later) ↔ value = result ∧ scope = later := by
  change (Except.ok value, scope) = (Except.ok result, later) ↔ _
  simp

@[simp] theorem run_get_eq_ok {known : Scope} :
    (get : Check Scope).run scope = (.ok known, later) ↔ scope = known ∧ scope = later := by
  change (Except.ok scope, scope) = (Except.ok known, later) ↔ _
  simp

@[simp] theorem run_bindVariable_eq_ok {name : String} {type : Ty} {result : Unit} :
    (Check.bind name type).run scope = (.ok result, later) ↔ scope.bind name type = later := by
  change (Except.ok (), scope.bind name type) = (Except.ok result, later) ↔ _
  simp

@[simp] theorem run_blame_eq_ok [Placed α] {around : Surroundings} {tree : Expr α}
    {cause : TypeError.Cause} {result : β} :
    ¬ (around.blame tree cause : Check β).run scope = (.ok result, later) := by
  change ¬ (Except.error _, scope) = (Except.ok result, later)
  simp

end Check

/-! ## Soundness -/

namespace Expr

variable {around : Surroundings}

/-- An expression was annotated as the rules demand, and the scope behind it is what they say. -/
structure Elaborates (around : Surroundings) (tree : Expr Position) (typed : Expr Typing)
    (scope later : Scope) : Prop where
  erase : typed.erase = tree
  annotated : typed.Annotated around.known scope.find?
  find? : later.find? = Variables.bindAll scope.find? typed.bindings

structure ElaboratesAll (around : Surroundings) (trees : List (Expr Position))
    (typed : List (Expr Typing)) (scope later : Scope) : Prop where
  erase : eraseAll typed = trees
  annotated : AnnotatedAll around.known scope.find? typed
  find? : later.find? = Variables.bindAll scope.find? (bindingsAll typed)

theorem Elaborates.types {tree : Expr Position} {typed : Expr Typing} {scope later : Scope}
    (elaborates : Elaborates around tree typed scope later) :
    Types around.known scope.find? tree typed.type later.find? := by
  rw [elaborates.find?, ← elaborates.erase]
  exact elaborates.annotated.types

theorem ElaboratesAll.types {trees : List (Expr Position)} {typed : List (Expr Typing)}
    {scope later : Scope} (elaborates : ElaboratesAll around trees typed scope later) :
    TypesAll around.known scope.find? trees (typed.map type) later.find? := by
  rw [elaborates.find?, ← elaborates.erase]
  exact elaborates.annotated.typesAll

theorem Elaborates.cons {tree : Expr Position} {typed : Expr Typing}
    {trees : List (Expr Position)} {others : List (Expr Typing)} {scope middle later : Scope}
    (head : Elaborates around tree typed scope middle)
    (tail : ElaboratesAll around trees others middle later) :
    ElaboratesAll around (tree :: trees) (typed :: others) scope later where
  erase := by rw [eraseAll_cons, head.erase, tail.erase]
  annotated := ⟨head.annotated, head.find? ▸ tail.annotated⟩
  find? := by rw [tail.find?, head.find?, bindingsAll, Variables.bindAll_append]

/-- A node is annotated as the rules demand if they give it the type that it notes. -/
theorem Elaborates.of_types {tree : Expr Position} {typed : Expr Typing} {scope later : Scope}
    (erase : typed.erase = tree)
    (find? : later.find? = Variables.bindAll scope.find? typed.bindings)
    (types : Types around.known scope.find? tree typed.type later.find?)
    (below : Types around.known scope.find? typed.erase typed.type
      (Variables.bindAll scope.find? typed.bindings) → typed.Annotated around.known scope.find?) :
    Elaborates around tree typed scope later :=
  ⟨erase, below (by rw [erase, ← find?]; exact types), find?⟩

section Nodes

variable {note : Position} {scope middle after later : Scope} {first second third : Expr Position}
  {typedFirst typedSecond typedThird : Expr Typing} {result : Ty}

theorem Elaborates.find?_append (onFirst : Elaborates around first typedFirst scope middle)
    (onSecond : Elaborates around second typedSecond middle later) :
    later.find? =
      Variables.bindAll scope.find? (typedFirst.bindings ++ typedSecond.bindings) := by
  rw [onSecond.find?, onFirst.find?, Variables.bindAll_append]

theorem Elaborates.binary {operator : Operator}
    (onFirst : Elaborates around first typedFirst scope middle)
    (onSecond : Elaborates around second typedSecond middle later)
    (types : Types around.known scope.find? (.binary note operator first second) result
      later.find?) :
    Elaborates around (.binary note operator first second)
      (.binary ⟨Placed.position note, result⟩ operator typedFirst typedSecond) scope later := by
  refine .of_types (congrArg₂ _ onFirst.erase onSecond.erase) (onFirst.find?_append onSecond) types
    fun types => ?_
  rw [Annotated.eq_def]
  exact ⟨types, onFirst.annotated, onFirst.find? ▸ onSecond.annotated⟩

theorem Elaborates.sequence (onFirst : Elaborates around first typedFirst scope middle)
    (onSecond : Elaborates around second typedSecond middle later) :
    Elaborates around (.sequence note first second)
      (.sequence ⟨Placed.position note, typedSecond.type⟩ typedFirst typedSecond) scope later := by
  refine .of_types (congrArg₂ _ onFirst.erase onSecond.erase) (onFirst.find?_append onSecond)
    (.sequence onFirst.types onSecond.types) fun types => ?_
  rw [Annotated.eq_def]
  exact ⟨types, onFirst.annotated, onFirst.find? ▸ onSecond.annotated⟩

theorem Elaborates.index (onFirst : Elaborates around first typedFirst scope middle)
    (onSecond : Elaborates around second typedSecond middle later)
    (ofArrays : typedFirst.type.isArray = true) (number : typedSecond.type = .int) :
    Elaborates around (.index note first second)
      (.index ⟨Placed.position note, typedFirst.type.element⟩ typedFirst typedSecond) scope
      later := by
  refine .of_types (congrArg₂ _ onFirst.erase onSecond.erase) (onFirst.find?_append onSecond)
    (.index onFirst.types ofArrays (number ▸ onSecond.types)) fun types => ?_
  rw [Annotated.eq_def]
  exact ⟨types, onFirst.annotated, onFirst.find? ▸ onSecond.annotated⟩

theorem Elaborates.bind {name : String}
    (onFirst : Elaborates around first typedFirst scope middle) :
    Elaborates around (.bind note name first)
      (.bind ⟨Placed.position note, typedFirst.type⟩ name typedFirst) scope
      (middle.bind name typedFirst.type) := by
  refine .of_types (congrArg _ onFirst.erase) ?_ ?_ fun types => ?_
  · rw [Scope.find?_bind, onFirst.find?, bindings, Variables.bindAll_append]
    rfl
  · rw [Scope.find?_bind]
    exact .bind onFirst.types
  · rw [Annotated.eq_def]
    exact ⟨types, onFirst.annotated⟩

theorem Elaborates.conditional (onFirst : Elaborates around first typedFirst scope middle)
    (onSecond : Elaborates around second typedSecond middle after)
    (onThird : Elaborates around third typedThird after later) (truth : typedFirst.type = .bool)
    (same : typedSecond.type = typedThird.type) :
    Elaborates around (.conditional note first second third)
      (.conditional ⟨Placed.position note, typedSecond.type⟩ typedFirst typedSecond typedThird)
      scope later := by
  refine .of_types ?_ ?_ (.conditional (truth ▸ onFirst.types) onSecond.types
    (same ▸ onThird.types)) fun types => ?_
  · rw [← onFirst.erase, ← onSecond.erase, ← onThird.erase]
    rfl
  · rw [onThird.find?, onFirst.find?_append onSecond, bindings, ← Variables.bindAll_append,
      List.append_assoc]
  · have behind := onThird.annotated
    rw [onSecond.find?, onFirst.find?] at behind
    rw [Annotated.eq_def]
    exact ⟨types, onFirst.annotated, onFirst.find? ▸ onSecond.annotated, behind⟩

theorem Elaborates.each {name : String}
    (onFirst : Elaborates around first typedFirst scope middle)
    (inLoop : Elaborates around second typedSecond (middle.bind name .int) later)
    (number : typedFirst.type = .int) :
    Elaborates around (.each note name first second)
      (.each ⟨Placed.position note, .int⟩ name typedFirst typedSecond) scope later := by
  have loopTypes := inLoop.types
  have loopAnnotated := inLoop.annotated
  rw [Scope.find?_bind] at loopTypes loopAnnotated
  refine .of_types (congrArg₂ _ onFirst.erase inLoop.erase) ?_
    (.each (number ▸ onFirst.types) loopTypes) fun types => ?_
  · rw [inLoop.find?, Scope.find?_bind, onFirst.find?, bindings, Variables.bindAll_append,
      Variables.bindAll_cons]
  · rw [Annotated.eq_def]
    exact ⟨types, onFirst.annotated, onFirst.find? ▸ loopAnnotated⟩

end Nodes

/-- Operands are accepted only if they have one type. -/
theorem operands_sound {note : Position} {operator : Operator} {left right : Expr Position}
    {typedLeft typedRight typed : Expr Typing} {scope middle after later : Scope} {result : Ty}
    (onLeft : Elaborates around left typedLeft scope middle)
    (onRight : Elaborates around right typedRight middle after)
    (rule : typedLeft.type = typedRight.type → Types around.known scope.find?
      (.binary note operator left right) result after.find?)
    (ran : (if typedLeft.type = typedRight.type then
        pure (.binary ⟨Placed.position note, result⟩ operator typedLeft typedRight)
      else around.blame (.binary note operator left right) (.operands operator.symbol
        typedLeft.type typedRight.type) : Check (Expr Typing)).run after = (.ok typed, later)) :
    Elaborates around (.binary note operator left right) typed scope later := by
  split at ran
  · rename_i same
    obtain ⟨rfl, rfl⟩ := Check.run_pure_eq_ok.mp ran
    exact onLeft.binary onRight (rule same)
  · cases Check.run_blame_eq_ok ran

mutual

theorem infer_sound (tree : Expr Position) {typed : Expr Typing} {scope later : Scope}
    (ran : (tree.infer around).run scope = (.ok typed, later)) :
    Elaborates around tree typed scope later := by
  cases tree with
  | integer note value | boolean note value =>
      rw [infer] at ran
      obtain ⟨rfl, rfl⟩ := Check.run_pure_eq_ok.mp ran
      exact .of_types rfl rfl (by constructor) fun types => by
        rw [Annotated.eq_def]
        exact ⟨types, trivial⟩
  | ident note name =>
      rw [infer] at ran
      obtain ⟨_, _, got, ran⟩ := Check.run_bind_eq_ok.mp ran
      obtain ⟨rfl, rfl⟩ := Check.run_get_eq_ok.mp got
      split at ran
      · rename_i type found
        obtain ⟨rfl, rfl⟩ := Check.run_pure_eq_ok.mp ran
        exact .of_types rfl rfl (.ident found) fun types => by
          rw [Annotated.eq_def]
          exact ⟨types, trivial⟩
      · cases Check.run_blame_eq_ok ran
  | array note elements =>
      rw [infer] at ran
      obtain ⟨typedElements, middle, inner, ran⟩ := Check.run_bind_eq_ok.mp ran
      obtain ⟨elaborates, same⟩ := inferElements_sound elements inner
      split at ran
      · cases Check.run_blame_eq_ok ran
      · rename_i first others
        obtain ⟨rfl, rfl⟩ := Check.run_pure_eq_ok.mp ran
        refine .of_types (congrArg _ elaborates.erase) elaborates.find?
          (.array elaborates.types ?_) fun types => ?_
        · intro other member
          obtain ⟨element, listed, rfl⟩ := List.mem_map.mp member
          exact same element (List.mem_cons_of_mem _ listed) first.type rfl
        · rw [Annotated.eq_def]
          exact ⟨types, elaborates.annotated⟩
  | binary note operator left right =>
      rw [infer] at ran
      obtain ⟨typedLeft, middle, first, ran⟩ := Check.run_bind_eq_ok.mp ran
      obtain ⟨typedRight, after, second, ran⟩ := Check.run_bind_eq_ok.mp ran
      have onLeft := infer_sound left first
      have onRight := infer_sound right second
      cases operator with
      | arithmetic operation =>
          exact operands_sound onLeft onRight
            (fun same => .arithmetic onLeft.types (same ▸ onRight.types)) ran
      | comparison relation =>
          exact operands_sound onLeft onRight
            (fun same => .comparison onLeft.types (same ▸ onRight.types)) ran
      | unknown symbol =>
          obtain ⟨_, _, failed, _⟩ := Check.run_bind_eq_ok.mp ran
          cases Check.run_blame_eq_ok failed
  | bind note name value =>
      rw [infer] at ran
      obtain ⟨typedValue, middle, first, ran⟩ := Check.run_bind_eq_ok.mp ran
      obtain ⟨_, after, bound, ran⟩ := Check.run_bind_eq_ok.mp ran
      cases Check.run_bindVariable_eq_ok.mp bound
      obtain ⟨rfl, rfl⟩ := Check.run_pure_eq_ok.mp ran
      exact (infer_sound value first).bind
  | sequence note left right =>
      rw [infer] at ran
      obtain ⟨typedLeft, middle, first, ran⟩ := Check.run_bind_eq_ok.mp ran
      obtain ⟨typedRight, after, second, ran⟩ := Check.run_bind_eq_ok.mp ran
      obtain ⟨rfl, rfl⟩ := Check.run_pure_eq_ok.mp ran
      exact (infer_sound left first).sequence (infer_sound right second)
  | call note function arguments =>
      rw [infer] at ran
      split at ran
      · cases Check.run_blame_eq_ok ran
      · rename_i signature found
        split at ran
        · rename_i length
          obtain ⟨typedArguments, middle, inner, ran⟩ := Check.run_bind_eq_ok.mp ran
          obtain ⟨elaborates, same⟩ := inferArguments_sound arguments inner length
          obtain ⟨rfl, rfl⟩ := Check.run_pure_eq_ok.mp ran
          refine .of_types (congrArg _ elaborates.erase) elaborates.find?
            (.call found (same ▸ elaborates.types)) fun types => ?_
          rw [Annotated.eq_def]
          exact ⟨types, elaborates.annotated⟩
        · cases Check.run_blame_eq_ok ran
  | conditional note condition onTrue onFalse =>
      rw [infer] at ran
      obtain ⟨test, tested, first, ran⟩ := Check.run_bind_eq_ok.mp ran
      split at ran
      · rename_i truth
        obtain ⟨typedTrue, middle, second, ran⟩ := Check.run_bind_eq_ok.mp ran
        obtain ⟨typedFalse, after, third, ran⟩ := Check.run_bind_eq_ok.mp ran
        split at ran
        · rename_i same
          obtain ⟨rfl, rfl⟩ := Check.run_pure_eq_ok.mp ran
          exact (infer_sound condition first).conditional (infer_sound onTrue second)
            (infer_sound onFalse third) truth same
        · cases Check.run_blame_eq_ok ran
      · cases Check.run_blame_eq_ok ran
  | index note target position =>
      rw [infer] at ran
      obtain ⟨base, middle, first, ran⟩ := Check.run_bind_eq_ok.mp ran
      split at ran
      · rename_i ofArrays
        obtain ⟨offset, after, second, ran⟩ := Check.run_bind_eq_ok.mp ran
        split at ran
        · rename_i number
          obtain ⟨rfl, rfl⟩ := Check.run_pure_eq_ok.mp ran
          exact (infer_sound target first).index (infer_sound position second) ofArrays number
        · cases Check.run_blame_eq_ok ran
      · cases Check.run_blame_eq_ok ran
  | length note target =>
      rw [infer] at ran
      obtain ⟨base, middle, first, ran⟩ := Check.run_bind_eq_ok.mp ran
      split at ran
      · rename_i ofArrays
        obtain ⟨rfl, rfl⟩ := Check.run_pure_eq_ok.mp ran
        have onTarget := infer_sound target first
        refine .of_types (congrArg _ onTarget.erase) onTarget.find?
          (.length onTarget.types ofArrays) fun types => ?_
        rw [Annotated.eq_def]
        exact ⟨types, onTarget.annotated⟩
      · cases Check.run_blame_eq_ok ran
  | each note name bound body =>
      rw [infer] at ran
      obtain ⟨limit, middle, first, ran⟩ := Check.run_bind_eq_ok.mp ran
      split at ran
      · rename_i number
        obtain ⟨_, between, named, ran⟩ := Check.run_bind_eq_ok.mp ran
        cases Check.run_bindVariable_eq_ok.mp named
        obtain ⟨typedBody, after, second, ran⟩ := Check.run_bind_eq_ok.mp ran
        obtain ⟨rfl, rfl⟩ := Check.run_pure_eq_ok.mp ran
        exact (infer_sound bound first).each (infer_sound body second) number
      · cases Check.run_blame_eq_ok ran
  | unknown note kind children =>
      rw [infer] at ran
      cases Check.run_blame_eq_ok ran

theorem inferElements_sound (trees : List (Expr Position)) {expected : Option Ty} {index : Nat}
    {typed : List (Expr Typing)} {scope later : Scope}
    (ran : (inferElements around expected index trees).run scope = (.ok typed, later)) :
    ElaboratesAll around trees typed scope later ∧
      ∀ element ∈ typed, ∀ wanted, expected.or (typed.head?.map type) = some wanted →
        element.type = wanted := by
  cases trees with
  | nil =>
      rw [inferElements] at ran
      obtain ⟨rfl, rfl⟩ := Check.run_pure_eq_ok.mp ran
      exact ⟨⟨rfl, trivial, rfl⟩, by simp⟩
  | cons tree trees =>
      rw [inferElements] at ran
      obtain ⟨element, middle, first, ran⟩ := Check.run_bind_eq_ok.mp ran
      dsimp only at ran
      split at ran
      · rename_i fits
        obtain ⟨others, after, second, ran⟩ := Check.run_bind_eq_ok.mp ran
        obtain ⟨rfl, rfl⟩ := Check.run_pure_eq_ok.mp ran
        have head := infer_sound tree first
        obtain ⟨tail, same⟩ := inferElements_sound trees second
        refine ⟨head.cons tail, ?_⟩
        intro other member wanted given
        have decided : expected.getD element.type = wanted := by
          cases expected <;> simpa using given
        rcases List.mem_cons.mp member with rfl | behind
        · exact fits.trans decided
        · exact same other behind wanted (congrArg some decided)
      · cases Check.run_blame_eq_ok ran

theorem inferArguments_sound (trees : List (Expr Position)) {function : String}
    {expected : List Ty} {index : Nat} {typed : List (Expr Typing)} {scope later : Scope}
    (ran : (inferArguments around function expected index trees).run scope = (.ok typed, later))
    (length : trees.length = expected.length) :
    ElaboratesAll around trees typed scope later ∧ typed.map type = expected := by
  cases trees with
  | nil =>
      rw [inferArguments] at ran
      obtain ⟨rfl, rfl⟩ := Check.run_pure_eq_ok.mp ran
      exact ⟨⟨rfl, trivial, rfl⟩, (List.length_eq_zero_iff.mp length.symm).symm⟩
  | cons tree trees =>
      obtain ⟨wanted, behind, rfl⟩ := List.exists_cons_of_length_eq_add_one length.symm
      rw [inferArguments] at ran
      obtain ⟨argument, middle, first, ran⟩ := Check.run_bind_eq_ok.mp ran
      dsimp only at ran
      split at ran
      · rename_i fits
        obtain ⟨others, after, second, ran⟩ := Check.run_bind_eq_ok.mp ran
        obtain ⟨rfl, rfl⟩ := Check.run_pure_eq_ok.mp ran
        have head := infer_sound tree first
        obtain ⟨tail, same⟩ := inferArguments_sound trees second (Nat.succ.inj length)
        exact ⟨head.cons tail, congrArg₂ _ fits same⟩
      · cases Check.run_blame_eq_ok ran

end

end Expr

end ExprLang
