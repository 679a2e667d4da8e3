import ExprLang.Proofs.Typing.Programs

/-!
# What checking leaves in the table

Definitions are checked one after the other, each against the functions in front of it, and a
function is added only when its body has been checked. Main statement: the table that is reached
holds the given entries and behind them exactly the functions in front of the first definition that
fails, whatever is wrong with it.
-/

namespace ExprLang

namespace SignatureTable

variable {table : SignatureTable} {functions others : List TypedDefinition}
  {function : TypedDefinition} {name : String} {signature : Signature}

theorem find?_extend (taken : name ∈ table.names) :
    (table.extend functions).find? name = table.find? name := by
  obtain ⟨found, known⟩ : ∃ found, table.find? name = some found :=
    Option.ne_none_iff_exists'.mp fun absent => find?_eq_none_iff.mp absent taken
  rw [known]
  simp only [find?, extend] at known ⊢
  rw [List.lookup_append, known, Option.some_or]

theorem find?_extend_cons (fresh : table.find? function.name = none) :
    (table.extend (function :: functions)).find? function.name = some function.signature := by
  simp only [find?, extend] at fresh ⊢
  rw [List.lookup_append, fresh, Option.none_or, List.map_cons, TypedDefinition.entry,
    List.lookup_cons_self]

theorem find?_extend_eq_some (found : (table.extend functions).find? name = some signature) :
    table.find? name = some signature ∨
      ∃ function ∈ functions, function.name = name ∧ function.signature = signature := by
  simp only [find?, extend] at found ⊢
  rw [List.lookup_append, Option.or_eq_some_iff] at found
  rcases found with old | ⟨-, new⟩
  · exact .inl old
  · obtain ⟨before, after, split, -⟩ := List.lookup_eq_some_iff.mp new
    obtain ⟨function, member, same⟩ := List.mem_map.mp
      (split ▸ List.mem_append_right before List.mem_cons_self)
    cases same
    exact .inr ⟨function, member, rfl, rfl⟩

theorem find?_extend_take (fresh : (table.extend functions).find? name = none) (count : Nat) :
    (table.extend (functions.take count)).find? name = none := by
  rw [find?_eq_none_iff, names_extend, List.mem_append, not_or] at fresh ⊢
  refine ⟨fresh.1, fun taken => fresh.2 ?_⟩
  rw [List.map_take] at taken
  exact List.mem_of_mem_take taken

end SignatureTable

namespace Definition

variable {α : Type} [Placed α] {known : SignatureTable} {definition : Definition α}
  {definitions : List (Definition α)} {function : TypedDefinition}
  {functions : List TypedDefinition}

/-- A definition was accepted where some functions are known. Its name is not among theirs, its
body was inferred with them alone, and the signature is that of the parameters and the body. -/
structure Accepted (known : SignatureTable) (definition : Definition α)
    (function : TypedDefinition) : Prop where
  fresh : known.find? definition.name = none
  name : function.name = definition.name
  inferred : ((definition.body.infer ⟨definition.name, known⟩).run
    (Scope.ofParameters definition.parameters)).1 = .ok function.body
  signature : function.signature =
    ⟨definition.parameters.map Parameter.type, function.body.type⟩
  registered : known.register function.name function.signature =
    .ok (known.push function.name function.signature)

theorem accepted_of_check (checked : definition.check known = .ok function) :
    definition.Accepted known function := by
  rw [check] at checked
  split at checked
  · cases checked
  · rename_i fresh
    have fresh : known.find? definition.name = none := by simpa using fresh
    dsimp only at checked
    split at checked
    · cases checked
    · rename_i body inferred
      cases checked
      exact ⟨fresh, rfl, inferred, rfl, by simp only [SignatureTable.register, fresh]⟩

theorem check_of_taken (taken : definition.name ∈ known.names) :
    definition.check known =
      .error ⟨definition.name, definition.position, "", .duplicateFunction definition.name⟩ := by
  have present : (known.find? definition.name).isSome = true := by
    rw [Option.isSome_iff_ne_none]
    exact fun absent => SignatureTable.find?_eq_none_iff.mp absent taken
  rw [check, if_pos present]

/-- Functions are what became of the first definitions, each of which was accepted with those in
front of it. -/
structure Registers (known : SignatureTable) (definitions : List (Definition α))
    (functions : List TypedDefinition) : Prop where
  names : functions.map TypedDefinition.name =
    (definitions.take functions.length).map Definition.name
  accepted : ∀ (index : Nat) (definition : Definition α) (function : TypedDefinition),
    definitions[index]? = some definition → functions[index]? = some function →
    definition.check (known.extend (functions.take index)) = .ok function ∧
      definition.Accepted (known.extend (functions.take index)) function

/-- Checking ended with all definitions, or at the first that fails where the functions in front
of it are known. -/
inductive Ends (known : SignatureTable) (definitions : List (Definition α))
    (functions : List TypedDefinition) : Except TypeError (List TypedDefinition) → Prop
  | all (count : functions.length = definitions.length) : Ends known definitions functions
      (.ok functions)
  | failing {definition : Definition α} {error : TypeError}
      (next : definitions[functions.length]? = some definition)
      (fails : definition.check (known.extend functions) = .error error) :
      Ends known definitions functions (.error error)

theorem Registers.nil : Registers known definitions [] where
  names := by simp
  accepted := by simp

theorem Registers.cons (checked : definition.check known = .ok function)
    (registers : Registers (known.push function.name function.signature) definitions functions) :
    Registers known (definition :: definitions) (function :: functions) where
  names := by simpa [(accepted_of_check checked).name] using registers.names
  accepted index := by
    intro other typed chosen given
    cases index with
    | zero =>
        cases chosen
        cases given
        simpa using ⟨checked, accepted_of_check checked⟩
    | succ index =>
        rw [List.take_succ_cons, ← SignatureTable.push_extend]
        exact registers.accepted index other typed chosen given

theorem Ends.cons {outcome : Except TypeError (List TypedDefinition)}
    (ends : Ends (known.push function.name function.signature) definitions functions outcome) :
    Ends known (definition :: definitions) (function :: functions)
      (outcome.map (function :: ·)) := by
  cases ends with
  | all count => exact .all (congrArg Nat.succ count)
  | failing next fails => exact .failing next (SignatureTable.push_extend ▸ fails)

theorem checkAll_registers (known : SignatureTable) (definitions : List (Definition α)) :
    ∃ functions, (checkAll known definitions).2 = known.extend functions ∧
      Registers known definitions functions ∧
      Ends known definitions functions (checkAll known definitions).1 := by
  induction definitions generalizing known with
  | nil => exact ⟨[], SignatureTable.extend_nil.symm, .nil, .all rfl⟩
  | cons definition definitions rest =>
      rw [checkAll]
      cases checked : definition.check known with
      | error error =>
          refine ⟨[], SignatureTable.extend_nil.symm, .nil, .failing rfl ?_⟩
          rwa [SignatureTable.extend_nil]
      | ok function =>
          obtain ⟨functions, table, registers, ends⟩ :=
            rest (known.push function.name function.signature)
          exact ⟨function :: functions, table.trans SignatureTable.push_extend,
            registers.cons checked, ends.cons⟩

namespace Registers

variable {index : Nat}

/-- The name of a definition is new as long as the definition itself has not been checked. -/
theorem invisible (registers : Registers known definitions functions)
    (chosen : definitions[index]? = some definition) (given : functions[index]? = some function)
    {earlier : Nat} (before : earlier ≤ index) :
    (known.extend (functions.take earlier)).find? definition.name = none := by
  have fresh := (registers.accepted index _ _ chosen given).2.fresh
  have within := SignatureTable.find?_extend_take fresh earlier
  rwa [List.take_take, Nat.min_eq_left before] at within

theorem found (registers : Registers known definitions functions)
    (chosen : definitions[index]? = some definition) (given : functions[index]? = some function) :
    (known.extend functions).find? definition.name = some function.signature := by
  have accepted := (registers.accepted index _ _ chosen given).2
  obtain ⟨inside, same⟩ := List.getElem?_eq_some_iff.mp given
  have split : functions = functions.take index ++ function :: functions.drop (index + 1) := by
    rw [← same, List.cons_getElem_drop_succ, List.take_append_drop]
  rw [split, SignatureTable.extend_append, ← accepted.name]
  exact SignatureTable.find?_extend_cons (accepted.name ▸ accepted.fresh)

end Registers

/-- After any definitions were checked against any table, the table holds what it held, followed
by the functions that were checked: all of them, or those in front of the first that fails. Each
of them has the signature that was inferred with the functions in front of it, whose table knows
neither it nor any later one; and a definition whose name is taken fails for that reason. -/
theorem checked_functions_are_registered {α : Type} [Placed α] (known : SignatureTable)
    (definitions : List (Definition α)) :
    ∃ functions : List TypedDefinition,
      Ends known definitions functions (checkAll known definitions).1 ∧
      (checkAll known definitions).2 = known.extend functions ∧
      (checkAll known definitions).2.names =
        known.names ++ (definitions.take functions.length).map Definition.name ∧
      (∀ name ∈ known.names, (checkAll known definitions).2.find? name = known.find? name) ∧
      (∀ (index : Nat) (definition : Definition α) (function : TypedDefinition),
        definitions[index]? = some definition → functions[index]? = some function →
        definition.check (known.extend (functions.take index)) = .ok function ∧
          definition.Accepted (known.extend (functions.take index)) function ∧
          (checkAll known definitions).2.find? definition.name = some function.signature ∧
          ∀ earlier ≤ index,
            (known.extend (functions.take earlier)).find? definition.name = none) ∧
      ∀ (table : SignatureTable) (definition : Definition α), definition.name ∈ table.names →
        definition.check table = .error
          ⟨definition.name, definition.position, "", .duplicateFunction definition.name⟩ := by
  obtain ⟨functions, table, registers, ends⟩ := checkAll_registers known definitions
  refine ⟨functions, ends, table, ?_, fun name taken => ?_,
    fun index definition function chosen given => ?_, fun _ _ => check_of_taken⟩
  · rw [table, SignatureTable.names_extend, registers.names]
  · rw [table, SignatureTable.find?_extend taken]
  · obtain ⟨checked, accepted⟩ := registers.accepted index _ _ chosen given
    rw [table]
    exact ⟨checked, accepted, registers.found chosen given,
      fun earlier before => registers.invisible chosen given before⟩

end Definition

end ExprLang
