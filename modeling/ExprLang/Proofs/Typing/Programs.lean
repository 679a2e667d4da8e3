import ExprLang.Proofs.Typing.Deciding

/-!
# Checked programs

The table of a checked program is the one that it was checked against, followed by its functions.
Each of them was checked against the entries before its own, and no name is there twice.
-/

namespace ExprLang

def TypedDefinition.entry (definition : TypedDefinition) : String × Signature :=
  (definition.name, definition.signature)

namespace SignatureTable

def extend (table : SignatureTable) (functions : List TypedDefinition) : SignatureTable :=
  ⟨table.entries ++ functions.map TypedDefinition.entry⟩

variable {table : SignatureTable} {functions others : List TypedDefinition}
  {function : TypedDefinition} {name : String} {signature : Signature}

@[simp] theorem extend_nil : table.extend [] = table := by
  simp [extend]

@[simp] theorem extend_append :
    table.extend (functions ++ others) = (table.extend functions).extend others := by
  simp [extend]

theorem find?_push (table : SignatureTable) (name other : String) (signature : Signature) :
    (table.push name signature).find? other =
      (table.find? other).or (if other = name then some signature else none) := by
  rw [find?, push, List.lookup_append]
  congr 1
  by_cases same : other = name
  · simp [same]
  · have different : (other == name) = false := beq_eq_false_iff_ne.mpr same
    simp [same, different, List.lookup_cons]

theorem push_extend :
    (table.push function.name function.signature).extend functions =
      table.extend (function :: functions) := by
  simp [push, extend, TypedDefinition.entry]

@[simp] theorem names_extend :
    (table.extend functions).names = table.names ++ functions.map TypedDefinition.name := by
  simp [names, extend, TypedDefinition.entry, Function.comp_def]

theorem find?_eq_none_iff : table.find? name = none ↔ name ∉ table.names := by
  simp only [find?, names, List.lookup_eq_none_iff, List.mem_map, not_exists, not_and]
  constructor
  · rintro absent entry member rfl
    simpa using absent entry member
  · intro absent entry member
    simpa using fun same => absent entry member same.symm

end SignatureTable

namespace Definition

variable {known final : SignatureTable} {definitions : List (Definition Position)}
  {functions others : List TypedDefinition} {function : TypedDefinition}

/-- Functions are what becomes of definitions, each of which is checked against a table with the
functions before it. -/
inductive ChecksAll :
    SignatureTable → List (Definition Position) → List TypedDefinition → Prop
  | nil (known : SignatureTable) : ChecksAll known [] []
  | cons {known : SignatureTable} {definition : Definition Position}
      {definitions : List (Definition Position)} {typed : TypedDefinition}
      {functions : List TypedDefinition}
      (head : definition.check known = .ok typed)
      (tail : ChecksAll (known.push typed.name typed.signature) definitions functions) :
      ChecksAll known (definition :: definitions) (typed :: functions)

theorem checkAll_eq_ok_iff :
    checkAll known definitions = (.ok functions, final) ↔
      ChecksAll known definitions functions ∧ final = known.extend functions := by
  induction definitions generalizing known functions with
  | nil =>
      rw [checkAll]
      constructor
      · intro checked
        cases checked
        exact ⟨.nil _, by simp⟩
      · rintro ⟨⟨⟩, rfl⟩
        simp
  | cons definition definitions rest =>
      rw [checkAll]
      constructor
      · intro checked
        split at checked
        · cases checked
        · rename_i typed head
          obtain ⟨given, rfl⟩ := Prod.mk.inj checked
          obtain ⟨later, tail, rfl⟩ : ∃ later,
              (checkAll (known.push typed.name typed.signature) definitions).1 = .ok later ∧
                typed :: later = functions := by
            cases found : (checkAll (known.push typed.name typed.signature) definitions).1 with
            | error error => simp [found, Except.map] at given
            | ok later => exact ⟨later, rfl, by simpa [found, Except.map] using given⟩
          obtain ⟨checks, reached⟩ := rest.mp (Prod.ext tail rfl)
          exact ⟨.cons head checks, reached.trans SignatureTable.push_extend⟩
      · rintro ⟨_ | ⟨head, tail⟩, rfl⟩
        rw [head]
        dsimp only
        rw [rest.mpr ⟨tail, SignatureTable.push_extend.symm⟩]
        rfl

namespace ChecksAll

theorem checked (checks : ChecksAll known definitions (functions ++ function :: others)) :
    ∃ definition ∈ definitions, definition.check (known.extend functions) = .ok function := by
  induction functions generalizing known definitions with
  | nil =>
      obtain _ | ⟨head, -⟩ := checks
      exact ⟨_, List.mem_cons_self, by simpa using head⟩
  | cons first functions rest =>
      obtain _ | ⟨-, tail⟩ := checks
      obtain ⟨definition, member, accepted⟩ := rest tail
      rw [SignatureTable.push_extend] at accepted
      exact ⟨definition, List.mem_cons_of_mem _ member, accepted⟩

theorem append {more : List (Definition Position)}
    (checks : ChecksAll known definitions functions)
    (further : ChecksAll (known.extend functions) more others) :
    ChecksAll known (definitions ++ more) (functions ++ others) := by
  induction checks with
  | nil => simpa using further
  | cons head _ rest => exact .cons head (rest (SignatureTable.push_extend ▸ further))

theorem names (checks : ChecksAll known definitions functions) :
    functions.map TypedDefinition.name = definitions.map Definition.name := by
  induction checks with
  | nil => rfl
  | cons head _ rest =>
      rw [List.map_cons, List.map_cons, rest, (elaborates_of_check head).name]

theorem names_fresh (checks : ChecksAll known definitions functions) :
    (functions.map TypedDefinition.name).Nodup ∧
      ∀ function ∈ functions, function.name ∉ known.names := by
  induction checks with
  | nil => simp
  | @cons known _ _ typed functions head _ rest =>
      have elaborates := elaborates_of_check head
      have fresh : typed.name ∉ known.names := by
        rw [elaborates.name]
        exact SignatureTable.find?_eq_none_iff.mp elaborates.fresh
      obtain ⟨distinct, others⟩ := rest
      have apart : ∀ function ∈ functions,
          function.name ≠ typed.name ∧ function.name ∉ known.names := by
        intro function member
        simpa [SignatureTable.names, SignatureTable.push, not_or, and_comm] using
          others function member
      refine ⟨List.nodup_cons.mpr ⟨fun taken => ?_, distinct⟩,
        List.forall_mem_cons.mpr ⟨fresh, fun function member => (apart function member).2⟩⟩
      obtain ⟨function, member, same⟩ := List.mem_map.mp taken
      exact (apart function member).1 same

theorem nodup (checks : ChecksAll known definitions functions) (distinct : known.names.Nodup) :
    (known.extend functions).names.Nodup := by
  obtain ⟨names, fresh⟩ := checks.names_fresh
  rw [SignatureTable.names_extend, List.nodup_append]
  refine ⟨distinct, names, ?_⟩
  rintro name old other new rfl
  obtain ⟨function, member, rfl⟩ := List.mem_map.mp new
  exact fresh function member old

end ChecksAll

end Definition

end ExprLang
