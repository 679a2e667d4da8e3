import ExprLang.Ssa.Builder
import Mathlib

/-!
# Declaring and defining functions

What a module knows after it was told more: declarations stay as they are, and only the function
that gets a body has a new one.
-/

namespace ExprLang.Ssa

/-- A declaration that stays as it is, but may get a body. -/
structure Declaration.Becomes (declaration later : Declaration) : Prop where
  name : later.name = declaration.name
  prototype : later.prototype = declaration.prototype
  linkage : later.linkage = declaration.linkage
  body : ∀ body, declaration.body = some body → later.body = some body

namespace Module

variable {module later : Module} {id : FunctionId} {name : String} {wanted : Prototype}
  {linkage : Linkage}

/-- A function that was declared has the wanted prototype and linkage. Either it is new or it
was there before. -/
theorem declare_eq_ok (declared : module.declare name wanted linkage = .ok (id, later)) :
    (module.find? name = none ∧ id = ⟨module.declarations.size⟩ ∧
      later = { module with
        declarations := module.declarations.push ⟨name, wanted, linkage, none⟩ }) ∨
    (module.find? name = some id ∧ later = module ∧
      ∀ declaration, module.declaration? id = some declaration →
        declaration.prototype = wanted ∧ declaration.linkage = linkage) := by
  rw [declare] at declared
  split at declared
  · rename_i absent
    cases declared
    exact .inl ⟨absent, rfl, rfl⟩
  · rename_i found there
    split at declared
    · rename_i none
      cases declared
      refine .inr ⟨there, rfl, fun declaration some => ?_⟩
      rw [none] at some
      cases some
    · rename_i old some
      split at declared
      · cases declared
      · rename_i samePrototype
        split at declared
        · cases declared
        · rename_i sameLinkage
          cases declared
          refine .inr ⟨there, rfl, fun declaration again => ?_⟩
          rw [some] at again
          cases again
          exact ⟨by simpa using samePrototype, by simpa using sameLinkage⟩

/-- A module is complete exactly if all its own functions have bodies. -/
theorem undefined?_eq_none_iff :
    module.undefined? = none ↔ ∀ id declaration, module.declaration? id = some declaration →
      declaration.linkage ≠ .imported → declaration.body.isSome := by
  rw [undefined?, Option.map_eq_none_iff, Array.find?_eq_none]
  constructor
  · intro all id declaration found own
    have bodied := all declaration (Array.mem_of_getElem? found)
    simpa [own, Option.isSome_iff_ne_none] using bodied
  · intro all declaration member
    obtain ⟨index, inside, rfl⟩ := Array.getElem_of_mem member
    have bodied := all ⟨index⟩ _ (Array.getElem?_eq_getElem inside)
    simpa [Option.isSome_iff_ne_none] using bodied

theorem build_eq_ok {builder : Builder} (built : module.build id = .ok builder) :
    ∃ declaration, module.declaration? id = some declaration ∧
      declaration.linkage ≠ .imported ∧ declaration.body = none ∧
      builder = Builder.start id declaration := by
  rw [build, startable] at built
  split at built
  · cases built
  · rename_i declaration found
    split at built
    · cases built
    · split at built
      · cases built
      · rename_i visible empty
        cases built
        exact ⟨declaration, found, visible, by simpa using empty, rfl⟩

theorem define_eq_ok {builder : Builder} (defined : module.define id (some builder) = .ok later) :
    builder.id = id ∧ module.body? id = none ∧ builder.finalize = .ok () ∧
      later = module.attach id builder.function := by
  simp only [define] at defined
  split at defined
  · cases defined
  · rename_i owned
    split at defined
    · cases defined
    · rename_i free
      split at defined
      · cases defined
      · rename_i accepted
        cases defined
        exact ⟨by simpa using owned, by simpa using free, accepted, rfl⟩

theorem declaration?_push (declaration : Declaration) :
    ({ module with declarations := module.declarations.push declaration } :
        Module).declaration? id =
      if id.index = module.declarations.size then some declaration
      else module.declaration? id := by
  simp only [declaration?, Array.getElem?_push]

theorem declaration?_attach (body : Function) (other : FunctionId) :
    (module.attach id body).declaration? other =
      if other = id then
        (module.declaration? id).map fun declaration => { declaration with body := some body }
      else module.declaration? other := by
  simp only [declaration?, attach, Array.getElem?_modify]
  by_cases same : other = id
  · subst same
    simp
  · have different : id.index ≠ other.index := by
      intro equal
      refine same ?_
      cases id
      cases other
      simp_all
    simp [same, different]

theorem body?_declare {other : FunctionId} {body : Function}
    (declared : module.declare name wanted linkage = .ok (id, later))
    (found : later.body? other = some body) : module.body? other = some body := by
  rcases declare_eq_ok declared with ⟨_, _, rfl⟩ | ⟨_, rfl, _⟩
  · rw [body?, declaration?_push] at found
    split at found
    · cases found
    · exact found
  · exact found

theorem body?_attach {other : FunctionId} {new body : Function}
    (found : (module.attach id new).body? other = some body) :
    body = new ∨ module.body? other = some body := by
  rw [body?, declaration?_attach] at found
  split at found
  · cases known : module.declaration? id with
    | none =>
        rw [known] at found
        cases found
    | some declaration =>
        rw [known] at found
        cases found
        exact .inl rfl
  · exact .inr found

def Uniform (module : Module) : Prop :=
  ∀ id declaration, module.declaration? id = some declaration →
    declaration.prototype.results = [.i64]

theorem Uniform.declare (uniform : module.Uniform) (results : wanted.results = [.i64])
    (declared : module.declare name wanted linkage = .ok (id, later)) : later.Uniform := by
  rcases declare_eq_ok declared with ⟨_, _, rfl⟩ | ⟨_, rfl, _⟩
  · intro other declaration found
    rw [declaration?_push] at found
    split at found
    · cases found
      exact results
    · exact uniform other declaration found
  · exact uniform

theorem Uniform.attach (uniform : module.Uniform) (body : Function) :
    (module.attach id body).Uniform := by
  intro other declaration found
  rw [declaration?_attach] at found
  split at found
  · obtain ⟨old, known, rfl⟩ := Option.map_eq_some_iff.mp found
    exact uniform id old known
  · exact uniform other declaration found

/-! ## What a module knows -/

def Knows (module : Module) (id : FunctionId) (wanted : Prototype) : Prop :=
  ∃ declaration, module.declaration? id = some declaration ∧ declaration.prototype = wanted

def Extends (module later : Module) : Prop :=
  ∀ id wanted, module.Knows id wanted → later.Knows id wanted

theorem extends_declare (declared : module.declare name wanted linkage = .ok (id, later)) :
    module.Extends later := by
  rcases declare_eq_ok declared with ⟨_, _, rfl⟩ | ⟨_, rfl, _⟩
  · rintro other expected ⟨declaration, found, same⟩
    refine ⟨declaration, ?_, same⟩
    have inside : other.index < module.declarations.size :=
      (Array.getElem?_eq_some_iff.mp found).1
    rw [declaration?_push, if_neg (Nat.ne_of_lt inside), found]
  · exact fun _ _ known => known

theorem extends_attach (body : Function) : module.Extends (module.attach id body) := by
  rintro other expected ⟨declaration, found, same⟩
  simp only [Knows, declaration?_attach]
  split
  · rename_i equal
    subst equal
    exact ⟨{ declaration with body := some body }, by rw [found, Option.map_some], same⟩
  · exact ⟨declaration, found, same⟩

/-! ## Modules that are filled -/

section Filled

variable {middle : Module}

def Precedes (module later : Module) : Prop :=
  ∀ id declaration, module.declaration? id = some declaration →
    ∃ becomes, later.declaration? id = some becomes ∧ declaration.Becomes becomes

theorem Precedes.refl (module : Module) : module.Precedes module :=
  fun _ declaration found => ⟨declaration, found, rfl, rfl, rfl, fun _ same => same⟩

theorem Precedes.trans (first : module.Precedes middle) (second : middle.Precedes later) :
    module.Precedes later := by
  intro id declaration found
  obtain ⟨between, foundThen, name, prototype, linkage, body⟩ := first id declaration found
  obtain ⟨last, foundLast, again⟩ := second id between foundThen
  exact ⟨last, foundLast, again.name.trans name, again.prototype.trans prototype,
    again.linkage.trans linkage, fun code same => again.body code (body code same)⟩

theorem precedes_declare (declared : module.declare name wanted linkage = .ok (id, later)) :
    module.Precedes later := by
  rcases declare_eq_ok declared with ⟨_, _, rfl⟩ | ⟨_, rfl, _⟩
  · intro other declaration found
    have inside : other.index < module.declarations.size :=
      (Array.getElem?_eq_some_iff.mp found).1
    refine ⟨declaration, ?_, rfl, rfl, rfl, fun _ same => same⟩
    rw [declaration?_push, if_neg (Nat.ne_of_lt inside), found]
  · exact .refl _

theorem precedes_attach {declaration : Declaration}
    (found : module.declaration? id = some declaration)
    (empty : declaration.body = none) (body : Function) :
    module.Precedes (module.attach id body) := by
  intro other known foundThere
  rw [declaration?_attach]
  split
  · rename_i same
    subst same
    rw [foundThere] at found
    cases found
    refine ⟨{ declaration with body := some body }, by rw [foundThere]; rfl, rfl, rfl, rfl,
      fun code same => ?_⟩
    rw [empty] at same
    cases same
  · exact ⟨known, foundThere, rfl, rfl, rfl, fun _ same => same⟩

/-- No two functions have the same name. -/
def Distinct (module : Module) : Prop :=
  ∀ id other declaration known, module.declaration? id = some declaration →
    module.declaration? other = some known → declaration.name = known.name → id = other

theorem find?_eq_none (absent : module.find? name = none) {declaration : Declaration}
    (found : module.declaration? id = some declaration) : declaration.name ≠ name := by
  rw [find?, Option.map_eq_none_iff, Array.findIdx?_eq_none_iff] at absent
  obtain ⟨inside, equal⟩ := Array.getElem?_eq_some_iff.mp found
  have different := absent _ (Array.getElem_mem inside)
  rw [equal] at different
  simpa using different

theorem find?_eq_some (found : module.find? name = some id) :
    ∃ declaration, module.declaration? id = some declaration ∧ declaration.name = name := by
  rw [find?, Option.map_eq_some_iff] at found
  obtain ⟨index, found, rfl⟩ := found
  obtain ⟨inside, same, _⟩ := Array.findIdx?_eq_some_iff_getElem.mp found
  exact ⟨_, Array.getElem?_eq_getElem inside, by simpa using same⟩

theorem Distinct.find? (distinct : module.Distinct) {declaration : Declaration}
    (found : module.declaration? id = some declaration) :
    module.find? declaration.name = some id := by
  cases known : module.find? declaration.name with
  | none => exact absurd rfl (find?_eq_none known found)
  | some other =>
      obtain ⟨there, foundThere, same⟩ := find?_eq_some known
      rw [distinct other id there declaration foundThere found same]

theorem Distinct.declare (distinct : module.Distinct)
    (declared : module.declare name wanted linkage = .ok (id, later)) : later.Distinct := by
  rcases declare_eq_ok declared with ⟨absent, _, rfl⟩ | ⟨_, rfl, _⟩
  · intro first second declaration known found there same
    rw [declaration?_push] at found there
    split at found <;> split at there
    · rename_i left right
      cases first
      cases second
      simp_all
    · cases found
      exact absurd same.symm (find?_eq_none absent there)
    · cases there
      exact absurd same (find?_eq_none absent found)
    · exact distinct first second declaration known found there same
  · exact distinct

theorem Distinct.attach (distinct : module.Distinct) (body : Function) :
    (module.attach id body).Distinct := by
  have named : ∀ {place : FunctionId} {declaration : Declaration},
      (module.attach id body).declaration? place = some declaration →
        ∃ old, module.declaration? place = some old ∧ old.name = declaration.name := by
    intro place declaration found
    rw [declaration?_attach] at found
    split at found
    · rename_i same
      obtain ⟨old, known, rfl⟩ := Option.map_eq_some_iff.mp found
      exact ⟨old, by rw [same, known], rfl⟩
    · exact ⟨declaration, found, rfl⟩
  intro first second declaration known found there same
  obtain ⟨left, foundLeft, leftName⟩ := named found
  obtain ⟨right, foundRight, rightName⟩ := named there
  exact distinct first second left right foundLeft foundRight
    (leftName.trans (same.trans rightName.symm))

end Filled

end Module

end ExprLang.Ssa
