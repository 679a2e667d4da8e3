import ExprLang.Proofs.Ssa.Heading
import ExprLang.Proofs.Ssa.Workspaces

/-!
# The functions of a workspace

Whatever is asked of a workspace, in any order and with any number of builders at work at the
same time: functions keep their numbers, prototypes and linkages, and each gets its body at most
once, from a builder that was started for it and of which nothing was wrong at that moment.
Builders are numbered within their workspace, and one that works for another module has no
number in it.
-/

namespace ExprLang.Ssa

theorem Command.steadfast (command : Command) : command.build.Steadfast := by
  cases command with
  | createBlock => exact .discard .createBlock
  | switchTo label => exact .switchTo label
  | sealBlock label => exact .sealBlock label
  | sealAll => exact .sealAll
  | appendParameter label type => exact .discard (.appendParameter label type)
  | appendFunctionParameters label => exact .appendFunctionParameters label
  | parameters label => exact .discard (.parameters label)
  | declareVariable var type => exact .declareVariable var type
  | defineVariable var value => exact .defineVariable var value
  | useVariable var => exact .discard (.useVariable var)
  | importFunction module id => exact .discard (.importFunction module id)
  | createSlot size => exact .discard (.createSlot size)
  | emit emission => exact .emission emission

/-! ## Declarations -/

structure Declaration.Persists (declaration later : Declaration) : Prop where
  name : later.name = declaration.name
  prototype : later.prototype = declaration.prototype
  linkage : later.linkage = declaration.linkage
  body : declaration.body.isSome → later.body.isSome

namespace Module

variable {module middle later : Module} {id : FunctionId} {name : String} {wanted : Prototype}
  {linkage : Linkage}

/-- Every function of a module is one of a later module, under the same number. -/
def Retains (module later : Module) : Prop :=
  ∀ id declaration, module.declaration? id = some declaration →
    ∃ kept, later.declaration? id = some kept ∧ declaration.Persists kept

theorem Retains.refl (module : Module) : module.Retains module :=
  fun _ declaration found => ⟨declaration, found, rfl, rfl, rfl, fun has => has⟩

theorem Retains.trans (first : module.Retains middle) (second : middle.Retains later) :
    module.Retains later := by
  intro id declaration found
  obtain ⟨between, foundThen, name, prototype, linkage, body⟩ := first id declaration found
  obtain ⟨last, foundLast, again⟩ := second id between foundThen
  exact ⟨last, foundLast, again.name.trans name, again.prototype.trans prototype,
    again.linkage.trans linkage, fun has => again.body (body has)⟩

theorem Precedes.retains (precedes : module.Precedes later) : module.Retains later := by
  intro id declaration found
  obtain ⟨kept, there, becomes⟩ := precedes id declaration found
  refine ⟨kept, there, becomes.name, becomes.prototype, becomes.linkage, fun has => ?_⟩
  obtain ⟨body, same⟩ := Option.isSome_iff_exists.mp has
  rw [becomes.body body same]
  rfl

theorem retains_attach (module : Module) (id : FunctionId) (body : Function) :
    module.Retains (module.attach id body) := by
  intro other declaration found
  rw [declaration?_attach]
  split
  · rename_i same
    subst same
    exact ⟨{ declaration with body := some body }, by rw [found]; rfl, rfl, rfl, rfl,
      fun _ => rfl⟩
  · exact ⟨declaration, found, rfl, rfl, rfl, fun has => has⟩

theorem Retains.body (retains : module.Retains later) (has : (module.body? id).isSome) :
    (later.body? id).isSome := by
  obtain ⟨body, same⟩ := Option.isSome_iff_exists.mp has
  obtain ⟨declaration, found, given⟩ := Option.bind_eq_some_iff.mp same
  obtain ⟨kept, there, persists⟩ := retains id declaration found
  rw [body?, there]
  exact persists.body (by rw [given]; rfl)

theorem body?_attach_self (has : (module.declaration? id).isSome) (body : Function) :
    (module.attach id body).body? id = some body := by
  obtain ⟨declaration, found⟩ := Option.isSome_iff_exists.mp has
  rw [body?, declaration?_attach, if_pos rfl, found]
  rfl

theorem body?_attach_ne {other : FunctionId} (different : other ≠ id) (body : Function) :
    (module.attach id body).body? other = module.body? other := by
  rw [body?, declaration?_attach, if_neg different, body?]

theorem declaration?_isSome (has : (module.body? id).isSome) :
    (module.declaration? id).isSome := by
  obtain ⟨body, same⟩ := Option.isSome_iff_exists.mp has
  obtain ⟨declaration, found, _⟩ := Option.bind_eq_some_iff.mp same
  rw [found]
  rfl

/-- No imported function has a body. -/
def ImportsBare (module : Module) : Prop :=
  ∀ id declaration, module.declaration? id = some declaration →
    declaration.linkage = .imported → declaration.body = none

theorem ImportsBare.declare (bare : module.ImportsBare)
    (declared : module.declare name wanted linkage = .ok (id, later)) : later.ImportsBare := by
  rcases declare_eq_ok declared with ⟨_, _, rfl⟩ | ⟨_, rfl, _⟩
  · intro other declaration found
    rw [declaration?_push] at found
    split at found
    · cases found
      exact fun _ => rfl
    · exact bare other declaration found
  · exact bare

/-- A function may get a body if it is not imported. -/
theorem ImportsBare.attach (bare : module.ImportsBare)
    (own : ∀ declaration, module.declaration? id = some declaration →
      declaration.linkage ≠ .imported) (body : Function) :
    (module.attach id body).ImportsBare := by
  intro other declaration found imported
  rw [declaration?_attach] at found
  split at found
  · obtain ⟨old, known, rfl⟩ := Option.map_eq_some_iff.mp found
    exact absurd imported (own old known)
  · exact bare other declaration found imported

theorem Distinct.find?_iff (distinct : module.Distinct) :
    module.find? name = some id ↔
      ∃ declaration, module.declaration? id = some declaration ∧ declaration.name = name := by
  constructor
  · exact find?_eq_some
  · rintro ⟨declaration, found, rfl⟩
    exact distinct.find? found

theorem Distinct.redeclare (distinct : module.Distinct) {declaration : Declaration}
    (found : module.declaration? id = some declaration) :
    module.declare declaration.name wanted linkage =
      if declaration.prototype ≠ wanted then
        .error (.prototype declaration.name wanted declaration.prototype)
      else if declaration.linkage ≠ linkage then
        .error (.linkage declaration.name linkage declaration.linkage)
      else .ok (id, module) := by
  simp only [Module.declare, distinct.find? found, found]

theorem declare_declared (declared : module.declare name wanted linkage = .ok (id, later)) :
    ∃ declaration, later.declaration? id = some declaration ∧ declaration.name = name ∧
      declaration.prototype = wanted ∧ declaration.linkage = linkage := by
  rcases declare_eq_ok declared with ⟨_, rfl, rfl⟩ | ⟨known, rfl, same⟩
  · exact ⟨⟨name, wanted, linkage, none⟩, by rw [declaration?_push, if_pos rfl], rfl, rfl, rfl⟩
  · obtain ⟨declaration, found, named⟩ := find?_eq_some known
    obtain ⟨prototype, linked⟩ := same declaration found
    exact ⟨declaration, found, named, prototype, linked⟩

theorem finish_reaches_iff {ε α : Type} {emitter : Option (Module → Except ε α)} :
    (∃ emit, emitter = some emit ∧ module.finish emitter = (emit module).mapError .emitter) ↔
      emitter.isSome ∧ ∀ id declaration, module.declaration? id = some declaration →
        declaration.linkage ≠ .imported → declaration.body.isSome := by
  rw [← undefined?_eq_none_iff]
  cases missing : module.undefined? with
  | none =>
      cases emitter with
      | none => simp
      | some emit => simp [finish, missing]
  | some name =>
      cases emitter with
      | none => simp
      | some emit =>
          cases emitted : emit module <;> simp [finish, missing, emitted, Except.mapError]

end Module

theorem Builder.verifies {builder : Builder} (accepted : builder.finalize = .ok ()) :
    builder.misuse = none ∧ builder.function.verify = .ok () := by
  rw [finalize] at accepted
  split at accepted
  · cases accepted
  · rename_i clean
    split at accepted
    · cases accepted
    · rw [mapError_eq_ok] at accepted
      exact ⟨Option.map_eq_none_iff.mp clean, accepted⟩

namespace Workspace

variable {workspace : Workspace} {id : FunctionId} {requests : List Request}

/-! ## What is refused -/

/-- A function can get the body that a builder made: it has none yet, the builder was started
for it, and the builder accepts its work. -/
def Accepts (workspace : Workspace) (id : FunctionId) (number : Nat) : Prop :=
  workspace.module.body? id = none ∧ ∃ builder, workspace.builder? number = some builder ∧
    builder.id = id ∧ builder.finalize = .ok ()

/-- A request fails. What a builder is told is noted, if it is wrong, but never fails. -/
def Fails (workspace : Workspace) : Request → Prop
  | .declare name prototype linkage =>
    ∃ error, workspace.declare name prototype linkage = .error error
  | .build id => ∃ error, workspace.build id = .error error
  | .command _ _ => False
  | .define id number => ∃ error, workspace.define id number = .error error

theorem define_eq {number : Nat} {builder : Builder}
    (free : workspace.module.body? builder.id = none)
    (made : workspace.builder? number = some builder) (accepted : builder.finalize = .ok ()) :
    workspace.define builder.id (some number) = .ok
      { workspace with
        module := workspace.module.attach builder.id builder.function
        makers := (builder.id, number) :: workspace.makers } := by
  simp [define, made, Module.define, free, accepted, Except.map]

theorem define_eq_ok_iff {number : Nat} :
    (∃ later, workspace.define id (some number) = .ok later) ↔ workspace.Accepts id number := by
  constructor
  · rintro ⟨later, defined⟩
    rw [define] at defined
    cases made : workspace.builder? number with
    | none =>
        simp only [Option.bind_some, made] at defined
        cases defined
    | some builder =>
        simp only [Option.bind_some, made] at defined
        cases told : workspace.module.define id (some builder) with
        | error error =>
            rw [told] at defined
            cases defined
        | ok module =>
            obtain ⟨same, free, accepted, _⟩ := Module.define_eq_ok told
            exact ⟨free, builder, made, same, accepted⟩
  · rintro ⟨free, builder, made, rfl, accepted⟩
    exact ⟨_, define_eq free made accepted⟩

theorem handle_of_fails {request : Request} (fails : workspace.Fails request) :
    workspace.handle request = workspace := by
  cases request with
  | command number command => exact fails.elim
  | declare | build | define =>
      obtain ⟨error, told⟩ := fails
      simp only [handle, told]

theorem handle_define {number : Nat} {builder : Builder}
    (free : workspace.module.body? builder.id = none)
    (made : workspace.builder? number = some builder) (accepted : builder.finalize = .ok ()) :
    workspace.handle (.define builder.id (some number)) =
      { workspace with
        module := workspace.module.attach builder.id builder.function
        makers := (builder.id, number) :: workspace.makers } := by
  rw [handle, define_eq free made accepted]

/-! ## What requests keep -/

theorem handleAll_append (workspace : Workspace) (first second : List Request) :
    workspace.handleAll (first ++ second) = (workspace.handleAll first).handleAll second :=
  List.foldl_append

/-- How a workspace answers a request: it refuses it and stays as it is, or it declares a
function, starts a builder, lets a builder go on or gives a function its body. -/
inductive Answers (workspace : Workspace) : Request → Workspace → Prop where
  | refuse (request : Request) : Answers workspace request workspace
  | declare {name : String} {prototype : Prototype} {linkage : Linkage} {id : FunctionId}
      {module : Module}
      (declared : workspace.module.declare name prototype linkage = .ok (id, module)) :
      Answers workspace (.declare name prototype linkage) { workspace with module }
  | build {id : FunctionId} {builder : Builder}
      (started : workspace.module.build id = .ok builder) :
      Answers workspace (.build id)
        { workspace with builders := workspace.builders.push builder }
  | command {number : Nat} {builder later : Builder} (command : Command)
      (made : workspace.builder? number = some builder)
      (kept : later.heading = builder.heading)
      (noted : later.misuse = none → builder.misuse = none) :
      Answers workspace (.command number command) (workspace.setBuilder number later)
  | define {number : Nat} {builder : Builder}
      (free : workspace.module.body? builder.id = none)
      (made : workspace.builder? number = some builder)
      (accepted : builder.finalize = .ok ()) :
      Answers workspace (.define builder.id (some number))
        { workspace with
          module := workspace.module.attach builder.id builder.function
          makers := (builder.id, number) :: workspace.makers }

theorem answers_handle (workspace : Workspace) (request : Request) :
    workspace.Answers request (workspace.handle request) := by
  cases request with
  | declare name prototype linkage =>
      simp only [handle, Workspace.declare]
      cases declared : workspace.module.declare name prototype linkage with
      | error error => exact .refuse _
      | ok answer => exact .declare declared
  | build id =>
      simp only [handle, Workspace.build]
      cases started : workspace.module.build id with
      | error error => exact .refuse _
      | ok builder => exact .build started
  | command number command =>
      simp only [handle, perform]
      cases made : workspace.builder? number with
      | none => exact .refuse _
      | some builder =>
          exact .command command made (Command.steadfast _ builder) (Command.misuse _ builder)
  | define id number =>
      simp only [handle]
      cases defined : workspace.define id number with
      | error error => exact .refuse _
      | ok later =>
          cases number with
          | none => cases defined
          | some number =>
              obtain ⟨free, builder, made, rfl, accepted⟩ := define_eq_ok_iff.mp ⟨_, defined⟩
              rw [define_eq free made accepted] at defined
              cases defined
              exact .define free made accepted

namespace Answers

variable {request : Request} {later : Workspace}

theorem retains (answers : workspace.Answers request later) :
    workspace.module.Retains later.module := by
  cases answers with
  | refuse | build => exact .refl _
  | declare declared => exact (Module.precedes_declare declared).retains
  | command command made kept noted =>
      rw [setBuilder]
      dsimp only
      split
      · exact Module.retains_attach _ _ _
      · exact .refl _
  | define free made accepted => exact Module.retains_attach _ _ _

theorem misused (answers : workspace.Answers request later) {number : Nat} {builder : Builder}
    (found : workspace.builder? number = some builder) (bad : builder.misuse ≠ none) :
    ∃ next, later.builder? number = some next ∧ next.misuse ≠ none := by
  have inside : number < workspace.builders.size := (Array.getElem?_eq_some_iff.mp found).1
  cases answers with
  | refuse | declare | define => exact ⟨builder, found, bad⟩
  | build started =>
      refine ⟨builder, ?_, bad⟩
      rw [builder?, Array.getElem?_push, if_neg (Nat.ne_of_lt inside)]
      exact found
  | @command other _ changed command made kept noted =>
      by_cases same : other = number
      · subst same
        rw [found] at made
        cases made
        refine ⟨changed, ?_, fun good => bad (noted good)⟩
        simp [builder?, setBuilder, inside]
      · refine ⟨builder, ?_, bad⟩
        rw [builder?, setBuilder, Array.getElem?_setIfInBounds_ne same]
        exact found

end Answers

/-- A builder that was misused never gives a function its body. -/
theorem misused_handleAll {number : Nat} {builder : Builder}
    (found : workspace.builder? number = some builder) (bad : builder.misuse ≠ none)
    (requests : List Request) (id : FunctionId) :
    ∃ error, (workspace.handleAll requests).define id (some number) = .error error := by
  induction requests generalizing workspace builder with
  | nil =>
      cases defined : workspace.define id (some number) with
      | error error => exact ⟨error, defined⟩
      | ok later =>
          obtain ⟨_, maker, same, _, accepted⟩ := define_eq_ok_iff.mp ⟨later, defined⟩
          rw [found] at same
          cases same
          exact absurd (Builder.verifies accepted).1 bad
  | cons request rest induction =>
      obtain ⟨next, there, still⟩ := (workspace.answers_handle request).misused found bad
      exact induction there still

theorem retains_handleAll (workspace : Workspace) (requests : List Request) :
    workspace.module.Retains (workspace.handleAll requests).module := by
  induction requests generalizing workspace with
  | nil => exact .refl _
  | cons request rest induction =>
      exact (workspace.answers_handle request).retains.trans (induction _)

/-! ## Where builders and bodies come from -/

/-- A builder is started for a function by a request that follows some others. -/
def Starts (origin : Workspace) (before : List Request) (id : FunctionId) (number : Nat)
    (requests : List Request) : Prop :=
  (∃ after, requests = before ++ .build id :: after) ∧
    ∃ later, (origin.handleAll before).build id = .ok (number, later)

/-- A function gets its body from a builder by a request that follows some others. -/
def Defines (origin : Workspace) (before : List Request) (id : FunctionId) (number : Nat)
    (requests : List Request) : Prop :=
  (∃ after, requests = before ++ .define id (some number) :: after) ∧
    ∃ later, (origin.handleAll before).define id (some number) = .ok later

section Histories

variable {origin : Workspace} {before : List Request} {number : Nat}

theorem Starts.append (starts : origin.Starts before id number requests)
    (more : List Request) : origin.Starts before id number (requests ++ more) := by
  obtain ⟨⟨after, rfl⟩, started⟩ := starts
  exact ⟨⟨after ++ more, by simp⟩, started⟩

theorem Defines.append (defines : origin.Defines before id number requests)
    (more : List Request) : origin.Defines before id number (requests ++ more) := by
  obtain ⟨⟨after, rfl⟩, accepted⟩ := defines
  exact ⟨⟨after ++ more, by simp⟩, accepted⟩

/-- A builder is started only for a function that is not imported, and it never becomes one. -/
theorem Starts.own (starts : origin.Starts before id number requests) :
    ∃ declaration, (origin.handleAll requests).module.declaration? id = some declaration ∧
      declaration.linkage ≠ .imported := by
  obtain ⟨⟨after, rfl⟩, later, started⟩ := starts
  rw [build] at started
  cases told : (origin.handleAll before).module.build id with
  | error error =>
      rw [told] at started
      cases started
  | ok builder =>
      obtain ⟨old, there, own, _, _⟩ := Module.build_eq_ok told
      rw [handleAll_append]
      obtain ⟨kept, found, persists⟩ := retains_handleAll _ (.build id :: after) _ _ there
      exact ⟨kept, found, by rwa [persists.linkage]⟩

end Histories

structure Accounted (origin : Workspace) (requests : List Request) (workspace : Workspace) :
    Prop where
  distinct : workspace.module.Distinct
  bare : workspace.module.ImportsBare
  started : ∀ number builder, workspace.builder? number = some builder →
    ∃ before, origin.Starts before builder.id number requests
  made : ∀ id number, workspace.makers.lookup id = some number →
    ∃ before builder, origin.Defines before id number requests ∧
      (∃ first, origin.Starts first id number before) ∧
      workspace.builder? number = some builder ∧ builder.id = id ∧
      workspace.module.body? id = some builder.function
  bodies : ∀ id, (workspace.module.body? id).isSome → (workspace.makers.lookup id).isSome

namespace Accounted

variable {origin later : Workspace} {request : Request}

theorem empty (name : String) : Accounted (.empty name) [] (.empty name) where
  distinct := by simp [Module.Distinct, Workspace.empty, Module.empty, Module.declaration?]
  bare := by simp [Module.ImportsBare, Workspace.empty, Module.empty, Module.declaration?]
  started := by simp [Workspace.empty, Workspace.builder?]
  made := by simp [Workspace.empty]
  bodies := by simp [Workspace.empty, Module.empty, Module.body?, Module.declaration?]

theorem more (account : Accounted origin requests workspace) (request : Request) :
    Accounted origin (requests ++ [request]) workspace where
  distinct := account.distinct
  bare := account.bare
  started number builder made := by
    obtain ⟨before, starts⟩ := account.started number builder made
    exact ⟨before, starts.append _⟩
  made id number made := by
    obtain ⟨before, builder, defines, rest⟩ := account.made id number made
    exact ⟨before, builder, defines.append _, rest⟩
  bodies := account.bodies

theorem declare (account : Accounted origin requests workspace) {name : String}
    {prototype : Prototype} {linkage : Linkage} {module : Module}
    (declared : workspace.module.declare name prototype linkage = .ok (id, module)) :
    Accounted origin requests { workspace with module } where
  distinct := account.distinct.declare declared
  bare := account.bare.declare declared
  started := account.started
  made other number made := by
    obtain ⟨before, builder, defines, starts, found, same, body⟩ := account.made other number made
    refine ⟨before, builder, defines, starts, found, same, ?_⟩
    obtain ⟨declaration, there, given⟩ := Option.bind_eq_some_iff.mp body
    obtain ⟨kept, foundKept, becomes⟩ := Module.precedes_declare declared other declaration there
    rw [Module.body?, foundKept]
    exact becomes.body _ given
  bodies other has := by
    obtain ⟨body, given⟩ := Option.isSome_iff_exists.mp has
    exact account.bodies other (Option.isSome_of_eq_some (Module.body?_declare declared given))

theorem build (account : Accounted origin requests workspace)
    (reached : origin.handleAll requests = workspace) {builder : Builder}
    (started : workspace.module.build id = .ok builder) :
    Accounted origin (requests ++ [.build id])
      { workspace with builders := workspace.builders.push builder } where
  distinct := account.distinct
  bare := account.bare
  started number other found := by
    simp only [builder?, Array.getElem?_push] at found
    split at found
    · rename_i last
      cases found
      subst last
      obtain ⟨declaration, _, _, _, rfl⟩ := Module.build_eq_ok started
      refine ⟨requests, ⟨[], rfl⟩, ?_⟩
      rw [reached]
      refine ⟨{ workspace with builders := workspace.builders.push (.start id declaration) }, ?_⟩
      simp [Workspace.build, Builder.start, started, Except.map]
    · exact (account.more _).started number other found
  made other number made := by
    obtain ⟨before, maker, defines, starts, found, rest⟩ := (account.more _).made other number made
    refine ⟨before, maker, defines, starts, ?_, rest⟩
    have inside : number < workspace.builders.size := (Array.getElem?_eq_some_iff.mp found).1
    rw [builder?, Array.getElem?_push, if_neg (Nat.ne_of_lt inside)]
    exact found
  bodies := account.bodies

theorem command (account : Accounted origin requests workspace) {number : Nat}
    {builder next : Builder} (found : workspace.builder? number = some builder)
    (kept : next.heading = builder.heading) :
    Accounted origin requests (workspace.setBuilder number next) := by
  have same : next.id = builder.id := congrArg Prod.fst kept
  have inside : number < workspace.builders.size := (Array.getElem?_eq_some_iff.mp found).1
  have builders : ∀ other, (workspace.setBuilder number next).builder? other =
      if number = other then some next else workspace.builder? other := by
    intro other
    simp only [builder?, setBuilder, Array.getElem?_setIfInBounds, inside, if_true]
  refine ⟨?distinct, ?bare, ?started, ?made, ?bodies⟩
  case distinct =>
    rw [setBuilder]
    dsimp only
    split
    · exact account.distinct.attach _
    · exact account.distinct
  case bare =>
    rw [setBuilder]
    dsimp only
    split
    · rename_i maker
      obtain ⟨_, old, _, _, _, _, body⟩ := account.made _ _ maker
      refine account.bare.attach (fun declaration there imported => ?_) _
      rw [Module.body?, there, Option.bind_some, account.bare _ _ there imported] at body
      cases body
    · exact account.bare
  case started =>
    intro other maker there
    rw [builders] at there
    split at there
    · rename_i equal
      cases there
      rw [same, ← equal]
      exact account.started number builder found
    · exact account.started other maker there
  case made =>
    intro id other maker
    obtain ⟨before, old, defines, starts, there, owned, body⟩ := account.made id other maker
    by_cases equal : number = other
    · subst equal
      rw [found] at there
      cases there
      refine ⟨before, next, defines, starts, by rw [builders, if_pos rfl], same.trans owned, ?_⟩
      have attached : workspace.makers.lookup next.id = some number := by
        rw [same, owned]
        exact maker
      rw [setBuilder]
      dsimp only
      rw [if_pos attached, same, owned]
      refine Module.body?_attach_self (Module.declaration?_isSome ?_) _
      exact Option.isSome_of_eq_some body
    · refine ⟨before, old, defines, starts, by rw [builders, if_neg equal, there], owned, ?_⟩
      rw [setBuilder]
      dsimp only
      split
      · rename_i attached
        refine (Module.body?_attach_ne ?_ _).trans body
        rintro rfl
        exact equal (Option.some.inj (attached.symm.trans maker))
      · exact body
  case bodies =>
    intro id has
    simp only [setBuilder] at has ⊢
    split at has
    · rename_i attached
      by_cases equal : id = next.id
      · subst equal
        exact Option.isSome_of_eq_some attached
      · rw [Module.body?_attach_ne equal] at has
        exact account.bodies id has
    · exact account.bodies id has

theorem define (account : Accounted origin requests workspace)
    (reached : origin.handleAll requests = workspace) {number : Nat} {builder : Builder}
    (free : workspace.module.body? builder.id = none)
    (found : workspace.builder? number = some builder) (accepted : builder.finalize = .ok ()) :
    Accounted origin (requests ++ [.define builder.id (some number)])
      { workspace with
        module := workspace.module.attach builder.id builder.function
        makers := (builder.id, number) :: workspace.makers } := by
  obtain ⟨first, starts⟩ := account.started number builder found
  obtain ⟨declaration, declared, own⟩ := starts.own
  rw [reached] at declared
  have given := Module.body?_attach_self (Option.isSome_of_eq_some declared) builder.function
  refine ⟨account.distinct.attach _, account.bare.attach ?_ _, (account.more _).started, ?_, ?_⟩
  · intro known there
    rw [declared] at there
    cases there
    exact own
  · intro id other maker
    rw [List.lookup_cons] at maker
    split at maker
    · rename_i equal
      cases maker
      cases eq_of_beq equal
      refine ⟨requests, builder, ⟨⟨[], rfl⟩, ?_⟩, ⟨first, starts⟩, found, rfl, given⟩
      rw [reached]
      exact define_eq_ok_iff.mpr ⟨free, builder, found, rfl, accepted⟩
    · obtain ⟨before, old, defines, starts, there, owned, body⟩ :=
        (account.more _).made id other maker
      refine ⟨before, old, defines, starts, there, owned, ?_⟩
      refine (Module.body?_attach_ne ?_ _).trans body
      rintro rfl
      rw [free] at body
      cases body
  · intro id has
    rw [List.lookup_cons]
    split
    · rfl
    · rename_i different
      rw [Module.body?_attach_ne (ne_of_beq_false (by simpa using different))] at has
      exact account.bodies id has

/-- A definition that succeeds gives its function what the builder made, and changes no other. -/
theorem define_attaches (account : Accounted origin requests workspace)
    (reached : origin.handleAll requests = workspace) {number : Nat}
    (defined : workspace.define id (some number) = .ok later) :
    workspace.module.body? id = none ∧ later.builders = workspace.builders ∧
      (∃ maker, workspace.builder? number = some maker ∧ maker.id = id ∧ maker.misuse = none ∧
        maker.function.verify = .ok () ∧ later.module.body? id = some maker.function) ∧
      ∀ other, other ≠ id → later.module.body? other = workspace.module.body? other := by
  rcases define_eq_ok_iff.mp ⟨later, defined⟩ with ⟨free, maker, found, rfl, accepted⟩
  rcases Builder.verifies accepted with ⟨clean, verified⟩
  rcases account.started number maker found with ⟨first, starts⟩
  rcases starts.own with ⟨declaration, declared, _⟩
  rw [reached] at declared
  rw [define_eq free found accepted] at defined
  cases defined
  have given := Module.body?_attach_self (Option.isSome_of_eq_some declared) maker.function
  exact ⟨free, rfl, ⟨maker, found, rfl, clean, verified, given⟩,
    fun other different => Module.body?_attach_ne different maker.function⟩

theorem answers (account : Accounted origin requests workspace)
    (reached : origin.handleAll requests = workspace)
    (answers : workspace.Answers request later) :
    Accounted origin (requests ++ [request]) later := by
  cases answers with
  | refuse => exact account.more _
  | declare declared => exact (account.declare declared).more _
  | build started => exact account.build reached started
  | command command made kept noted => exact (account.command made kept).more _
  | define free made accepted => exact account.define reached free made accepted

theorem handleAll (account : Accounted origin [] origin) (requests : List Request) :
    Accounted origin requests (origin.handleAll requests) := by
  induction requests using List.reverseRecOn with
  | nil => exact account
  | append_singleton rest request induction =>
      rw [handleAll_append]
      exact induction.answers rfl (answers_handle _ _)

end Accounted

/-! ## The store -/

section Once

variable {origin : Workspace} {before other : List Request} {number another : Nat}

theorem Defines.body (account : Accounted origin [] origin)
    (defines : origin.Defines before id number requests) :
    ((origin.handleAll requests).module.body? id).isSome := by
  obtain ⟨⟨after, rfl⟩, defined⟩ := defines
  obtain ⟨free, builder, found, rfl, accepted⟩ := define_eq_ok_iff.mp defined
  obtain ⟨_, starts⟩ := (account.handleAll before).started number builder found
  obtain ⟨declaration, declared, _⟩ := starts.own
  rw [handleAll_append]
  refine (retains_handleAll _ after).body ?_
  rw [handle_define free found accepted]
  exact Option.isSome_of_eq_some
    (Module.body?_attach_self (Option.isSome_of_eq_some declared) builder.function)

theorem Defines.length_le (account : Accounted origin [] origin)
    (first : origin.Defines before id number requests)
    (second : origin.Defines other id another requests) : other.length ≤ before.length := by
  by_contra longer
  obtain ⟨⟨after, split⟩, defined⟩ := first
  obtain ⟨⟨rest, same⟩, again⟩ := second
  rw [split] at same
  rcases List.append_eq_append_iff.mp same with ⟨middle, rfl, next⟩ | ⟨middle, rfl, _⟩
  · cases middle with
    | nil => simp at longer
    | cons request middle =>
        cases next
        have given : origin.Defines before id number
            (before ++ .define id (some number) :: middle) := ⟨⟨middle, rfl⟩, defined⟩
        have has := given.body account
        rw [(define_eq_ok_iff.mp again).1] at has
        cases has
  · simp at longer

/-- A function gets its body at most once. -/
theorem Defines.unique (account : Accounted origin [] origin)
    (first : origin.Defines before id number requests)
    (second : origin.Defines other id another requests) :
    other = before ∧ another = number := by
  have equal := Nat.le_antisymm (first.length_le account second) (second.length_le account first)
  obtain ⟨⟨after, split⟩, _⟩ := first
  obtain ⟨⟨rest, same⟩, _⟩ := second
  obtain ⟨rfl, next⟩ := List.append_inj (same.symm.trans split) equal
  cases next
  exact ⟨rfl, rfl⟩

end Once

/-- Whatever is asked of a workspace, its module stays a proper store of functions. Names are
distinct, and functions are found by them. Functions keep their numbers, names, prototypes and
linkages, and their bodies if they have any. A function can be declared again exactly as it was
declared before, and then has the same number. Imported functions have no bodies. A function that
has a body got it exactly once, from a builder that was started for it before, of which nothing
was wrong at that moment and whose function verified; and what the builder has made is its body.
A definition that succeeds makes what the builder has made then the body of its function, which had
none, and leaves the other bodies alone. A builder that was misused never gives a function its
body. A module reaches its emitter exactly if there is one and every own function has a body. A
declaration, a start or a definition that fails changes nothing. -/
theorem module_stays_proper_store (name : String) (requests : List Request)
    {ε α : Type} (emitter : Option (Module → Except ε α)) :
    let origin := Workspace.empty name
    let workspace := origin.handleAll requests
    workspace.module.Distinct ∧
    (∀ name id, workspace.module.find? name = some id ↔
      ∃ declaration, workspace.module.declaration? id = some declaration ∧
        declaration.name = name) ∧
    (∀ further, workspace.module.Retains (workspace.handleAll further).module) ∧
    (∀ name prototype linkage id later,
      workspace.declare name prototype linkage = .ok (id, later) →
        ∃ declaration, later.module.declaration? id = some declaration ∧
          declaration.name = name ∧ declaration.prototype = prototype ∧
          declaration.linkage = linkage) ∧
    (∀ id declaration, workspace.module.declaration? id = some declaration →
      ∀ prototype linkage,
        (declaration.prototype = prototype ∧ declaration.linkage = linkage →
          workspace.declare declaration.name prototype linkage = .ok (id, workspace)) ∧
        (¬ (declaration.prototype = prototype ∧ declaration.linkage = linkage) →
          ∃ error, workspace.declare declaration.name prototype linkage = .error error)) ∧
    workspace.module.ImportsBare ∧
    (∀ id body, workspace.module.body? id = some body →
      ∃ before number, origin.Defines before id number requests ∧
        (∀ other another, origin.Defines other id another requests →
          other = before ∧ another = number) ∧
        (∃ first, origin.Starts first id number before) ∧
        (∃ maker, (origin.handleAll before).builder? number = some maker ∧ maker.id = id ∧
          maker.misuse = none ∧ maker.function.verify = .ok ()) ∧
        ∃ maker, workspace.builder? number = some maker ∧ maker.function = body) ∧
    (∀ id number later, workspace.define id (some number) = .ok later →
      workspace.module.body? id = none ∧ later.builders = workspace.builders ∧
      (∃ maker, workspace.builder? number = some maker ∧ maker.id = id ∧ maker.misuse = none ∧
        maker.function.verify = .ok () ∧ later.module.body? id = some maker.function) ∧
      ∀ other, other ≠ id → later.module.body? other = workspace.module.body? other) ∧
    (∀ number maker, workspace.builder? number = some maker → maker.misuse ≠ none →
      ∀ further id, ∃ error,
        (workspace.handleAll further).define id (some number) = .error error) ∧
    ((∃ emit, emitter = some emit ∧
        workspace.module.finish emitter = (emit workspace.module).mapError .emitter) ↔
      emitter.isSome ∧ ∀ id declaration, workspace.module.declaration? id = some declaration →
        declaration.linkage ≠ .imported → declaration.body.isSome) ∧
    ∀ request, workspace.Fails request → workspace.handle request = workspace := by
  intro origin workspace
  have account : Accounted origin requests workspace := (Accounted.empty name).handleAll requests
  refine ⟨account.distinct, fun _ _ => account.distinct.find?_iff, workspace.retains_handleAll,
    ?_, ?_, account.bare, ?_, fun _ _ _ => account.define_attaches rfl,
    fun _ _ => misused_handleAll, Module.finish_reaches_iff, fun _ => handle_of_fails⟩
  · intro name prototype linkage id later declared
    rw [declare] at declared
    cases told : workspace.module.declare name prototype linkage with
    | error error =>
        rw [told] at declared
        cases declared
    | ok answer =>
        rw [told] at declared
        cases declared
        exact Module.declare_declared told
  · intro id declaration found prototype linkage
    rw [declare, account.distinct.redeclare found]
    constructor
    · rintro ⟨rfl, rfl⟩
      simp [Except.map]
    · intro different
      by_cases same : declaration.prototype = prototype
      · have linked : declaration.linkage ≠ linkage := fun equal => different ⟨same, equal⟩
        simp [same, linked, Except.map]
      · simp [same, Except.map]
  · intro id body given
    obtain ⟨number, maker⟩ := Option.isSome_iff_exists.mp
      (account.bodies id (Option.isSome_of_eq_some given))
    obtain ⟨before, builder, defines, starts, found, _, made⟩ := account.made id number maker
    rw [given] at made
    cases made
    refine ⟨before, number, defines, fun other another again =>
      defines.unique (.empty name) again, starts, ?_, builder, found, rfl⟩
    obtain ⟨_, old, there, owned, accepted⟩ := define_eq_ok_iff.mp defines.2
    exact ⟨old, there, owned, Builder.verifies accepted⟩

end Workspace

end ExprLang.Ssa
