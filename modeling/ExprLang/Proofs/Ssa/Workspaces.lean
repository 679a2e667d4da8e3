import ExprLang.Proofs.Ssa.Equipment
import ExprLang.Proofs.Ssa.Modules
import ExprLang.Ssa.Workspace

/-!
# Workspaces that are used as intended

Functions are declared, built and defined in any order, by several builders at the same time.
Every body that the module accepts can be executed, and every function that it calls is declared
in the module as the body expects, whatever was done wrong with builders whose work was refused.
-/

namespace ExprLang.Ssa

def Command.build : Command → Build Unit
  | createBlock => discard Build.createBlock
  | switchTo label => Build.switchTo label
  | sealBlock label => Build.sealBlock label
  | sealAll => Build.sealAll
  | appendParameter label type => discard (Build.appendParameter label type)
  | appendFunctionParameters label => Build.appendFunctionParameters label
  | parameters label => discard (Build.parameters label)
  | declareVariable var type => Build.declareVariable var type
  | defineVariable var value => Build.defineVariable var value
  | useVariable var => discard (Build.useVariable var)
  | importFunction module id => discard (Build.importFunction module id)
  | createSlot size => discard (Build.createSlot size)
  | emit emission => emission.build

theorem History.builder_perform (history : History) (command : Command) :
    (history.perform command).builder = (command.build.run history.builder).2 := by
  cases command with
  | defineVariable | useVariable =>
      rw [perform, builder_note]
      rfl
  | emit emission =>
      simp only [perform]
      split
      · rfl
      · rw [builder_note]
        rfl
  | _ => rfl

theorem Command.misuse (command : Command) (builder : Builder)
    (good : (command.build.run builder).2.misuse = none) : builder.misuse = none := by
  refine @History.perform_misuse ⟨builder, fun _ => []⟩ command ?_
  rw [History.builder_perform]
  exact good

def Command.within (module : Module) : Command → Command
  | importFunction _ id => importFunction module id
  | command => command

theorem Command.within_module {module other : Module} {command : Command} {id : FunctionId}
    (imports : command.within module = .importFunction other id) : other = module := by
  cases command with
  | importFunction _ _ =>
      cases imports
      rfl
  | _ => cases imports

/-- What the user of a workspace can ask for. -/
inductive Request where
  | declare (name : String) (prototype : Prototype) (linkage : Linkage)
  | build (id : FunctionId)
  | command (number : Nat) (command : Command)
  | define (id : FunctionId) (number : Option Nat)

namespace Workspace

/-- The workspace after a request. One that is refused changes nothing. -/
def handle (workspace : Workspace) : Request → Workspace
  | .declare name prototype linkage =>
    match workspace.declare name prototype linkage with
    | .ok (_, later) => later
    | .error _ => workspace
  | .build id =>
    match workspace.build id with
    | .ok (_, later) => later
    | .error _ => workspace
  | .command number command =>
    match workspace.perform number (command.within workspace.module).build with
    | some ((), later) => later
    | none => workspace
  | .define id number =>
    match workspace.define id number with
    | .ok later => later
    | .error _ => workspace

/-- The workspace after some requests. -/
def handleAll (workspace : Workspace) (requests : List Request) : Workspace :=
  requests.foldl handle workspace

def Allows (workspace : Workspace) : Request → Prop
  | .command number _ => ∀ maker ∈ workspace.makers, maker.2 ≠ number
  | _ => True

instance decidableAllows (workspace : Workspace) :
    (request : Request) → Decidable (workspace.Allows request)
  | .command number _ => inferInstanceAs (Decidable (∀ maker ∈ workspace.makers,
    maker.2 ≠ number))
  | .declare _ _ _ | .build _ | .define _ _ => .isTrue trivial

/-- The user of a workspace keeps to the rule throughout. -/
def AllowsAll : Workspace → List Request → Prop
  | _, [] => True
  | workspace, request :: requests =>
    workspace.Allows request ∧ AllowsAll (workspace.handle request) requests

instance decidableAllowsAll :
    (workspace : Workspace) → (requests : List Request) →
      Decidable (workspace.AllowsAll requests)
  | _, [] => .isTrue trivial
  | workspace, request :: requests =>
    have := decidableAllowsAll (workspace.handle request) requests
    inferInstanceAs (Decidable (workspace.Allows request ∧
      AllowsAll (workspace.handle request) requests))

end Workspace

/-! ## Bodies and builders -/

/-- A function can be executed, and the functions that it calls are declared as it expects. -/
structure Module.Supports (module : Module) (function : Function) : Prop where
  executable : function.Executable
  references : ∀ external ∈ function.references,
    module.Knows external.id external.prototype

/-- Every body is supported and has the prototype of its declaration. -/
def Module.Consistent (module : Module) : Prop :=
  ∀ id declaration function, module.declaration? id = some declaration →
    declaration.body = some function →
      module.Supports function ∧ function.prototype = declaration.prototype

/-- The account of a builder that works for a module. -/
structure Recording.Serves (module : Module) (recording : Recording) : Prop where
  sound : Sound recording
  settled : recording.Settled
  equipped : recording.Equipped
  declared : module.Knows recording.builder.id recording.builder.function.prototype
  references : ∀ external ∈ recording.builder.function.references,
    module.Knows external.id external.prototype

/-- A builder of which nothing is wrong so far has an account. -/
def Builder.Serves (module : Module) (builder : Builder) : Prop :=
  builder.misuse = none → ∃ recording : Recording,
    recording.builder = builder ∧ recording.Serves module

section Extends

variable {module later : Module}

theorem Module.Supports.mono {function : Function} (supports : module.Supports function)
    (grows : module.Extends later) : later.Supports function :=
  ⟨supports.executable, fun external member => grows _ _ (supports.references external member)⟩

theorem Builder.Serves.mono {builder : Builder} (serves : builder.Serves module)
    (grows : module.Extends later) : builder.Serves later := by
  intro good
  obtain ⟨recording, same, sound, settled, equipped, declared, references⟩ := serves good
  exact ⟨recording, same, sound, settled, equipped, grows _ _ declared,
    fun external member => grows _ _ (references external member)⟩

end Extends

theorem Builder.Serves.start {module : Module} {id : FunctionId} {declaration : Declaration}
    (found : module.declaration? id = some declaration) :
    (Builder.start id declaration).Serves module := by
  refine fun _ => ⟨.start id declaration, rfl, .start id declaration, .start id declaration,
    .start id declaration, ⟨declaration, found, rfl⟩, ?_⟩
  intro external member
  simp [Recording.start, History.start, Builder.start, Function.start] at member

/-- Whatever is asked of it, a builder serves its module as long as nothing is wrong. -/
theorem Builder.Serves.perform {module : Module} {builder : Builder}
    (serves : builder.Serves module) (asked : Command) :
    ((asked.within module).build.run builder).2.Serves module := by
  intro good
  have before : builder.misuse = none := (asked.within module).misuse builder good
  obtain ⟨recording, rfl, sound, settled, equipped, declared, references⟩ := serves before
  obtain ⟨deeds, later, same, performs, _, _, imported⟩ := @perform_performs none recording sound
    settled (asked.within module) (by simp) (by rw [History.builder_perform]; exact good)
  have grows := Moves.grows performs.moves
  refine ⟨later, ?_, sound.moves performs.moves, settled.performsAll sound performs,
    equipped.moves performs.moves, ?_, ?_⟩
  · rw [same, History.builder_perform]
  · rw [grows.id, grows.prototype]
    exact declared
  · intro external member
    rcases performs.mem_references member with old | new
    · exact references external old
    · obtain ⟨other, declaration, command, found, prototype⟩ := imported external new
      rw [Command.within_module command] at found
      exact ⟨declaration, found, prototype⟩

theorem Builder.Serves.supports {module : Module} {builder : Builder}
    (serves : builder.Serves module) (accepted : builder.finalize = .ok ()) :
    module.Supports builder.function ∧ module.Knows builder.id builder.function.prototype := by
  obtain ⟨good, _, _, entry, verified⟩ := Builder.finalize_eq_ok.mp accepted
  obtain ⟨recording, rfl, sound, _, equipped, declared, references⟩ := serves good
  exact ⟨⟨equipped.executable sound verified, references⟩, declared⟩

/-! ## Modules -/

namespace Module.Consistent

variable {module later : Module}

theorem declare {name : String} {prototype : Prototype} {linkage : Linkage} {id : FunctionId}
    (consistent : module.Consistent)
    (declared : module.declare name prototype linkage = .ok (id, later)) : later.Consistent := by
  have grows := extends_declare declared
  rcases declare_eq_ok declared with ⟨_, _, rfl⟩ | ⟨_, rfl, _⟩
  · intro other declaration function found body
    rw [declaration?_push] at found
    split at found
    · cases found
      cases body
    · obtain ⟨supports, same⟩ := consistent other declaration function found body
      exact ⟨supports.mono grows, same⟩
  · exact consistent

theorem attach {id : FunctionId} {new : Function} (consistent : module.Consistent)
    (supports : module.Supports new) (known : module.Knows id new.prototype) :
    (module.attach id new).Consistent := by
  have grows : module.Extends (module.attach id new) := extends_attach new
  intro other declaration function found body
  rw [declaration?_attach] at found
  split at found
  · obtain ⟨old, before, same⟩ := known
    rw [before] at found
    cases found
    cases body
    exact ⟨supports.mono grows, same.symm⟩
  · obtain ⟨old, same⟩ := consistent other declaration function found body
    exact ⟨old.mono grows, same⟩

end Module.Consistent

/-! ## Workspaces -/

structure Workspace.Orderly (workspace : Workspace) : Prop where
  consistent : workspace.module.Consistent
  serves : ∀ builder ∈ workspace.builders, builder.Serves workspace.module

namespace Workspace

variable {workspace later : Workspace} {id : FunctionId}

theorem lookup_ne {makers : List (FunctionId × Nat)} {number : Nat}
    (unused : ∀ maker ∈ makers, maker.2 ≠ number) (id : FunctionId) :
    makers.lookup id ≠ some number := by
  intro made
  obtain ⟨before, behind, split, _⟩ := List.lookup_eq_some_iff.mp made
  refine unused (id, number) ?_ rfl
  rw [split]
  exact List.mem_append_right _ List.mem_cons_self

namespace Orderly

theorem declare {name : String} {prototype : Prototype} {linkage : Linkage}
    (orderly : workspace.Orderly)
    (declared : workspace.declare name prototype linkage = .ok (id, later)) : later.Orderly := by
  rw [Workspace.declare] at declared
  cases told : workspace.module.declare name prototype linkage with
  | error error =>
      rw [told] at declared
      cases declared
  | ok answer =>
      obtain ⟨same, module⟩ := answer
      rw [told] at declared
      cases declared
      exact ⟨orderly.consistent.declare told,
        fun builder member => (orderly.serves builder member).mono (Module.extends_declare told)⟩

theorem build {number : Nat} (orderly : workspace.Orderly)
    (started : workspace.build id = .ok (number, later)) : later.Orderly := by
  rw [Workspace.build] at started
  cases told : workspace.module.build id with
  | error error =>
      rw [told] at started
      cases started
  | ok builder =>
      rw [told] at started
      cases started
      refine ⟨orderly.consistent, fun other member => ?_⟩
      rcases Array.mem_push.mp member with old | rfl
      · exact orderly.serves other old
      · obtain ⟨declaration, found, _, _, rfl⟩ := Module.build_eq_ok told
        exact .start found

theorem command {number : Nat} (orderly : workspace.Orderly) {command : Command}
    (unused : ∀ maker ∈ workspace.makers, maker.2 ≠ number)
    (performed : workspace.perform number (command.within workspace.module).build =
      some ((), later)) : later.Orderly := by
  obtain ⟨builder, found, equal⟩ := Option.map_eq_some_iff.mp performed
  have same : workspace.setBuilder number
      ((command.within workspace.module).build.run builder).2 = later := congrArg Prod.snd equal
  rw [setBuilder, if_neg (lookup_ne unused _)] at same
  subst same
  refine ⟨orderly.consistent, fun other member => ?_⟩
  rcases Array.mem_or_eq_of_mem_setIfInBounds member with old | rfl
  · exact orderly.serves other old
  · exact (orderly.serves builder (Array.mem_of_getElem? found)).perform command

theorem define {number : Option Nat} (orderly : workspace.Orderly)
    (defined : workspace.define id number = .ok later) : later.Orderly := by
  rw [Workspace.define] at defined
  cases made : number.bind workspace.builder? with
  | none =>
      rw [made] at defined
      cases defined
  | some builder =>
      rw [made] at defined
      cases told : workspace.module.define id (some builder) with
      | error error =>
          rw [told] at defined
          cases defined
      | ok module =>
          rw [told] at defined
          cases defined
          obtain ⟨rfl, _, accepted, rfl⟩ := Module.define_eq_ok told
          obtain ⟨index, _, found⟩ := Option.bind_eq_some_iff.mp made
          have serves := orderly.serves builder (Array.mem_of_getElem? found)
          obtain ⟨supports, known⟩ := serves.supports accepted
          exact ⟨orderly.consistent.attach supports known,
            fun other member => (orderly.serves other member).mono (Module.extends_attach _)⟩

theorem empty (name : String) : (Workspace.empty name).Orderly := by
  refine ⟨fun id declaration function found => ?_, fun builder member => ?_⟩
  · simp [Workspace.empty, Module.empty, Module.declaration?] at found
  · simp [Workspace.empty] at member

theorem handle (orderly : workspace.Orderly) {request : Request}
    (allowed : workspace.Allows request) : (workspace.handle request).Orderly := by
  cases request with
  | declare name prototype linkage =>
      simp only [Workspace.handle]
      split
      · rename_i declared
        exact orderly.declare declared
      · exact orderly
  | build id =>
      simp only [Workspace.handle]
      split
      · rename_i started
        exact orderly.build started
      · exact orderly
  | command number asked =>
      simp only [Workspace.handle]
      split
      · rename_i performed
        exact orderly.command allowed performed
      · exact orderly
  | define id number =>
      simp only [Workspace.handle]
      split
      · rename_i defined
        exact orderly.define defined
      · exact orderly

theorem handleAll (orderly : workspace.Orderly) {requests : List Request}
    (allowed : workspace.AllowsAll requests) : (workspace.handleAll requests).Orderly := by
  induction requests generalizing workspace with
  | nil => exact orderly
  | cons request rest induction => exact induction (orderly.handle allowed.1) allowed.2

end Orderly

end Workspace

end ExprLang.Ssa
