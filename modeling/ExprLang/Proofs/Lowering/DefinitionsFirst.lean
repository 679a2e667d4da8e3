import ExprLang.Lowering.Compiler
import ExprLang.Proofs.Lowering.Bodies
import ExprLang.Proofs.Lowering.Dominance
import ExprLang.Proofs.Ssa.Modules
import ExprLang.Typed.Checker

/-!
# Definitions come before uses

In every compiled function each value has one definition, which has been passed whenever the
value is used, and control can come to every block.
-/

/-!
## Compiled functions

What a compiler has got when it has taken a definition, and what holds of all functions that it
has compiled.
-/

namespace ExprLang

open Ssa

def TypedDefinition.Coherent (definition : TypedDefinition) : Prop :=
  definition.signature.parameters.length = definition.parameters.length

theorem Definition.coherent_of_check {α : Type} [Placed α] {known : SignatureTable}
    {definition : Definition α} {typed : TypedDefinition}
    (checked : definition.check known = .ok typed) : typed.Coherent := by
  rw [check] at checked
  split at checked
  · cases checked
  · simp only at checked
    split at checked
    · cases checked
    · cases checked
      simp [TypedDefinition.Coherent]

/-! ## One more definition -/

namespace Compiler

variable {compiler later : Compiler} {definition : TypedDefinition}

structure Takes (compiler : Compiler) (definition : TypedDefinition) (id : FunctionId)
    (declaration : Declaration) (module : Module) (state : Lowering.State)
    (later : Compiler) : Prop where
  supported : unsupported? definition = none
  declared : compiler.module.declare definition.name (prototype definition.signature)
    (compiler.linkage definition.name) = .ok (id, module)
  found : module.declaration? id = some declaration
  unlinked : declaration.linkage ≠ .imported
  undefined : declaration.body = none
  lowered : (Lowering.body ⟨definition.name, module, compiler.callable⟩ definition).run
    ⟨Builder.start id declaration, [], 0, []⟩ = .ok ((), state)
  accepted : state.builder.finalize = .ok ()
  result : later = { compiler with
    module := module.attach id state.builder.function
    callable := (definition.name, id) :: compiler.callable }

theorem takes_of_add (added : compiler.add definition = .ok later) :
    ∃ id declaration module state, compiler.Takes definition id declaration module state later := by
  rw [add] at added
  simp only at added
  split at added
  · cases added
  · rename_i supported
    split at added
    · cases added
    · rename_i id module declared
      split at added
      · cases added
      · rename_i builder built
        obtain ⟨declaration, found, unlinked, undefined, rfl⟩ := Module.build_eq_ok built
        split at added
        · cases added
        · rename_i state lowered
          split at added
          · cases added
          · rename_i final defined
            cases added
            obtain ⟨_, _, accepted, rfl⟩ := Module.define_eq_ok defined
            exact ⟨id, declaration, module, state, supported, declared, found, unlinked, undefined,
              lowered, accepted, rfl⟩

theorem prototype_of_declare {module later : Module} {name : String} {wanted : Prototype}
    {linkage : Linkage} {id : FunctionId} {declaration : Declaration}
    (declared : module.declare name wanted linkage = .ok (id, later))
    (found : later.declaration? id = some declaration) : declaration.prototype = wanted := by
  rcases Module.declare_eq_ok declared with ⟨_, rfl, rfl⟩ | ⟨_, rfl, same⟩
  · rw [Module.declaration?_push, if_pos rfl] at found
    cases found
    rfl
  · exact (same declaration found).1

theorem Takes.prototype_eq {id : FunctionId} {declaration : Declaration} {module : Module}
    {state : Lowering.State}
    (takes : compiler.Takes definition id declaration module state later) :
    declaration.prototype = prototype definition.signature :=
  prototype_of_declare takes.declared takes.found

/-- A definition that was taken was lowered from its start to its end. -/
theorem Takes.compiles {id : FunctionId} {declaration : Declaration} {module : Module}
    {state : Lowering.State}
    (takes : compiler.Takes definition id declaration module state later)
    (uniform : compiler.module.Uniform) (coherent : definition.Coherent) :
    ∃ bound lowered result last, state = Lowering.Stage.state last ∧
      Lowering.Compiles ⟨definition.name, module, compiler.callable⟩ definition id declaration
        bound lowered result last := by
  have words : declaration.prototype.parameters =
      definition.parameters.map fun _ => MachineType.i64 := by
    rw [takes.prototype_eq, prototype]
    simp only [List.map_const']
    rw [coherent]
  have meets := @Lowering.Meets.body ⟨definition.name, module, compiler.callable⟩
    (uniform.declare rfl takes.declared) definition id declaration words
  obtain ⟨clean, _⟩ := Builder.finalize_eq_ok.mp takes.accepted
  obtain ⟨last, same, bound, lowered, result, _, compiles⟩ := meets.2 _ _ takes.lowered clean
  exact ⟨bound, lowered, result, last, same, compiles⟩

/-! ## Several definitions -/

theorem addAll_keeps {motive : Compiler → Prop} {definitions : List TypedDefinition}
    (step : ∀ compiler later, ∀ definition ∈ definitions, motive compiler →
      compiler.add definition = .ok later → motive later)
    (holds : motive compiler) (added : compiler.addAll definitions = .ok later) :
    motive later := by
  induction definitions generalizing compiler with
  | nil =>
      cases added
      exact holds
  | cons definition rest induction =>
      rw [addAll] at added
      split at added
      · cases added
      · rename_i middle first
        refine induction (fun before behind other member => ?_)
          (step compiler middle definition List.mem_cons_self holds first) added
        exact step before behind other (List.mem_cons_of_mem _ member)

/-- What every declaration of a built-in function keeps holds when all of them are declared. -/
theorem declareBuiltins_keeps {motive : Compiler → Prop} {registry : Registry}
    (step : ∀ (compiler : Compiler) (builtin : Builtin) (id : FunctionId) (module : Module),
      motive compiler →
      compiler.module.declare builtin.name (prototype builtin.signature) .imported =
        .ok (id, module) →
      motive { compiler with module, callable := (builtin.name, id) :: compiler.callable })
    (holds : motive compiler) (declared : compiler.declareBuiltins registry = .ok later) :
    motive later := by
  induction registry generalizing compiler with
  | nil =>
      cases declared
      exact holds
  | cons builtin rest induction =>
      rw [declareBuiltins] at declared
      split at declared
      · cases declared
      · rename_i id module first
        exact induction (step compiler builtin id module holds first) declared

end Compiler

end ExprLang

namespace ExprLang

open Ssa

namespace Lowering

variable {setting : Setting} {definition : TypedDefinition} {id : FunctionId}
  {declaration : Declaration} {bound lowered last : Stage} {result : Value} {final : Recording}

theorem Stage.layout_opened (id : FunctionId) (declaration : Declaration) :
    (Stage.opened id declaration).recording.builder.function.layout = [firstBlock] := by
  have laid := ((reaches_opened id declaration).sound (Sound.start id declaration)).laid
  have placed : ∀ label, label ∈ (Stage.opened id declaration).recording.builder.function.layout ↔
      label = firstBlock := by
    intro label
    rw [laid.placed]
    change (Stage.opened id declaration).shape.isPlaced label = true ↔ _
    rw [shape_opened]
    simp [Function.update_apply]
  have nodup := laid.nodup
  rcases split : (Stage.opened id declaration).recording.builder.function.layout with
    _ | ⟨first, _ | ⟨second, rest⟩⟩
  · have member := (placed firstBlock).mpr rfl
    rw [split] at member
    cases member
  · have same := (placed first).mp (by rw [split]; exact List.mem_cons_self)
    rw [same]
  · have left := (placed first).mp (by rw [split]; exact List.mem_cons_self)
    have right := (placed second).mp (by rw [split]; simp)
    rw [split, left, right] at nodup
    simp at nodup

theorem Anchors.inputs (final : Recording) (id : FunctionId) (declaration : Declaration) :
    Anchors final (Stage.opened id declaration) (Stage.opened id declaration)
      (Stage.inputs declaration) where
  reaches := ⟨_, .nil⟩
  anchors ends sound active anchored := by
    refine ⟨_, .refl active, anchored, ?_⟩
    intro value member label current
    rw [Stage.shape_opened] at current
    cases current
    refine .inl (.inl (ends.explicit ?_))
    rw [Stage.shape_opened]
    simpa using member

theorem Anchors.bindAll {first middle last : Stage} {names : List String}
    {values held : List Value} (before : Anchors final first middle held)
    (binds : BindsAll names values middle last) (known : values ⊆ held) :
    Anchors final first last held := by
  induction binds with
  | nil => exact before
  | cons binds _ induction =>
      exact induction (before.bind binds (known List.mem_cons_self)) fun value member =>
        known (List.mem_cons_of_mem _ member)

namespace Compiles

theorem moves (compiles : Compiles setting definition id declaration bound lowered result last) :
    Moves (some firstBlock) (Recording.start id declaration) last.recording := by
  obtain ⟨binds, lowers, returns⟩ := compiles
  exact ((Stage.reaches_opened id declaration).trans (binds.reaches.trans
    (lowers.reaches.trans returns.reaches))).moves

theorem sound (compiles : Compiles setting definition id declaration bound lowered result last) :
    Sound last.recording :=
  (Sound.start id declaration).moves compiles.moves

theorem entry (compiles : Compiles setting definition id declaration bound lowered result last) :
    last.recording.builder.function.entry? = some firstBlock := by
  obtain ⟨binds, lowers, returns⟩ := compiles
  have grows := Moves.grows (binds.reaches.trans (lowers.reaches.trans returns.reaches)).moves
  obtain ⟨rest, equal⟩ := grows.layout
  rw [Stage.layout_opened] at equal
  change last.recording.builder.function.layout.head? = some firstBlock
  rw [← equal]
  rfl

theorem shape (compiles : Compiles setting definition id declaration bound lowered result last) :
    ∃ target, lowered.shape.Active target ∧
      last.shape = lowered.shape.emit target ⟨[], .ret [result], []⟩ := by
  obtain ⟨binds, lowers, returns⟩ := compiles
  obtain ⟨target, flows⟩ := body_flows binds lowers
  exact ⟨target, flows.active, returns.emit_shape flows.active.current⟩

theorem handsGrounded
    (compiles : Compiles setting definition id declaration bound lowered result last) :
    last.recording.HandsGrounded := by
  have ends : Ends last last.recording := ⟨.refl, compiles.sound, compiles.entry⟩
  obtain ⟨target, active, shape⟩ := compiles.shape
  obtain ⟨binds, lowers, returns⟩ := compiles
  have sound := (Stage.reaches_opened id declaration).sound (Sound.start id declaration)
  obtain ⟨source, filled⟩ := (Stage.ready_opened id declaration setting).active
  have nothing : Anchored last.recording (Stage.opened id declaration).shape := by
    intro label before event behind split
    rw [Stage.shape_opened] at split
    simp at split
  have whole := ((Anchors.inputs last.recording id declaration).bindAll binds
    (List.Subset.refl _)).append (lowers.anchors last.recording)
  have soundLowered := whole.reaches.sound sound
  obtain ⟨other, flows, anchored, held⟩ :=
    whole.anchors (ends.earlier returns.reaches soundLowered) sound filled nothing
  cases flows.active.current.symm.trans active.current
  have handed : Anchored last.recording last.shape := by
    rw [shape]
    refine anchored.emit ?_
    have holds := held result (List.mem_append_right _ List.mem_cons_self) target active.current
    simpa [Event.handed, Operation.operands, Operation.destinations] using holds
  exact handed

theorem reachable
    (compiles : Compiles setting definition id declaration bound lowered result last)
    {label : Label} (inside : label.index < last.shape.blocks) :
    last.recording.builder.function.Reachable label := by
  have sound := compiles.sound
  have entry := compiles.entry
  obtain ⟨target, active, shape⟩ := compiles.shape
  obtain ⟨binds, lowers, returns⟩ := compiles
  rw [shape] at inside
  have leads := (body_blocks binds lowers inside).2.2
  clear inside
  induction leads with
  | refl => exact ⟨[], .entry _ entry⟩
  | @tail middle final _ link induction =>
      obtain ⟨earlier, trail⟩ := induction
      obtain ⟨edge, member, rfl⟩ := link
      have there : edge ∈ (last.recording.builder.state final).predecessors := by
        change edge ∈ last.shape.predecessors final
        rw [shape]
        simpa [Shape.emit, Operation.destinations, Builder.edgesTo] using member
      exact ⟨_, .next _ _ _ trail (sound.scripted.mem_successors.mpr ⟨edge, there, rfl⟩)⟩

theorem settled (compiles : Compiles setting definition id declaration bound lowered result last) :
    last.recording.Settled := by
  obtain ⟨binds, lowers, returns⟩ := compiles
  obtain ⟨deeds, performs⟩ := (Stage.reaches_opened id declaration).trans (binds.reaches.trans
    (lowers.reaches.trans returns.reaches))
  exact (Recording.Settled.start id declaration).performsAll (Sound.start id declaration) performs

theorem finished
    (compiles : Compiles setting definition id declaration bound lowered result last)
    (accepted : last.recording.builder.finalize = .ok ()) :
    Finished firstBlock last.recording := by
  obtain ⟨_, closed, filled, other, verified⟩ := Builder.finalize_eq_ok.mp accepted
  have same := verified.first.symm.trans compiles.entry
  cases same
  exact ⟨compiles.sound, (Recording.Reliable.start id declaration).moves
    (Sound.start id declaration) compiles.moves, compiles.settled, verified, closed, filled⟩

end Compiles

end Lowering

/-- In a function every value has one definition, blocks are placed once and can be reached, and
on every way to a use of a value its definition is passed. -/
structure Ssa.Function.Dominated (function : Ssa.Function) : Prop where
  single : function.SingleAssignment
  nodup : function.layout.Nodup
  reachable : ∀ label ∈ function.layout, function.Reachable label
  available : ∀ label index instruction,
    (function.block label).instructions[index]? = some instruction →
      ∀ value ∈ instruction.uses, function.Available label index value

theorem Lowering.Compiles.dominated {setting : Lowering.Setting} {definition : TypedDefinition}
    {id : FunctionId} {declaration : Declaration} {bound lowered last : Lowering.Stage}
    {result : Value}
    (compiles : Compiles setting definition id declaration bound lowered result last)
    (accepted : last.recording.builder.finalize = .ok ()) :
    last.recording.builder.function.Dominated where
  single := compiles.sound.single
  nodup := compiles.sound.laid.nodup
  reachable label member := by
    refine compiles.reachable ?_
    have placed := (compiles.sound.laid.placed label).mp member
    by_contra outside
    have unplaced := (Recording.bare compiles.sound).isPlaced label (Nat.not_lt.mp outside)
    exact Bool.false_ne_true (unplaced.symm.trans placed)
  available label index instruction found value member := by
    have finished := compiles.finished accepted
    exact finished.available_uses (finished.handsAvailable compiles.handsGrounded) found member

/-- A compiler with functions that give words, in all of which definitions come first. -/
structure Compiler.Orderly (compiler : Compiler) : Prop where
  uniform : compiler.module.Uniform
  dominated : ∀ id body, compiler.module.body? id = some body → body.Dominated

namespace Compiler.Orderly

variable {compiler later : Compiler}

theorem start {name entry : String} {registry : Registry}
    (started : Compiler.start name registry entry = .ok compiler) : compiler.Orderly := by
  refine declareBuiltins_keeps (fun before builtin id module orderly declared => ?_) ?_ started
  · refine ⟨orderly.uniform.declare rfl declared, fun other body found => ?_⟩
    exact orderly.dominated other body (Module.body?_declare declared found)
  · refine ⟨fun id declaration found => ?_, fun id body found => ?_⟩
    · simp [Module.declaration?, Module.empty] at found
    · simp [Module.body?, Module.declaration?, Module.empty] at found

theorem add {definition : TypedDefinition} (orderly : compiler.Orderly)
    (coherent : definition.Coherent) (added : compiler.add definition = .ok later) :
    later.Orderly := by
  obtain ⟨id, declaration, module, state, takes⟩ := takes_of_add added
  obtain ⟨bound, lowered, result, last, same, compiles⟩ := takes.compiles orderly.uniform coherent
  have accepted := takes.accepted
  rw [same] at accepted
  have dominated := compiles.dominated accepted
  rw [takes.result]
  refine ⟨(orderly.uniform.declare rfl takes.declared).attach _, fun other body found => ?_⟩
  rcases Module.body?_attach found with rfl | old
  · rw [same]
    exact dominated
  · exact orderly.dominated other body (Module.body?_declare takes.declared old)

end Compiler.Orderly

/-- Take a compiler, with any built-in functions, that has taken any checked definitions. Then in
every function that has a body every value is defined exactly once, as a parameter of one block
or a result of one instruction; the layout has no block twice, and control can come to each of
its blocks; and on every way from the entry to an instruction, every value that it uses as an
operand or passes along a branch has been defined before. -/
theorem definitions_precede_uses (name entry : String) (registry : Registry)
    (definitions : List TypedDefinition) (first compiler : Compiler)
    (checked : ∀ definition ∈ definitions, ∃ (known : SignatureTable)
      (source : Definition Position), source.check known = .ok definition)
    (started : Compiler.start name registry entry = .ok first)
    (added : first.addAll definitions = .ok compiler)
    (id : FunctionId) (body : Ssa.Function) (found : compiler.module.body? id = some body) :
    body.SingleAssignment ∧ body.layout.Nodup ∧
      (∀ label ∈ body.layout, body.Reachable label) ∧
      ∀ label index instruction, (body.block label).instructions[index]? = some instruction →
        ∀ value ∈ instruction.uses, body.Available label index value := by
  have orderly : compiler.Orderly := by
    refine Compiler.addAll_keeps (fun before later definition member orderly added => ?_)
      (Compiler.Orderly.start started) added
    obtain ⟨known, source, typed⟩ := checked definition member
    exact orderly.add (Definition.coherent_of_check typed) added
  obtain ⟨single, nodup, reachable, available⟩ := orderly.dominated id body found
  exact ⟨single, nodup, reachable, available⟩

theorem eq_ok_of_toOption {result : Except ε α} {value : α}
    (found : result.toOption = some value) : result = .ok value := by
  cases result with
  | error error => cases found
  | ok other =>
      cases found
      rfl

def boundedSum : Definition Position :=
  let here := Position.unknown
  { name := "sum"
    parameters := [⟨"limit", .int, here⟩]
    body := .sequence here (.bind here "total" (.integer here 0))
      (.sequence here
        (.each here "round" (.ident here "limit") (.bind here "total"
          (.binary here (.arithmetic .add) (.ident here "total") (.ident here "round"))))
        (.conditional here
          (.binary here (.comparison .less) (.ident here "limit") (.integer here 9))
          (.ident here "total") (.integer here 0)))
    position := here }

theorem definitions_precede_uses_boundedSum : ∃ typed first compiler body,
    boundedSum.check .standard = .ok typed ∧
      Compiler.start "sums" Registry.standard "sum" = .ok first ∧
      first.addAll [typed] = .ok compiler ∧ compiler.module.body? ⟨5⟩ = some body ∧
      body.SingleAssignment ∧ body.layout.Nodup ∧
      (∀ label ∈ body.layout, body.Reachable label) ∧
      ∀ label index instruction, (body.block label).instructions[index]? = some instruction →
        ∀ value ∈ instruction.uses, body.Available label index value := by
  have compiled : ((boundedSum.check .standard).toOption.bind fun typed =>
      (Compiler.start "sums" Registry.standard "sum").toOption.bind fun first =>
        (first.addAll [typed]).toOption.bind fun compiler =>
          compiler.module.body? ⟨5⟩).isSome = true := by
    decide +kernel
  obtain ⟨body, compiled⟩ := Option.isSome_iff_exists.mp compiled
  obtain ⟨typed, checked, compiled⟩ := Option.bind_eq_some_iff.mp compiled
  obtain ⟨first, started, compiled⟩ := Option.bind_eq_some_iff.mp compiled
  obtain ⟨compiler, added, found⟩ := Option.bind_eq_some_iff.mp compiled
  have checked := eq_ok_of_toOption checked
  have started := eq_ok_of_toOption started
  have added := eq_ok_of_toOption added
  refine ⟨typed, first, compiler, body, checked, started, added, found, ?_⟩
  refine definitions_precede_uses "sums" "sum" Registry.standard [typed] first compiler ?_ started
    added ⟨5⟩ body found
  simp only [List.mem_singleton, forall_eq]
  exact ⟨_, boundedSum, checked⟩

end ExprLang
