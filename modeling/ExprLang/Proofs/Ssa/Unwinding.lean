import ExprLang.Proofs.Ssa.Fuel
import ExprLang.Proofs.Ssa.Workspaces

/-!
# Builders that can be asked anything

Whatever a builder has been asked for so far, rightly or wrongly, its tables fit together. So all
that has to be known for its lookups to end is that ways back through sealed blocks with one
predecessor do not return. For sealing all blocks, one after the other, this has to be known each
time that one of them is sealed.
-/

namespace ExprLang.Ssa

/-! ## What a builder can be asked for -/

namespace Builder

/-- One builder becomes another one because of a single request. -/
def Answers (builder later : Builder) : Prop :=
  ∃ command : Command, (command.build.run builder).2 = later

/-- One builder becomes another one in the course of some requests. -/
abbrev Becomes : Builder → Builder → Prop :=
  Relation.ReflTransGen Answers

def sealBelow (builder : Builder) (bound : Nat) : Builder :=
  { builder with
    states := builder.states.mapIdx fun index state =>
      { state with isSealed := state.isSealed || decide (index < bound) } }

/-! ## What holds whatever it was asked for -/

/-- The tables of a builder fit together. A variable is pending in a block at most once, and then
it is declared and has a value there. -/
structure Orderly (builder : Builder) : Prop where
  balanced : builder.states.size = builder.function.blocks.size
  current : ∀ label, builder.current = some label → label.index < builder.states.size
  inside : ∀ label, ∀ edge ∈ (builder.state label).predecessors,
    edge.source.index < builder.states.size
  distinct : ∀ label, ((builder.state label).pending.map Prod.fst).Nodup
  awaited : ∀ label, ∀ item ∈ (builder.state label).pending,
    builder.known label item.1 ≠ none ∧ item.1 ∈ builder.declared.map Prod.fst

namespace Orderly

variable {builder later : Builder} {label : Label} {var : Variable}

theorem start (id : FunctionId) (declaration : Declaration) :
    (Builder.start id declaration).Orderly := by
  constructor <;> simp [Builder.start, Function.start, Builder.state, BlockState.fresh]

theorem length_pending (orderly : builder.Orderly) (label : Label) :
    (builder.state label).pending.length ≤ builder.declared.length := by
  have among : (builder.state label).pending.map Prod.fst ⊆ builder.declared.map Prod.fst := by
    intro var member
    obtain ⟨item, pending, rfl⟩ := List.mem_map.mp member
    exact (orderly.awaited label item pending).2
  have shorter := (List.subperm_of_subset (orderly.distinct label) among).length_le
  simpa using shorter

theorem traceable (orderly : builder.Orderly) (unwinds : builder.Unwinds) : builder.Traceable :=
  ⟨orderly.balanced, orderly.inside, unwinds⟩

theorem of_same (orderly : builder.Orderly) (same : SameWays builder later)
    (known : ∀ label asked, builder.known label asked ≠ none → later.known label asked ≠ none)
    (pending : ∀ label, (later.state label).pending = (builder.state label).pending) :
    later.Orderly where
  balanced := by rw [same.size, same.blocks, orderly.balanced]
  current label current := by
    rw [same.current] at current
    rw [same.size]
    exact orderly.current label current
  inside label edge member := by
    rw [same.predecessors] at member
    rw [same.size]
    exact orderly.inside label edge member
  distinct label := by
    rw [pending]
    exact orderly.distinct label
  awaited label item member := by
    rw [pending] at member
    rw [same.declared]
    obtain ⟨held, declared⟩ := orderly.awaited label item member
    exact ⟨known label item.1 held, declared⟩

theorem follows (orderly : builder.Orderly) (follows : Follows var builder later)
    (declared : var ∈ builder.declared.map Prod.fst) : later.Orderly where
  balanced := by rw [follows.size, follows.blocks, orderly.balanced]
  current label current := by
    rw [follows.current] at current
    rw [follows.size]
    exact orderly.current label current
  inside label edge member := by
    rw [follows.predecessors] at member
    rw [follows.size]
    exact orderly.inside label edge member
  distinct label := by
    rcases follows.pending label with same | ⟨unknown, -, value, added⟩
    · rw [same]
      exact orderly.distinct label
    · rw [added, List.map_append, List.map_cons, List.map_nil]
      refine List.nodup_append.mpr ⟨orderly.distinct label, List.nodup_singleton _, ?_⟩
      rintro other member _ (_ | ⟨_, none⟩) rfl
      · obtain ⟨item, pending, rfl⟩ := List.mem_map.mp member
        exact (orderly.awaited label item pending).1 unknown
      · cases none
  awaited label item member := by
    rw [follows.declared]
    rcases follows.pending label with same | ⟨-, known, value, added⟩
    · rw [same] at member
      obtain ⟨held, declared⟩ := orderly.awaited label item member
      exact ⟨follows.known label item.1 held, declared⟩
    · rw [added, List.mem_append, List.mem_singleton] at member
      rcases member with old | rfl
      · obtain ⟨held, declared⟩ := orderly.awaited label item old
        exact ⟨follows.known label item.1 held, declared⟩
      · exact ⟨known, declared⟩

theorem misuse (orderly : builder.Orderly) (misuse : Option Misuse) :
    ({ builder with misuse } : Builder).Orderly :=
  ⟨orderly.balanced, orderly.current, orderly.inside, orderly.distinct, orderly.awaited⟩

theorem blame (orderly : builder.Orderly) (misuse : Misuse) : (builder.blame misuse).Orderly :=
  orderly.misuse _

theorem withBlock (orderly : builder.Orderly) : builder.withBlock.Orderly where
  balanced := by simp [Builder.withBlock, orderly.balanced]
  current label current := by
    have inside := orderly.current label current
    simp only [Builder.withBlock, Array.size_push]
    omega
  inside label edge member := by
    rw [state_withBlock] at member
    have inside := orderly.inside label edge member
    simp only [Builder.withBlock, Array.size_push]
    omega
  distinct label := by
    rw [state_withBlock]
    exact orderly.distinct label
  awaited label item member := by
    rw [state_withBlock] at member
    rw [known_withBlock]
    exact orderly.awaited label item member

theorem withCurrent (orderly : builder.Orderly) (inside : label.index < builder.states.size) :
    (builder.withCurrent label).Orderly := by
  have size : (builder.withCurrent label).states.size = builder.states.size := by
    simp only [Builder.withCurrent]
    split <;> simp
  have blocks : (builder.withCurrent label).function.blocks = builder.function.blocks := by
    simp only [Builder.withCurrent]
    split <;> rfl
  have declared : (builder.withCurrent label).declared = builder.declared := by
    simp only [Builder.withCurrent]
    split <;> rfl
  refine ⟨by rw [size, blocks, orderly.balanced], ?_, ?_, ?_, ?_⟩
  · rintro other ⟨rfl⟩
    rw [size]
    exact inside
  · intro other edge member
    rw [predecessors_withCurrent] at member
    rw [size]
    exact orderly.inside other edge member
  · intro other
    rw [pending_withCurrent]
    exact orderly.distinct other
  · intro other item member
    rw [pending_withCurrent] at member
    rw [known_withCurrent, declared]
    exact orderly.awaited other item member

theorem withSeal (orderly : builder.Orderly) (inside : label.index < builder.states.size) :
    (builder.withSeal label).Orderly where
  balanced := by simp [Builder.withSeal, orderly.balanced]
  current other current := by
    simpa [Builder.withSeal] using orderly.current other current
  inside other edge member := by
    rw [predecessors_withSeal] at member
    simpa [Builder.withSeal] using orderly.inside other edge member
  distinct other := by
    rw [state_withSeal _ _ _ inside]
    split
    · exact List.nodup_nil
    · exact orderly.distinct other
  awaited other item member := by
    rw [state_withSeal _ _ _ inside] at member
    split at member
    · cases member
    · rw [known_withSeal]
      exact orderly.awaited other item member

theorem withParameter (orderly : builder.Orderly) (label : Label) (type : MachineType) :
    (builder.withParameter label type).Orderly :=
  orderly.of_same (.withParameter builder label type) (by simp) (by simp)

theorem withInstruction {operation : Operation} (orderly : builder.Orderly)
    (types : List MachineType) (place : label.index < builder.states.size)
    (targets : ∀ destination ∈ operation.destinations,
      destination.block.index < builder.states.size) :
    (builder.withInstruction label operation types).Orderly := by
  have size : (builder.withInstruction label operation types).states.size =
      builder.states.size := by
    rw [Builder.withInstruction, states_size_withEdges]
    rfl
  refine ⟨?_, ?_, ?_, ?_, ?_⟩
  · rw [size]
    simp [Builder.withInstruction, withValues, orderly.balanced]
  · intro other now
    rw [size]
    refine orderly.current other ?_
    simpa [Builder.withInstruction, withValues, modifyBlock] using now
  · intro other edge member
    rw [size]
    rw [state_withInstruction _ _ _ _ _ targets, List.mem_append] at member
    rcases member with old | new
    · exact orderly.inside other edge old
    · rw [(mem_edgesTo.mp new).1]
      exact place
  · intro other
    rw [pending_withInstruction]
    exact orderly.distinct other
  · intro other item member
    rw [pending_withInstruction] at member
    rw [known_withInstruction]
    simpa [Builder.withInstruction, withValues, modifyBlock] using
      orderly.awaited other item member

end Orderly

/-! ## Sealed blocks stay as they are -/

def Persists (builder later : Builder) : Prop :=
  ∀ label, (builder.state label).isSealed = true → (later.state label).isSealed = true ∧
    (later.state label).predecessors = (builder.state label).predecessors

namespace Persists

variable {builder middle later : Builder}

theorem trans (first : builder.Persists middle) (second : middle.Persists later) :
    builder.Persists later := by
  intro label closed
  obtain ⟨still, same⟩ := first label closed
  obtain ⟨last, again⟩ := second label still
  exact ⟨last, again.trans same⟩

theorem of_same (same : SameWays builder later) : builder.Persists later := by
  intro label closed
  rw [same.isSealed, same.predecessors]
  exact ⟨closed, rfl⟩

theorem withSeal (builder : Builder) (label : Label) :
    builder.Persists (builder.withSeal label) := by
  intro other closed
  rw [predecessors_withSeal, Builder.withSeal, state_modifyState]
  split
  · exact ⟨rfl, rfl⟩
  · exact ⟨closed, rfl⟩

theorem unwinds (persists : builder.Persists later) (unwinds : later.Unwinds) :
    builder.Unwinds := by
  intro label way
  refine unwinds label (Relation.TransGen.mono (fun one other only => ?_) _ _ way)
  obtain ⟨closed, edge, edges, comes⟩ := only
  obtain ⟨still, same⟩ := persists one closed
  exact ⟨still, edge, same.trans edges, comes⟩

end Persists

/-- A builder advances to one whose tables fit together, and in which the blocks that were sealed
are as they were. -/
structure Advances (builder later : Builder) : Prop where
  orderly : later.Orderly
  persists : builder.Persists later

namespace Advances

variable {builder middle later : Builder} {label : Label}

theorem trans (first : builder.Advances middle) (second : middle.Advances later) :
    builder.Advances later :=
  ⟨second.orderly, first.persists.trans second.persists⟩

theorem misuse (orderly : builder.Orderly) (misuse : Option Misuse) :
    builder.Advances { builder with misuse } :=
  ⟨orderly.misuse misuse, fun _ closed => ⟨closed, rfl⟩⟩

theorem refl (orderly : builder.Orderly) : builder.Advances builder :=
  misuse orderly builder.misuse

theorem blame (orderly : builder.Orderly) (wrong : Misuse) :
    builder.Advances (builder.blame wrong) :=
  misuse orderly _

theorem follows {var : Variable} (orderly : builder.Orderly)
    (follows : Follows var builder later) (declared : var ∈ builder.declared.map Prod.fst) :
    builder.Advances later :=
  ⟨orderly.follows follows declared, .of_same follows.toSameWays⟩

theorem withBlock (orderly : builder.Orderly) : builder.Advances builder.withBlock := by
  refine ⟨orderly.withBlock, fun label closed => ?_⟩
  rw [state_withBlock]
  exact ⟨closed, rfl⟩

theorem withCurrent (orderly : builder.Orderly) (inside : label.index < builder.states.size) :
    builder.Advances (builder.withCurrent label) := by
  refine ⟨orderly.withCurrent inside, fun other closed => ?_⟩
  rw [isSealed_withCurrent, predecessors_withCurrent]
  exact ⟨closed, rfl⟩

theorem withParameter (orderly : builder.Orderly) (label : Label) (type : MachineType) :
    builder.Advances (builder.withParameter label type) :=
  ⟨orderly.withParameter label type, .of_same (.withParameter builder label type)⟩

/-- Whatever appending an instruction comes to, the tables fit together; and its branches do not
lead to sealed blocks. -/
theorem appends {operation : Operation} (orderly : builder.Orderly)
    (appends : builder.Appends operation later) : builder.Advances later := by
  cases appends with
  | refused => exact misuse orderly _
  | @appended wrong types source able current unfinished =>
      have targets : ∀ destination ∈ operation.destinations,
          destination.block.index < builder.states.size := by
        intro destination member
        rw [orderly.balanced]
        simpa [hasBlock] using (able.destinations destination member).1
      refine ⟨(orderly.misuse wrong).withInstruction types (orderly.current source current) targets,
        fun label closed => ?_⟩
      have elsewhere : edgesTo source label 0 operation.destinations = [] := by
        refine List.eq_nil_iff_forall_not_mem.mpr fun edge member => ?_
        obtain ⟨-, -, destination, found, rfl⟩ := mem_edgesTo.mp member
        have unsealed := (able.destinations destination (List.mem_of_getElem? found)).2
        exact Bool.false_ne_true (unsealed.symm.trans closed)
      have same := state_withInstruction { builder with misuse := wrong } source label operation
        types targets
      rw [elsewhere, List.append_nil] at same
      rw [same]
      exact ⟨closed, rfl⟩

end Advances

end Builder

namespace Build

open Builder (Advances SameWays)

variable {builder : Builder}

theorem sealBlock_unknown {label : Label} (outside : builder.hasBlock label = false) :
    (sealBlock label).run builder = ((), builder.blame (.sealUnknown label)) := by
  simp only [sealBlock, StateT.run_bind, StateT.run_get, pure_bind, outside]
  rfl

theorem sealBlock_twice {label : Label} (inside : builder.hasBlock label = true)
    (closed : (builder.state label).isSealed = true) :
    (sealBlock label).run builder = ((), builder.blame (.sealedTwice label)) := by
  simp only [sealBlock, StateT.run_bind, StateT.run_get, pure_bind, inside, closed]
  rfl

theorem switchTo_unknown {label : Label} (outside : builder.hasBlock label = false) :
    (switchTo label).run builder = ((), builder.blame (.switchToUnknown label)) := by
  simp only [switchTo, StateT.run_bind, StateT.run_get, pure_bind, outside]
  rfl

theorem switchTo_blamed {label : Label} (inside : builder.hasBlock label = true) :
    ∃ misuse : Option Misuse, ((switchTo label).run builder).2 =
      ({ builder with misuse } : Builder).withCurrent label := by
  by_cases left : builder.MayLeave
  · rw [switchTo_run inside left]
    exact ⟨builder.misuse, rfl⟩
  · simp only [Builder.MayLeave, not_forall, not_or] at left
    obtain ⟨old, now, filled, unfinished⟩ := left
    have bad : (!(builder.function.block old).instructions.isEmpty &&
        !(builder.function.block old).isTerminated) = true := by
      simp [filled, unfinished]
    have run : ((switchTo label).run builder).2 =
        (builder.blame (.leftUnterminated old label)).withCurrent label := by
      simp only [switchTo, StateT.run_bind, StateT.run_get, pure_bind, inside, if_true, now, bad]
      rfl
    exact ⟨_, run⟩

theorem passPending_same (label : Label) (count index : Nat) (builder : Builder) :
    SameWays builder ((passPending label count index).run builder).2 := by
  induction count generalizing builder index with
  | zero => exact .refl builder
  | succ count induction =>
      cases found : (builder.state label).pending[index]? with
      | none =>
          rw [passPending_none _ found]
          exact .refl builder
      | some item =>
          rw [passPending_some _ found]
          have follows := passAlong_follows builder label item.1 item.2
          exact follows.toSameWays.trans (induction (index + 1) _)

theorem passPending_orderly {label : Label} (count index : Nat) (orderly : builder.Orderly) :
    ((passPending label count index).run builder).2.Orderly := by
  induction count generalizing builder index with
  | zero => exact orderly
  | succ count induction =>
      cases found : (builder.state label).pending[index]? with
      | none =>
          rw [passPending_none _ found]
          exact orderly
      | some item =>
          rw [passPending_some _ found]
          have follows := passAlong_follows builder label item.1 item.2
          have declared := (orderly.awaited label item (List.mem_of_getElem? found)).2
          exact induction (index + 1) (orderly.follows follows declared)

theorem sealBlock_advances (label : Label) (orderly : builder.Orderly) :
    builder.Advances ((sealBlock label).run builder).2 := by
  cases inside : builder.hasBlock label with
  | false =>
      rw [sealBlock_unknown inside]
      exact .blame orderly _
  | true =>
      cases closed : (builder.state label).isSealed with
      | true =>
          rw [sealBlock_twice inside closed]
          exact .blame orderly _
      | false =>
          rw [sealBlock_run inside closed]
          have same := passPending_same label builder.declared.length 0 builder
          refine ⟨(passPending_orderly builder.declared.length 0 orderly).withSeal ?_,
            (Builder.Persists.of_same same).trans (.withSeal _ label)⟩
          rw [same.size, orderly.balanced]
          simpa [Builder.hasBlock] using inside

theorem sealOnce_advances (index : Nat) (orderly : builder.Orderly) :
    builder.Advances ((sealOnce index).run builder).2 := by
  cases closed : (builder.state ⟨index⟩).isSealed with
  | true =>
      rw [sealOnce_sealed closed]
      exact .refl orderly
  | false =>
      rw [sealOnce_unsealed closed]
      exact sealBlock_advances ⟨index⟩ orderly

theorem forM_advances {step : α → Build Unit}
    (each : ∀ item (builder : Builder), builder.Orderly →
      builder.Advances ((step item).run builder).2)
    (items : List α) (orderly : builder.Orderly) :
    builder.Advances ((items.forM step).run builder).2 := by
  induction items generalizing builder with
  | nil => exact .refl orderly
  | cons item rest induction =>
      rw [forM_cons_run]
      have first := each item builder orderly
      exact first.trans (induction first.orderly)

theorem switchTo_advances (label : Label) (orderly : builder.Orderly) :
    builder.Advances ((switchTo label).run builder).2 := by
  cases inside : builder.hasBlock label with
  | false =>
      rw [switchTo_unknown inside]
      exact .blame orderly _
  | true =>
      obtain ⟨misuse, same⟩ := switchTo_blamed inside
      rw [same]
      have place : label.index < builder.states.size := by
        rw [orderly.balanced]
        simpa [Builder.hasBlock] using inside
      have blamed := Advances.misuse orderly misuse
      exact blamed.trans (.withCurrent blamed.orderly place)

theorem appendParameter_advances (label : Label) (type : MachineType)
    (orderly : builder.Orderly) :
    builder.Advances ((appendParameter label type).run builder).2 := by
  simp only [appendParameter, StateT.run_bind, StateT.run_get, pure_bind]
  split
  · split
    · exact (Advances.blame orderly _).trans (.withParameter (orderly.blame _) label type)
    · exact .withParameter orderly label type
  · exact .blame orderly _

theorem parameters_advances (label : Label) (orderly : builder.Orderly) :
    builder.Advances ((parameters label).run builder).2 := by
  simp only [parameters, StateT.run_bind, StateT.run_get, pure_bind]
  split
  · exact .refl orderly
  · exact .blame orderly _

theorem declareVariable_advances (var : Variable) (type : MachineType)
    (orderly : builder.Orderly) :
    builder.Advances ((declareVariable var type).run builder).2 := by
  simp only [declareVariable, StateT.run_bind, StateT.run_get, pure_bind]
  split
  · exact .blame orderly _
  · refine ⟨⟨orderly.balanced, orderly.current, orderly.inside, orderly.distinct, ?_⟩,
      fun _ closed => ⟨closed, rfl⟩⟩
    intro label item member
    obtain ⟨known, declared⟩ := orderly.awaited label item member
    refine ⟨known, ?_⟩
    change item.1 ∈ (builder.declared ++ [(var, type)]).map Prod.fst
    rw [List.map_append]
    exact List.mem_append_left _ declared

theorem mem_declared {var : Variable} {type : MachineType}
    (declared : builder.declared.lookup var = some type) :
    var ∈ builder.declared.map Prod.fst := by
  by_contra absent
  rw [List.lookup_eq_none_iff.mpr] at declared
  · cases declared
  · intro item member
    refine bne_iff_ne.mpr ?_
    rintro rfl
    exact absent (List.mem_map_of_mem member)

theorem defineVariable_advances (var : Variable) (value : Value) (orderly : builder.Orderly) :
    builder.Advances ((defineVariable var value).run builder).2 := by
  simp only [defineVariable, StateT.run_bind, StateT.run_get, pure_bind]
  split
  · exact .blame orderly _
  · exact .blame orderly _
  · rename_i declared _
    split
    · exact .follows orderly (.withKnown builder var _ value) (mem_declared declared)
    · exact .blame orderly _

theorem useVariable_advances (var : Variable) (orderly : builder.Orderly) :
    builder.Advances ((useVariable var).run builder).2 := by
  simp only [useVariable, StateT.run_bind, StateT.run_get, pure_bind]
  split
  · exact .blame orderly _
  · exact .blame orderly _
  · rename_i declared _
    exact .follows orderly (lookup_follows var _ _ _ builder) (mem_declared declared)

theorem importFunction_advances (module : Module) (id : FunctionId) (orderly : builder.Orderly) :
    builder.Advances ((importFunction module id).run builder).2 := by
  simp only [importFunction, StateT.run_bind, StateT.run_get, pure_bind]
  split
  · exact .refl orderly
  · exact .blame orderly _
  · exact ⟨⟨orderly.balanced, orderly.current, orderly.inside, orderly.distinct,
      orderly.awaited⟩, fun _ closed => ⟨closed, rfl⟩⟩

theorem createSlot_advances (size : UInt32) (orderly : builder.Orderly) :
    builder.Advances ((createSlot size).run builder).2 :=
  ⟨⟨orderly.balanced, orderly.current, orderly.inside, orderly.distinct, orderly.awaited⟩,
    fun _ closed => ⟨closed, rfl⟩⟩

end Build

namespace Builder

variable {builder later : Builder}

theorem Orderly.command (orderly : builder.Orderly) (command : Command) :
    builder.Advances (command.build.run builder).2 := by
  cases command with
  | createBlock => exact .withBlock orderly
  | switchTo label => exact Build.switchTo_advances label orderly
  | sealBlock label => exact Build.sealBlock_advances label orderly
  | sealAll => exact Build.forM_advances (fun _ _ => Build.sealOnce_advances _) _ orderly
  | appendParameter label type => exact Build.appendParameter_advances label type orderly
  | appendFunctionParameters label =>
      exact Build.forM_advances (fun type _ => Build.appendParameter_advances label type) _ orderly
  | parameters label => exact Build.parameters_advances label orderly
  | declareVariable var type => exact Build.declareVariable_advances var type orderly
  | defineVariable var value => exact Build.defineVariable_advances var value orderly
  | useVariable var => exact Build.useVariable_advances var orderly
  | importFunction module id => exact Build.importFunction_advances module id orderly
  | createSlot size => exact Build.createSlot_advances size orderly
  | emit emission => exact .appends orderly (emission.appends builder)

theorem Orderly.becomes (orderly : builder.Orderly) (becomes : builder.Becomes later) :
    builder.Advances later := by
  induction becomes with
  | refl => exact .refl orderly
  | tail _ answers before =>
      obtain ⟨command, rfl⟩ := answers
      exact before.trans (before.orderly.command command)

end Builder

/-! ## Requests that end -/

open Errand (Ends)

/-- Passing arguments for the pending parameters of a block ends, from the one at `index` on. -/
inductive PassingEnds (label : Label) : (index : Nat) → Builder → Builder → Prop
  | done {index : Nat} {builder : Builder}
      (none : (builder.state label).pending[index]? = none) :
      PassingEnds label index builder builder
  | next {index : Nat} {builder middle later : Builder} {var : Variable} {param : Value}
      (some : (builder.state label).pending[index]? = some (var, param))
      (passed : Ends var (builder.function.type param)
        (.pass (builder.state label).predecessors param) builder param middle)
      (rest : PassingEnds label (index + 1) middle later) :
      PassingEnds label index builder later

inductive SealingEnds (label : Label) (builder : Builder) : Builder → Prop
  | unknown (outside : builder.hasBlock label = false) :
      SealingEnds label builder (builder.blame (.sealUnknown label))
  | twice (inside : builder.hasBlock label = true)
      (closed : (builder.state label).isSealed = true) :
      SealingEnds label builder (builder.blame (.sealedTwice label))
  | seals {later : Builder} (inside : builder.hasBlock label = true)
      (unsealed : (builder.state label).isSealed = false)
      (passed : PassingEnds label 0 builder later) :
      SealingEnds label builder (later.withSeal label)

/-- Sealing those of some blocks that are not sealed ends. -/
inductive SealingAllEnds : (indices : List Nat) → Builder → Builder → Prop
  | done {builder : Builder} : SealingAllEnds [] builder builder
  | skip {index : Nat} {indices : List Nat} {builder later : Builder}
      (closed : (builder.state ⟨index⟩).isSealed = true)
      (rest : SealingAllEnds indices builder later) :
      SealingAllEnds (index :: indices) builder later
  | next {index : Nat} {indices : List Nat} {builder middle later : Builder}
      (unsealed : (builder.state ⟨index⟩).isSealed = false)
      (sealing : SealingEnds ⟨index⟩ builder middle)
      (rest : SealingAllEnds indices middle later) :
      SealingAllEnds (index :: indices) builder later

inductive UseEnds (var : Variable) (builder : Builder) : Value → Builder → Prop
  | undeclared (unknown : builder.declared.lookup var = none) :
      UseEnds var builder ⟨0⟩ (builder.blame (.usedUndeclared var))
  | outside {type : MachineType} (declared : builder.declared.lookup var = some type)
      (nowhere : builder.current = none) :
      UseEnds var builder ⟨0⟩ (builder.blame (.usedOutside var))
  | finds {type : MachineType} {label : Label} {value : Value} {later : Builder}
      (declared : builder.declared.lookup var = some type)
      (current : builder.current = some label)
      (found : Ends var type (.find label) builder value later) :
      UseEnds var builder value later

theorem SealingEnds.of_unsealed {label : Label} {builder later : Builder}
    (ends : SealingEnds label builder later) (inside : builder.hasBlock label = true)
    (unsealed : (builder.state label).isSealed = false) :
    ∃ middle, PassingEnds label 0 builder middle ∧ later = middle.withSeal label := by
  cases ends with
  | unknown outside => exact absurd (inside.symm.trans outside) nofun
  | twice _ closed => exact absurd (closed.symm.trans unsealed) nofun
  | seals _ _ passed => exact ⟨_, passed, rfl⟩

namespace SealingAllEnds

variable {index : Nat} {indices : List Nat} {builder later : Builder}

theorem of_unsealed (ends : SealingAllEnds (index :: indices) builder later)
    (inside : builder.hasBlock ⟨index⟩ = true)
    (unsealed : (builder.state ⟨index⟩).isSealed = false) :
    ∃ middle, PassingEnds ⟨index⟩ 0 builder middle ∧
      SealingAllEnds indices (middle.withSeal ⟨index⟩) later := by
  cases ends with
  | skip closed => exact absurd (closed.symm.trans unsealed) nofun
  | next _ sealing rest =>
      obtain ⟨middle, passed, rfl⟩ := sealing.of_unsealed inside unsealed
      exact ⟨middle, passed, rest⟩

theorem idle (ends : SealingAllEnds (index :: indices) builder later)
    (inside : builder.hasBlock ⟨index⟩ = true)
    (unsealed : (builder.state ⟨index⟩).isSealed = false)
    (none : (builder.state ⟨index⟩).pending = []) :
    SealingAllEnds indices (builder.withSeal ⟨index⟩) later := by
  obtain ⟨middle, passed, rest⟩ := ends.of_unsealed inside unsealed
  cases passed with
  | done => exact rest
  | next some =>
      rw [none] at some
      cases some

/-- A variable that is pending is looked up where the first branch to the block comes from. -/
theorem pending (ends : SealingAllEnds (index :: indices) builder later)
    (inside : builder.hasBlock ⟨index⟩ = true)
    (unsealed : (builder.state ⟨index⟩).isSealed = false) {var : Variable} {param : Value}
    (first : (builder.state ⟨index⟩).pending[0]? = some (var, param)) {edge : Edge}
    {edges : List Edge} (entered : (builder.state ⟨index⟩).predecessors = edge :: edges) :
    ∃ value middle, Ends var (builder.function.type param) (.find edge.source) builder value
      middle := by
  obtain ⟨middle, passed, -⟩ := ends.of_unsealed inside unsealed
  cases passed with
  | done none =>
      rw [none] at first
      cases first
  | next some passed =>
      cases some.symm.trans first
      rw [entered] at passed
      cases passed with
      | edge found => exact ⟨_, _, found⟩

end SealingAllEnds

namespace Builder

variable {builder : Builder}

theorem state_sealBelow (builder : Builder) (bound : Nat) (label : Label) :
    (builder.sealBelow bound).state label = { builder.state label with
      isSealed := (builder.state label).isSealed ||
        (decide (label.index < bound) && decide (label.index < builder.states.size)) } := by
  simp only [sealBelow, state, Array.getD_eq_getD_getElem?, Array.getElem?_mapIdx]
  by_cases inside : label.index < builder.states.size
  · simp [inside]
  · simp [inside, BlockState.fresh]

/-- What becomes of a builder when those of its blocks that are below a bound have been sealed, as
far as ways back are concerned. -/
structure SealsTo (bound : Nat) (builder later : Builder) : Prop where
  size : later.states.size = builder.states.size
  isSealed : ∀ label, (later.state label).isSealed =
    ((builder.sealBelow bound).state label).isSealed
  predecessors : ∀ label, (later.state label).predecessors = (builder.state label).predecessors

theorem SealsTo.refl (builder : Builder) : SealsTo 0 builder builder :=
  ⟨rfl, by simp [state_sealBelow], fun _ => rfl⟩

theorem SealsTo.onlyFrom {bound : Nat} {later : Builder} (seals : SealsTo bound builder later) :
    later.OnlyFrom = (builder.sealBelow bound).OnlyFrom := by
  funext label source
  rw [OnlyFrom, OnlyFrom, seals.isSealed, seals.predecessors, state_sealBelow]

/-- One more block is sealed. -/
theorem SealsTo.next {index : Nat} {middle later : Builder}
    (seals : SealsTo index builder middle) (size : later.states.size = middle.states.size)
    (closed : (later.state ⟨index⟩).isSealed = decide (index < builder.states.size))
    (others : ∀ label : Label, label ≠ ⟨index⟩ →
      (later.state label).isSealed = (middle.state label).isSealed)
    (predecessors : ∀ label,
      (later.state label).predecessors = (middle.state label).predecessors) :
    SealsTo (index + 1) builder later where
  size := size.trans seals.size
  isSealed label := by
    rw [state_sealBelow]
    by_cases same : label = ⟨index⟩
    · subst same
      rw [closed]
      by_cases inside : index < builder.states.size
      · simp [inside]
      · simp [inside, state, BlockState.fresh]
    · have further : label.index < index + 1 ↔ label.index < index := by
        have different : label.index ≠ index := fun equal => same (by cases label; cases equal; rfl)
        omega
      rw [others label same, seals.isSealed, state_sealBelow]
      simp [further]
  predecessors label := (predecessors label).trans (seals.predecessors label)

end Builder

namespace Build

open Builder (SealsTo)

variable {builder : Builder}

/-- Passing on pending parameters ends. While it goes on, nothing becomes pending in the block,
since whatever is looked up has a value there. -/
theorem passPending_ends {label : Label} (count index : Nat) (orderly : builder.Orderly)
    (unwinds : builder.Unwinds)
    (enough : (builder.state label).pending.length ≤ index + count) :
    PassingEnds label index builder ((passPending label count index).run builder).2 := by
  induction count generalizing builder index with
  | zero => exact .done (List.getElem?_eq_none_iff.mpr enough)
  | succ count induction =>
      cases found : (builder.state label).pending[index]? with
      | none =>
          rw [passPending_none _ found]
          exact .done found
      | some item =>
          rw [passPending_some _ found]
          have follows := passAlong_follows builder label item.1 item.2
          obtain ⟨known, declared⟩ := orderly.awaited label item (List.mem_of_getElem? found)
          have same : (((passAlong label item.1 item.2).run builder).2.state label).pending =
              (builder.state label).pending := by
            rcases follows.pending label with same | ⟨unknown, _⟩
            · exact same
            · exact absurd unknown known
          refine .next found (passAlong_ends (orderly.traceable unwinds) label item.1 item.2)
            (induction (index + 1) (orderly.follows follows declared) (follows.unwinds unwinds) ?_)
          rw [same]
          omega

theorem sealBlock_ends (label : Label) (orderly : builder.Orderly) (unwinds : builder.Unwinds) :
    SealingEnds label builder ((sealBlock label).run builder).2 := by
  cases inside : builder.hasBlock label with
  | false =>
      rw [sealBlock_unknown inside]
      exact .unknown inside
  | true =>
      cases closed : (builder.state label).isSealed with
      | true =>
          rw [sealBlock_twice inside closed]
          exact .twice inside closed
      | false =>
          rw [sealBlock_run inside closed]
          refine .seals inside closed (passPending_ends _ 0 orderly unwinds ?_)
          rw [Nat.zero_add]
          exact orderly.length_pending label

theorem useVariable_ends (var : Variable) (orderly : builder.Orderly)
    (unwinds : builder.Unwinds) :
    UseEnds var builder ((useVariable var).run builder).1 ((useVariable var).run builder).2 := by
  cases declared : builder.declared.lookup var with
  | none =>
      have refused : (useVariable var).run builder =
          (⟨0⟩, builder.blame (.usedUndeclared var)) := by
        simp only [useVariable, StateT.run_bind, StateT.run_get, pure_bind, declared]
        rfl
      rw [refused]
      exact .undeclared declared
  | some type =>
      cases current : builder.current with
      | none =>
          have refused : (useVariable var).run builder =
              (⟨0⟩, builder.blame (.usedOutside var)) := by
            simp only [useVariable, StateT.run_bind, StateT.run_get, pure_bind, declared, current]
            rfl
          rw [refused]
          exact .outside declared current
      | some label =>
          rw [useVariable_run current declared]
          exact .finds declared current (lookup_fuel_ends (orderly.traceable unwinds) var type
            (orderly.current label current))

/-- Sealing a block changes nothing about the ways except that the block is sealed. -/
theorem sealBlock_ways {label : Label} (orderly : builder.Orderly)
    (inside : label.index < builder.states.size)
    (unsealed : (builder.state label).isSealed = false) :
    ((sealBlock label).run builder).2.states.size = builder.states.size ∧
      ∀ other, (((sealBlock label).run builder).2.state other).isSealed =
          (if other = label then true else (builder.state other).isSealed) ∧
        (((sealBlock label).run builder).2.state other).predecessors =
          (builder.state other).predecessors := by
  have exist : builder.hasBlock label = true := by
    simpa [Builder.hasBlock, ← orderly.balanced] using inside
  rw [sealBlock_run exist unsealed]
  have same := passPending_same label builder.declared.length 0 builder
  refine ⟨by simpa [Builder.withSeal] using same.size, fun other => ⟨?_, ?_⟩⟩
  · rw [Builder.state_withSeal _ _ _ (by rw [same.size]; exact inside), ← same.isSealed]
    split <;> rfl
  · rw [Builder.predecessors_withSeal, same.predecessors]

/-- Sealing one block after the other ends if ways back never return when one of them is sealed. -/
theorem sealOnce_ends {first : Builder} (count index : Nat) (orderly : builder.Orderly)
    (seals : SealsTo index first builder) (rest : index + count = first.states.size)
    (unwinds : ∀ label : Label, label.index < first.states.size →
      (first.state label).isSealed = false → (first.sealBelow label.index).Unwinds) :
    SealingAllEnds (List.range' index count) builder
      (((List.range' index count).forM sealOnce).run builder).2 := by
  induction count generalizing builder index with
  | zero => exact .done
  | succ count induction =>
      have inside : index < first.states.size := by omega
      rw [List.range'_succ, forM_cons_run]
      cases closed : (builder.state ⟨index⟩).isSealed with
      | true =>
          rw [sealOnce_sealed closed]
          refine .skip closed (induction (index + 1) orderly ?_ (by omega))
          exact seals.next rfl (by simpa [inside] using closed) (fun _ _ => rfl) fun _ => rfl
      | false =>
          rw [sealOnce_unsealed closed]
          have unsealed : (first.state ⟨index⟩).isSealed = false := by
            have same := seals.isSealed ⟨index⟩
            rw [closed, Builder.state_sealBelow] at same
            simpa using same.symm
          have unwindsNow : builder.Unwinds := by
            rw [Builder.Unwinds, seals.onlyFrom]
            exact unwinds ⟨index⟩ inside unsealed
          obtain ⟨size, ways⟩ := sealBlock_ways orderly (by rw [seals.size]; exact inside) closed
          refine .next closed (sealBlock_ends ⟨index⟩ orderly unwindsNow)
            (induction (index + 1) ((sealBlock_advances ⟨index⟩ orderly).orderly) ?_ (by omega))
          refine seals.next size (by simp [ways, inside]) (fun other different => ?_)
            fun other => (ways other).2
          rw [(ways other).1, if_neg different]

theorem sealAll_ends (orderly : builder.Orderly)
    (unwinds : ∀ label : Label, label.index < builder.states.size →
      (builder.state label).isSealed = false → (builder.sealBelow label.index).Unwinds) :
    SealingAllEnds (List.range builder.states.size) builder (sealAll.run builder).2 := by
  have ends := sealOnce_ends builder.states.size 0 orderly (.refl builder) (Nat.zero_add _) unwinds
  rw [← List.range_eq_range'] at ends
  exact ends

end Build

/-- Lookups end, and so do the requests that make them. Sealing all blocks ends if ways back do not
return even when all blocks below one that is not sealed are sealed as well. -/
structure Builder.LookupsEnd (builder : Builder) : Prop where
  lookup : ∀ var type label, builder.declared.lookup var = some type →
    builder.hasBlock label = true → Ends var type (.find label) builder
      ((Build.lookup var type (Build.fuel builder) label).run builder).1
      ((Build.lookup var type (Build.fuel builder) label).run builder).2
  useVariable : ∀ var, UseEnds var builder ((Build.useVariable var).run builder).1
    ((Build.useVariable var).run builder).2
  sealBlock : ∀ label, SealingEnds label builder ((Build.sealBlock label).run builder).2
  sealAll : (∀ label, builder.hasBlock label = true → (builder.state label).isSealed = false →
      (builder.sealBelow label.index).Unwinds) →
    SealingAllEnds (List.range builder.states.size) builder (Build.sealAll.run builder).2

theorem Builder.Orderly.lookupsEnd {builder : Builder} (orderly : builder.Orderly)
    (unwinds : builder.Unwinds) : builder.LookupsEnd := by
  have inside : ∀ {label : Label}, builder.hasBlock label = true ↔
      label.index < builder.states.size := by
    simp [Builder.hasBlock, orderly.balanced]
  exact
    { lookup := fun var type _ _ exist =>
        Build.lookup_fuel_ends (orderly.traceable unwinds) var type (inside.mp exist)
      useVariable := fun var => Build.useVariable_ends var orderly unwinds
      sealBlock := fun label => Build.sealBlock_ends label orderly unwinds
      sealAll := fun still =>
        Build.sealAll_ends orderly fun label exist => still label (inside.mpr exist) }

end ExprLang.Ssa
