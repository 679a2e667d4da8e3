import ExprLang.Proofs.Ssa.Sealing

/-!
# Lookups end

A lookup follows the edges of sealed blocks backwards. In a block with several predecessors the
variable is known from then on, so that this happens once for each block; and a sealed block with
one predecessor is just left for that predecessor. So a lookup ends if the way back through such
blocks never returns, and then it does before its fuel does.
-/

namespace ExprLang.Ssa

namespace Builder

/-! ## Ways back -/

/-- A sealed block that can be entered along one edge only, and the block that it is entered
from. -/
def OnlyFrom (builder : Builder) (label source : Label) : Prop :=
  (builder.state label).isSealed = true ∧
    ∃ edge, (builder.state label).predecessors = [edge] ∧ edge.source = source

/-- Moving again and again from a sealed block with one predecessor to that predecessor never
returns to the same block. -/
def Unwinds (builder : Builder) : Prop :=
  ∀ label, ¬ Relation.TransGen builder.OnlyFrom label label

structure Traceable (builder : Builder) : Prop where
  balanced : builder.states.size = builder.function.blocks.size
  inside : ∀ label, ∀ edge ∈ (builder.state label).predecessors,
    edge.source.index < builder.states.size
  unwinds : builder.Unwinds

open Classical in
noncomputable def depth (builder : Builder) (label : Label) : Nat :=
  ((Finset.range builder.states.size).filter fun index =>
    Relation.TransGen builder.OnlyFrom label ⟨index⟩).card

theorem depth_le (builder : Builder) (label : Label) :
    builder.depth label ≤ builder.states.size := by
  classical
  refine (Finset.card_filter_le _ _).trans ?_
  rw [Finset.card_range]

theorem Traceable.depth_lt {builder : Builder} (traceable : builder.Traceable)
    {label source : Label} (only : builder.OnlyFrom label source) :
    builder.depth source < builder.depth label := by
  classical
  obtain ⟨edge, edges, comes⟩ := only.2
  have place : source.index < builder.states.size := by
    rw [← comes]
    exact traceable.inside label edge (by simp [edges])
  refine Finset.card_lt_card ⟨fun index member => ?_, fun back => ?_⟩
  · rw [Finset.mem_filter] at member ⊢
    exact ⟨member.1, .head only member.2⟩
  · have member := back (Finset.mem_filter.mpr ⟨Finset.mem_range.mpr place, .single only⟩)
    exact traceable.unwinds source (Finset.mem_filter.mp member).2

theorem unwinds_of_descends {builder : Builder}
    (descends : ∀ label edge, (builder.state label).isSealed = true →
      (builder.state label).predecessors = [edge] → edge.source.index < label.index) :
    builder.Unwinds := by
  have earlier : ∀ label source, Relation.TransGen builder.OnlyFrom label source →
      source.index < label.index := by
    intro label source way
    induction way with
    | single only =>
        obtain ⟨closed, edge, edges, rfl⟩ := only
        exact descends _ edge closed edges
    | tail _ only before =>
        obtain ⟨closed, edge, edges, rfl⟩ := only
        exact (descends _ edge closed edges).trans before
  exact fun label way => Nat.lt_irrefl _ (earlier label label way)

def unknowns (builder : Builder) (var : Variable) : Nat :=
  ((Finset.range builder.states.size).filter fun index => builder.known ⟨index⟩ var = none).card

theorem unknowns_le (builder : Builder) (var : Variable) :
    builder.unknowns var ≤ builder.states.size := by
  refine (Finset.card_filter_le _ _).trans ?_
  rw [Finset.card_range]

/-! ## What lookups leave alone -/

theorem isTerminated_changeDestination (operation : Operation)
    (change : Destination → Destination) (side : Nat) :
    (operation.changeDestination change side).isTerminator = operation.isTerminator := by
  cases operation <;> simp only [Operation.changeDestination] <;> split <;> rfl

@[simp] theorem isTerminated_withParameter (builder : Builder) (label other : Label)
    (type : MachineType) :
    ((builder.withParameter label type).function.block other).isTerminated =
      (builder.function.block other).isTerminated := by
  rw [Block.isTerminated, instructions_withParameter, Block.isTerminated]

@[simp] theorem isTerminated_withZero (builder : Builder) (label other : Label)
    (type : MachineType) :
    ((builder.withZero label type).function.block other).isTerminated =
      (builder.function.block other).isTerminated := by
  refine field_modifyBlock _ label other Block.isTerminated fun block => ?_
  simp only [Block.isTerminated, List.getLast?_cons]
  cases block.instructions.getLast? <;> rfl

@[simp] theorem isTerminated_withArgument (builder : Builder) (edge : Edge) (other : Label)
    (value : Value) :
    ((builder.withArgument edge value).function.block other).isTerminated =
      (builder.function.block other).isTerminated := by
  refine field_modifyBlock _ edge.source other Block.isTerminated fun block => ?_
  cases last : block.instructions.getLast? with
  | none =>
      have empty := List.getLast?_eq_none_iff.mp last
      simp [Block.isTerminated, empty]
  | some instruction =>
      simp [Block.isTerminated, last, Instruction.isTerminator, isTerminated_changeDestination]

/-- The blocks are the same, and so are the ways between them and what can be named in them. -/
structure SameWays (builder later : Builder) : Prop where
  size : later.states.size = builder.states.size
  blocks : later.function.blocks.size = builder.function.blocks.size
  current : later.current = builder.current
  declared : later.declared = builder.declared
  isSealed : ∀ label, (later.state label).isSealed = (builder.state label).isSealed
  predecessors : ∀ label, (later.state label).predecessors = (builder.state label).predecessors
  isTerminated : ∀ label, (later.function.block label).isTerminated =
    (builder.function.block label).isTerminated
  imports : later.imports = builder.imports
  references : later.function.references = builder.function.references

namespace SameWays

variable {builder middle later : Builder}

theorem refl (builder : Builder) : SameWays builder builder :=
  ⟨rfl, rfl, rfl, rfl, fun _ => rfl, fun _ => rfl, fun _ => rfl, rfl, rfl⟩

theorem trans (first : SameWays builder middle) (second : SameWays middle later) :
    SameWays builder later where
  size := second.size.trans first.size
  blocks := second.blocks.trans first.blocks
  current := second.current.trans first.current
  declared := second.declared.trans first.declared
  isSealed label := (second.isSealed label).trans (first.isSealed label)
  predecessors label := (second.predecessors label).trans (first.predecessors label)
  isTerminated label := (second.isTerminated label).trans (first.isTerminated label)
  imports := second.imports.trans first.imports
  references := second.references.trans first.references

theorem onlyFrom (same : SameWays builder later) : later.OnlyFrom = builder.OnlyFrom := by
  funext label source
  rw [OnlyFrom, OnlyFrom, same.isSealed, same.predecessors]

theorem unwinds (same : SameWays builder later) (unwinds : builder.Unwinds) : later.Unwinds := by
  rw [Unwinds, same.onlyFrom]
  exact unwinds

theorem traceable (same : SameWays builder later) (traceable : builder.Traceable) :
    later.Traceable where
  balanced := by rw [same.size, same.blocks, traceable.balanced]
  inside label edge member := by
    rw [same.predecessors] at member
    rw [same.size]
    exact traceable.inside label edge member
  unwinds := same.unwinds traceable.unwinds

theorem blame (builder : Builder) (misuse : Misuse) : SameWays builder (builder.blame misuse) :=
  ⟨rfl, rfl, rfl, rfl, fun _ => rfl, fun _ => rfl, fun _ => rfl, rfl, rfl⟩

theorem withKnown (builder : Builder) (label : Label) (var : Variable) (value : Value) :
    SameWays builder (builder.withKnown label var value) :=
  ⟨by simp, rfl, rfl, rfl, by simp, by simp, fun _ => rfl, rfl, rfl⟩

theorem withPending (builder : Builder) (label : Label) (var : Variable) (value : Value) :
    SameWays builder (builder.withPending label var value) :=
  ⟨by simp, rfl, rfl, rfl, by simp, by simp, fun _ => rfl, rfl, rfl⟩

theorem withParameter (builder : Builder) (label : Label) (type : MachineType) :
    SameWays builder (builder.withParameter label type) :=
  ⟨by simp, by simp [Builder.withParameter, newValue], rfl, rfl, by simp, by simp, by simp, rfl,
    rfl⟩

theorem withZero (builder : Builder) (label : Label) (type : MachineType) :
    SameWays builder (builder.withZero label type) :=
  ⟨by simp, by simp [Builder.withZero, newValue], rfl, rfl, by simp, by simp, by simp, rfl, rfl⟩

theorem withArgument (builder : Builder) (edge : Edge) (value : Value) :
    SameWays builder (builder.withArgument edge value) :=
  ⟨rfl, by simp [Builder.withArgument], rfl, rfl, by simp, by simp, by simp, rfl, rfl⟩

end SameWays

/-- What a lookup of a variable does not change, and what it adds. In a block where the variable
is not known yet it may become pending, and it is known from then on. -/
structure Follows (var : Variable) (builder later : Builder) : Prop
    extends SameWays builder later where
  known : ∀ label asked, builder.known label asked ≠ none → later.known label asked ≠ none
  pending : ∀ label, (later.state label).pending = (builder.state label).pending ∨
    builder.known label var = none ∧ later.known label var ≠ none ∧
      ∃ value, (later.state label).pending = (builder.state label).pending ++ [(var, value)]

namespace Follows

variable {var : Variable} {builder middle later : Builder}

theorem refl (var : Variable) (builder : Builder) : Follows var builder builder :=
  ⟨.refl builder, fun _ _ known => known, fun _ => .inl rfl⟩

theorem trans (first : Follows var builder middle) (second : Follows var middle later) :
    Follows var builder later where
  toSameWays := first.toSameWays.trans second.toSameWays
  known label asked known := second.known label asked (first.known label asked known)
  pending label := by
    rcases first.pending label with same | ⟨unknown, known, value, added⟩
    · rw [← same]
      rcases second.pending label with still | ⟨unknown, known, added⟩
      · exact .inl still
      · refine .inr ⟨?_, known, added⟩
        by_contra before
        exact first.known label var before unknown
    · rcases second.pending label with still | ⟨unknownThen, _, _⟩
      · exact .inr ⟨unknown, second.known label var known, value, still.trans added⟩
      · exact absurd unknownThen known

theorem filter_subset (follows : Follows var builder later) :
    (Finset.range later.states.size).filter (fun index => later.known ⟨index⟩ var = none) ⊆
      (Finset.range builder.states.size).filter fun index =>
        builder.known ⟨index⟩ var = none := by
  intro index member
  rw [Finset.mem_filter, follows.size] at member
  rw [Finset.mem_filter]
  refine ⟨member.1, ?_⟩
  by_contra known
  exact follows.known ⟨index⟩ var known member.2

theorem unknowns_le (follows : Follows var builder later) :
    later.unknowns var ≤ builder.unknowns var := by
  exact Finset.card_le_card follows.filter_subset

theorem blame (var : Variable) (builder : Builder) (misuse : Misuse) :
    Follows var builder (builder.blame misuse) :=
  ⟨.blame builder misuse, fun _ _ known => known, fun _ => .inl rfl⟩

theorem withKnown (builder : Builder) (var : Variable) (label : Label) (value : Value) :
    Follows var builder (builder.withKnown label var value) where
  toSameWays := .withKnown builder label var value
  known other asked known := by
    by_cases inside : label.index < builder.states.size
    · rw [known_withKnown _ _ _ _ _ inside]
      split
      · simp
      · exact known
    · have same : (builder.withKnown label var value).state other = builder.state other := by
        rw [Builder.withKnown, state_modifyState]
        simp [inside]
      rw [Builder.known, same]
      exact known
  pending _ := .inl (by simp)

theorem withParameter (builder : Builder) (var : Variable) (label : Label)
    (type : MachineType) : Follows var builder (builder.withParameter label type) :=
  ⟨.withParameter builder label type, by simp, fun _ => .inl (by simp)⟩

theorem pend (builder : Builder) {var : Variable} {label : Label} (value : Value)
    (unknown : builder.known label var = none) :
    Follows var builder ((builder.withPending label var value).withKnown label var value) where
  toSameWays := (SameWays.withPending builder label var value).trans (.withKnown _ label var value)
  known other asked known := by
    refine (withKnown (builder.withPending label var value) var label value).known other asked ?_
    simpa using known
  pending other := by
    rw [pending_withKnown]
    by_cases inside : label.index < builder.states.size
    · rw [state_withPending _ _ _ _ _ inside]
      by_cases same : other = label
      · subst same
        refine .inr ⟨unknown, ?_, value, by simp⟩
        rw [known_withKnown _ _ _ _ _ (by simpa using inside)]
        simp
      · exact .inl (by simp [same])
    · refine .inl ?_
      rw [Builder.withPending, state_modifyState]
      simp [inside]

theorem withZero (builder : Builder) (var : Variable) (label : Label) (type : MachineType) :
    Follows var builder (builder.withZero label type) :=
  ⟨.withZero builder label type, by simp, fun _ => .inl (by simp)⟩

theorem withArgument (builder : Builder) (var : Variable) (edge : Edge) (value : Value) :
    Follows var builder (builder.withArgument edge value) :=
  ⟨.withArgument builder edge value, by simp, fun _ => .inl (by simp)⟩

theorem unknowns_lt (follows : Follows var builder later) {label : Label}
    (inside : label.index < builder.states.size) (unknown : builder.known label var = none)
    (known : later.known label var ≠ none) : later.unknowns var < builder.unknowns var := by
  refine Finset.card_lt_card ⟨follows.filter_subset, fun back => ?_⟩
  have member := back (Finset.mem_filter.mpr ⟨Finset.mem_range.mpr inside, unknown⟩)
  exact known (Finset.mem_filter.mp member).2

end Follows

end Builder

namespace Build

open Builder (Follows)

theorem passEdges_follows {var : Variable} {type : MachineType} {fuel : Nat}
    (looks : ∀ label builder, Follows var builder ((lookup var type fuel label).run builder).2)
    (edges : List Edge) (builder : Builder) :
    Follows var builder (passEdges var type fuel edges builder) := by
  induction edges generalizing builder with
  | nil => exact .refl var builder
  | cons edge rest induction =>
      rw [passEdges]
      exact ((looks edge.source builder).trans (.withArgument _ var edge _)).trans (induction _)

theorem lookup_follows (var : Variable) (type : MachineType) (fuel : Nat) (label : Label)
    (builder : Builder) : Follows var builder ((lookup var type fuel label).run builder).2 := by
  induction fuel generalizing label builder with
  | zero =>
      rw [lookup_zero]
      exact .blame var builder _
  | succ fuel induction =>
      cases known : builder.known label var with
      | some value =>
          rw [lookup_known _ _ _ _ _ known]
          exact .refl var builder
      | none =>
          cases closed : (builder.state label).isSealed with
          | false =>
              rw [lookup_open _ _ _ _ _ known closed]
              exact (Follows.withParameter builder var label type).trans
                (.pend _ _ (by simpa using known))
          | true =>
              rcases edges : (builder.state label).predecessors with
                _ | ⟨edge, _ | ⟨second, rest⟩⟩
              · rw [lookup_alone _ _ _ _ _ known closed edges]
                exact (Follows.withZero builder var label type).trans
                  (.withKnown _ var label _)
              · rw [lookup_single _ _ _ _ _ known closed edges]
                exact (induction edge.source builder).trans (.withKnown _ var label _)
              · rw [lookup_merge _ _ _ _ _ known closed (by simp [edges])]
                exact ((Follows.withParameter builder var label type).trans
                  (.withKnown _ var label _)).trans (passEdges_follows induction _ _)

end Build

/-! ## Lookups without fuel -/

/-- What is left to do for the value of a variable: to find it at the end of a block, or to pass
what is found along some edges and to come back with a result that is known already. -/
inductive Errand where
  | find (label : Label)
  | pass (edges : List Edge) (result : Value)

/-- An errand ends with a result and leaves a builder behind. There is one rule for each case of a
lookup, and none for running out of fuel: an errand that would go on forever does not end. -/
inductive Errand.Ends (var : Variable) (type : MachineType) :
    Errand → Builder → Value → Builder → Prop
  | known {label : Label} {builder : Builder} {value : Value}
      (known : builder.known label var = some value) :
      Ends var type (.find label) builder value builder
  | pend {label : Label} {builder : Builder} (unknown : builder.known label var = none)
      (unsealed : (builder.state label).isSealed = false) :
      Ends var type (.find label) builder builder.nextValue
        (((builder.withParameter label type).withPending label var builder.nextValue).withKnown
          label var builder.nextValue)
  | zero {label : Label} {builder : Builder} (unknown : builder.known label var = none)
      (closed : (builder.state label).isSealed = true)
      (alone : (builder.state label).predecessors = []) :
      Ends var type (.find label) builder builder.nextValue
        ((builder.withZero label type).withKnown label var builder.nextValue)
  | inherit {label : Label} {edge : Edge} {builder later : Builder} {value : Value}
      (unknown : builder.known label var = none)
      (closed : (builder.state label).isSealed = true)
      (only : (builder.state label).predecessors = [edge])
      (found : Ends var type (.find edge.source) builder value later) :
      Ends var type (.find label) builder value (later.withKnown label var value)
  | join {label : Label} {builder later : Builder} {value : Value}
      (unknown : builder.known label var = none)
      (closed : (builder.state label).isSealed = true)
      (several : 2 ≤ (builder.state label).predecessors.length)
      (passed : Ends var type (.pass (builder.state label).predecessors builder.nextValue)
        ((builder.withParameter label type).withKnown label var builder.nextValue) value later) :
      Ends var type (.find label) builder value later
  | done {builder : Builder} {result : Value} :
      Ends var type (.pass [] result) builder result builder
  | edge {edge : Edge} {edges : List Edge} {builder middle later : Builder}
      {argument result value : Value}
      (found : Ends var type (.find edge.source) builder argument middle)
      (passed : Ends var type (.pass edges result) (middle.withArgument edge argument) value
        later) :
      Ends var type (.pass (edge :: edges) result) builder value later

namespace Errand.Ends

variable {var : Variable} {type : MachineType} {errand : Errand} {builder later : Builder}
  {value : Value}

theorem misuse (ends : Ends var type errand builder value later) :
    later.misuse = builder.misuse := by
  induction ends with
  | known | pend | zero | done => rfl
  | inherit _ _ _ _ induction => exact induction
  | join _ _ _ _ induction => exact induction
  | edge _ _ first second => exact second.trans first

/-- An errand does not end in blocks that can only be entered from one another, as long as
nothing is known there. -/
theorem not_in_cycle {cycle : Label → Prop}
    (unknown : ∀ label, cycle label → builder.known label var = none)
    (back : ∀ label, cycle label → ∃ source, builder.OnlyFrom label source ∧ cycle source)
    {label : Label} (inside : cycle label) :
    ¬ Ends var type (.find label) builder value later := by
  intro ends
  generalize same : Errand.find label = errand at ends
  induction ends generalizing label with
  | known known =>
      cases same
      rw [unknown _ inside] at known
      cases known
  | pend _ unsealed =>
      cases same
      obtain ⟨_, ⟨closed, _⟩, _⟩ := back _ inside
      exact Bool.false_ne_true (unsealed.symm.trans closed)
  | zero _ _ alone =>
      cases same
      obtain ⟨_, ⟨_, _, edges, _⟩, _⟩ := back _ inside
      cases alone.symm.trans edges
  | inherit _ _ only _ induction =>
      cases same
      obtain ⟨source, ⟨_, _, edges, rfl⟩, further⟩ := back _ inside
      cases only.symm.trans edges
      exact induction unknown back further rfl
  | join _ _ several =>
      cases same
      obtain ⟨_, ⟨_, _, edges, _⟩, _⟩ := back _ inside
      simp [edges] at several
  | done | edge => cases same

end Errand.Ends

/-! ## Fuel is enough -/

namespace Build

open Builder (Follows)
open Errand (Ends)

/-- Passing a variable along edges ends, if lookups in all blocks do. -/
theorem passEdges_ends {var : Variable} {type : MachineType} {fuel : Nat}
    (looks : ∀ label builder, builder.Traceable → label.index < builder.states.size →
      builder.unknowns var * (builder.states.size + 1) + builder.depth label + 1 ≤ fuel →
      Ends var type (.find label) builder ((lookup var type fuel label).run builder).1
        ((lookup var type fuel label).run builder).2)
    (edges : List Edge) (result : Value) (builder : Builder) (traceable : builder.Traceable)
    (inside : ∀ edge ∈ edges, edge.source.index < builder.states.size)
    (enough : builder.unknowns var * (builder.states.size + 1) + builder.states.size + 1 ≤
      fuel) :
    Ends var type (.pass edges result) builder result
      (passEdges var type fuel edges builder) := by
  induction edges generalizing builder with
  | nil => exact .done
  | cons edge rest induction =>
      have place := inside edge List.mem_cons_self
      have short := builder.depth_le edge.source
      have follows := (lookup_follows var type fuel edge.source builder).trans
        (.withArgument _ var edge ((lookup var type fuel edge.source).run builder).1)
      refine .edge (looks edge.source builder traceable place (by omega))
        (induction _ (follows.traceable traceable) ?_ ?_)
      · intro later member
        rw [follows.size]
        exact inside later (List.mem_cons_of_mem edge member)
      · rw [follows.size]
        have fewer := Nat.mul_le_mul_right (builder.states.size + 1) follows.unknowns_le
        omega

/-- A lookup ends before its fuel does. The measure counts the blocks in which the variable is not
known, and then the blocks on the way back. -/
theorem lookup_ends (var : Variable) (type : MachineType) (fuel : Nat) (label : Label)
    (builder : Builder) (traceable : builder.Traceable)
    (inside : label.index < builder.states.size)
    (enough : builder.unknowns var * (builder.states.size + 1) + builder.depth label + 1 ≤
      fuel) :
    Ends var type (.find label) builder ((lookup var type fuel label).run builder).1
      ((lookup var type fuel label).run builder).2 := by
  induction fuel generalizing label builder with
  | zero => omega
  | succ fuel induction =>
      cases known : builder.known label var with
      | some value =>
          rw [lookup_known _ _ _ _ _ known]
          exact .known known
      | none =>
          cases closed : (builder.state label).isSealed with
          | false =>
              rw [lookup_open _ _ _ _ _ known closed]
              exact .pend known closed
          | true =>
              rcases edges : (builder.state label).predecessors with
                _ | ⟨edge, _ | ⟨second, rest⟩⟩
              · rw [lookup_alone _ _ _ _ _ known closed edges]
                exact .zero known closed edges
              · rw [lookup_single _ _ _ _ _ known closed edges]
                have nearer := traceable.depth_lt ⟨closed, edge, edges, rfl⟩
                have place := traceable.inside label edge (by simp [edges])
                exact .inherit known closed edges
                  (induction edge.source builder traceable place (by omega))
              · have several : 2 ≤ (builder.state label).predecessors.length := by simp [edges]
                rw [lookup_merge _ _ _ _ _ known closed several]
                have follows := (Follows.withParameter builder var label type).trans
                  (.withKnown _ var label builder.nextValue)
                have fewer := follows.unknowns_lt inside known (by
                  rw [Builder.known_withKnown _ _ _ _ _ (by simpa using inside)]
                  simp)
                refine .join known closed several
                  (passEdges_ends induction _ _ _ (follows.traceable traceable) ?_ ?_)
                · intro edge member
                  rw [follows.size]
                  exact traceable.inside label edge member
                · rw [follows.size]
                  have product := Nat.mul_le_mul_right (builder.states.size + 1)
                    (Nat.succ_le_of_lt fewer)
                  rw [Nat.succ_mul] at product
                  omega

variable {builder : Builder}

theorem unknowns_fuel (traceable : builder.Traceable) (var : Variable) :
    builder.unknowns var * (builder.states.size + 1) + builder.states.size + 1 ≤
      fuel builder := by
  have product := Nat.mul_le_mul_right (builder.states.size + 1) (builder.unknowns_le var)
  rw [fuel, ← traceable.balanced, Nat.succ_mul]
  omega

theorem lookup_fuel_ends (traceable : builder.Traceable) (var : Variable) (type : MachineType)
    {label : Label} (inside : label.index < builder.states.size) :
    Ends var type (.find label) builder ((lookup var type (fuel builder) label).run builder).1
      ((lookup var type (fuel builder) label).run builder).2 := by
  have enough := unknowns_fuel traceable var
  have short := builder.depth_le label
  exact lookup_ends var type _ label builder traceable inside (by omega)

theorem useVariable_clean {var : Variable} {type : MachineType} {label : Label}
    (traceable : builder.Traceable) (current : builder.current = some label)
    (inside : label.index < builder.states.size)
    (declared : builder.declared.lookup var = some type) (clean : builder.misuse = none) :
    ((useVariable var).run builder).2.misuse = none := by
  rw [useVariable_run current declared]
  exact (lookup_fuel_ends traceable var type inside).misuse.trans clean

theorem passAlong_follows (builder : Builder) (label : Label) (var : Variable) (param : Value) :
    Follows var builder ((passAlong label var param).run builder).2 := by
  rw [passAlong_run]
  exact passEdges_follows (lookup_follows var _ _) _ builder

theorem passAlong_ends (traceable : builder.Traceable) (label : Label) (var : Variable)
    (param : Value) :
    Ends var (builder.function.type param) (.pass (builder.state label).predecessors param)
      builder param ((passAlong label var param).run builder).2 := by
  rw [passAlong_run]
  exact passEdges_ends (lookup_ends var _ _) _ param builder traceable (traceable.inside label)
    (unknowns_fuel traceable var)

theorem passPending_clean {label : Label} (count index : Nat) (traceable : builder.Traceable)
    (clean : builder.misuse = none) :
    ((passPending label count index).run builder).2.misuse = none := by
  induction count generalizing builder index with
  | zero => exact clean
  | succ count induction =>
      cases found : (builder.state label).pending[index]? with
      | none =>
          rw [passPending_none _ found]
          exact clean
      | some item =>
          rw [passPending_some _ found]
          have ends := passAlong_ends traceable label item.1 item.2
          have follows := passAlong_follows builder label item.1 item.2
          exact induction (index + 1) (follows.traceable traceable) (ends.misuse.trans clean)

theorem sealBlock_clean {label : Label} (traceable : builder.Traceable)
    (inside : builder.hasBlock label = true)
    (unsealed : (builder.state label).isSealed = false) (clean : builder.misuse = none) :
    ((sealBlock label).run builder).2.misuse = none := by
  rw [sealBlock_run inside unsealed]
  exact passPending_clean _ 0 traceable clean

end Build

end ExprLang.Ssa
