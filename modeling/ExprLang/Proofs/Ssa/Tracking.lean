import ExprLang.Proofs.Ssa.Consistency

/-!
# What is known of variables

The value that is known for a variable at the end of a block is the last one that the block
gave to it, or else the one that it held at the start. Every value that was read is the one
that was known then.
-/

namespace ExprLang.Ssa

namespace Recording

theorem received_of_incoming (recording : Recording) {label : Label} {var : Variable}
    {value : Value} (received : recording.incoming label var = some value) :
    recording.received label var value = recording.incoming := by
  rw [Recording.received, ← received, Function.update_eq_self, Function.update_eq_self]

/-- What is known of variables follows from the scripts and from what they hold at the start
of blocks. -/
structure Tracked (recording : Recording) : Prop where
  known : ∀ label, recording.builder.known label =
    settle (recording.incoming label) (recording.script label)
  uses : ∀ label before var value behind,
    recording.script label = before ++ .use var value :: behind →
      settle (recording.incoming label) before var = some value
  joins : ∀ label var value, (var, value) ∈ recording.joined label →
    recording.incoming label var = some value
  distinct : ∀ label, ((recording.joined label).map Prod.fst).Nodup
  pending : ∀ label, (recording.builder.state label).isSealed = false →
    (recording.builder.state label).pending = recording.joined label
  alone : ∀ label, recording.zeros label ≠ [] →
    (recording.builder.state label).isSealed = true ∧
      (recording.builder.state label).predecessors = []

namespace Tracked

variable {recording later : Recording}

theorem start (id : FunctionId) (declaration : Declaration) :
    (Recording.start id declaration).Tracked := by
  constructor
  · intro label
    funext var
    simp [Recording.start, History.start, Builder.start, Builder.known, Builder.state,
      BlockState.fresh]
  · intro label before var value behind split
    simp [Recording.start, History.start] at split
  · intro label var value member
    simp [Recording.start] at member
  · intro label
    simp [Recording.start]
  · intro label _
    simp [Recording.start, History.start, Builder.start, Builder.state, BlockState.fresh]
  · intro label nonempty
    exact absurd rfl nonempty

theorem untouched (tracked : recording.Tracked) {label : Label} {var : Variable}
    (unknown : recording.builder.known label var = none) :
    recording.incoming label var = none ∧
      ∀ value, .define var value ∉ recording.script label := by
  rw [tracked.known label] at unknown
  exact settle_eq_none.mp unknown

theorem received_of_undefined (tracked : recording.Tracked) {label : Label} {var : Variable}
    (undefined : ∀ value, .define var value ∉ recording.script label) (value : Value)
    (other : Label) :
    settle (recording.received label var value other) (recording.script other) =
      if other = label then
        Function.update (recording.builder.known label) var (some value)
      else recording.builder.known other := by
  by_cases same : other = label
  · subst same
    simp only [received, Function.update_self, if_true]
    rw [settle_update undefined, tracked.known other]
  · simp only [received, Function.update_of_ne same, if_neg same, tracked.known other]

/-- What a variable held when it was read does not change when another one becomes known. -/
theorem uses_received (tracked : recording.Tracked) {label : Label} {var : Variable}
    {value : Value} (undefined : ∀ value, .define var value ∉ recording.script label)
    (fresh : recording.incoming label var = none ∨ recording.incoming label var = some value) :
    ∀ other before asked content behind,
      recording.script other = before ++ .use asked content :: behind →
        settle (recording.received label var value other) before asked = some content := by
  intro other before asked content behind split
  have holds := tracked.uses other before asked content behind split
  by_cases same : other = label
  · subst same
    have early : ∀ value, .define var value ∉ before := fun value member =>
      undefined value (by rw [split]; exact List.mem_append_left _ member)
    simp only [received, Function.update_self]
    rw [settle_update early]
    by_cases equal : asked = var
    · subst equal
      rw [settle_of_undefined early] at holds
      rcases fresh with none | some
      · rw [none] at holds
        cases holds
      · rw [Function.update_self, ← some, holds]
    · rw [Function.update_of_ne equal, holds]
  · simp only [received, Function.update_of_ne same, holds]

theorem joins_received (tracked : recording.Tracked) {label : Label} {var : Variable}
    {value : Value}
    (fresh : recording.incoming label var = none ∨ recording.incoming label var = some value) :
    ∀ other asked content, (asked, content) ∈ recording.joined other →
      recording.received label var value other asked = some content := by
  intro other asked content member
  exact recording.incoming_received fresh other asked content
    (tracked.joins other asked content member)

/-- One more parameter for a variable of which nothing was known. -/
theorem joins_joined (tracked : recording.Tracked) {label : Label} {var : Variable}
    (fresh : recording.incoming label var = none) (value : Value) :
    ∀ other asked content,
      (asked, content) ∈ Function.update recording.joined label
          (recording.joined label ++ [(var, value)]) other →
        recording.received label var value other asked = some content := by
  intro other asked content member
  by_cases same : other = label
  · subst same
    rw [Function.update_self, List.mem_append, List.mem_singleton] at member
    rcases member with old | new
    · exact tracked.joins_received (.inl fresh) other asked content old
    · cases new
      simp [received]
  · rw [Function.update_of_ne same] at member
    exact tracked.joins_received (.inl fresh) other asked content member

theorem distinct_joined (tracked : recording.Tracked) {label : Label} {var : Variable}
    (fresh : recording.incoming label var = none) (value : Value) (other : Label) :
    ((Function.update recording.joined label
      (recording.joined label ++ [(var, value)]) other).map Prod.fst).Nodup := by
  by_cases same : other = label
  · subst same
    rw [Function.update_self, List.map_append]
    refine List.nodup_append.mpr ⟨tracked.distinct other, List.nodup_singleton _, ?_⟩
    intro asked old given new equal
    obtain ⟨⟨first, content⟩, member, rfl⟩ := List.mem_map.mp old
    cases List.mem_singleton.mp new
    have holds := tracked.joins other first content member
    rw [show first = var from equal, fresh] at holds
    cases holds
  · rw [Function.update_of_ne same]
    exact tracked.distinct other

theorem resolve (tracked : recording.Tracked) (step : Resolve recording later) :
    later.Tracked := by
  cases step with
  | pend label var type inside unsealed unknown fresh declared =>
      have undefined := (tracked.untouched unknown).2
      have place := recording.inside inside
      constructor
      · intro other
        simp only [pend, tracked.received_of_undefined undefined]
        funext asked
        rw [Builder.known_withKnown _ _ _ _ _ (by simpa using place)]
        by_cases same : other = label <;> by_cases equal : asked = var <;> simp [same, equal]
      · simpa only [pend] using tracked.uses_received undefined (.inl fresh)
      · exact tracked.joins_joined fresh _
      · exact tracked.distinct_joined fresh _
      · intro other unsealedHere
        simp only [pend, Builder.isSealed_withKnown, Builder.isSealed_withPending,
          Builder.state_withParameter] at unsealedHere
        simp only [pend, Builder.pending_withKnown,
          Builder.state_withPending _ _ _ _ _ (show label.index <
            (recording.builder.withParameter label type).states.size by simpa using place)]
        by_cases same : other = label
        · subst same
          simp [tracked.pending other unsealedHere]
        · simp [same, tracked.pending other unsealedHere]
      · simpa [pend] using tracked.alone
  | zero label var type inside closed alone unknown fresh declared =>
      have undefined := (tracked.untouched unknown).2
      have place := recording.inside inside
      constructor
      · intro other
        simp only [zero, tracked.received_of_undefined undefined]
        funext asked
        rw [Builder.known_withKnown _ _ _ _ _ (by simpa using place)]
        by_cases same : other = label <;> by_cases equal : asked = var <;> simp [same, equal]
      · simpa only [zero] using tracked.uses_received undefined (.inl fresh)
      · exact tracked.joins_received (.inl fresh)
      · exact tracked.distinct
      · simpa [zero] using tracked.pending
      · intro other nonempty
        by_cases same : other = label
        · subst same
          simpa [zero] using ⟨closed, alone⟩
        · simp only [zero, Function.update_of_ne same] at nonempty
          simpa [zero] using tracked.alone other nonempty
  | inherit label var edge value inside closed only source fresh =>
      have place := recording.inside inside
      rcases fresh with ⟨unknown, fresh⟩ | ⟨twice, received⟩
      · have undefined := (tracked.untouched unknown).2
        constructor
        · intro other
          simp only [inherit, tracked.received_of_undefined undefined]
          funext asked
          rw [Builder.known_withKnown _ _ _ _ _ place]
          by_cases same : other = label <;> by_cases equal : asked = var <;> simp [same, equal]
        · simpa only [inherit] using tracked.uses_received undefined (.inl fresh)
        · exact tracked.joins_received (.inl fresh)
        · exact tracked.distinct
        · simpa [inherit] using tracked.pending
        · simpa [inherit] using tracked.alone
      · have unchanged := recording.received_of_incoming received
        constructor
        · intro other
          simp only [inherit, unchanged, ← tracked.known other]
          funext asked
          rw [Builder.known_withKnown _ _ _ _ _ place]
          split
          · rename_i here
            rw [here.1, here.2, twice]
          · rfl
        · simpa only [inherit, unchanged] using tracked.uses
        · simpa only [inherit, unchanged] using tracked.joins
        · exact tracked.distinct
        · simpa [inherit] using tracked.pending
        · simpa [inherit] using tracked.alone
  | join label var type inside closed several unknown fresh declared =>
      have undefined := (tracked.untouched unknown).2
      have place := recording.inside inside
      constructor
      · intro other
        simp only [join, tracked.received_of_undefined undefined]
        funext asked
        rw [Builder.known_withKnown _ _ _ _ _ (by simpa using place)]
        by_cases same : other = label <;> by_cases equal : asked = var <;> simp [same, equal]
      · simpa only [join] using tracked.uses_received undefined (.inl fresh)
      · exact tracked.joins_joined fresh _
      · exact tracked.distinct_joined fresh _
      · intro other unsealedHere
        have different : other ≠ label := by
          intro same
          subst same
          simp [join, closed] at unsealedHere
        simp only [join, Builder.isSealed_withKnown, Builder.state_withParameter] at unsealedHere
        simp [join, different, tracked.pending other unsealedHere]
      · simpa [join] using tracked.alone
  | pass label edge var param value member next source =>
      exact ⟨tracked.known, tracked.uses, tracked.joins, tracked.distinct, tracked.pending,
        tracked.alone⟩

theorem move {entry : Option Label} (tracked : recording.Tracked)
    (scripted : recording.Scripted) (step : Move entry recording later) : later.Tracked := by
  cases step with
  | resolve step => exact tracked.resolve step
  | create =>
      constructor
      · simpa [Recording.create] using tracked.known
      · exact tracked.uses
      · exact tracked.joins
      · exact tracked.distinct
      · simpa [Recording.create] using tracked.pending
      · simpa [Recording.create] using tracked.alone
  | switch label inside left =>
      constructor
      · simpa [Recording.switch] using tracked.known
      · exact tracked.uses
      · exact tracked.joins
      · exact tracked.distinct
      · simpa [Recording.switch] using tracked.pending
      · simpa [Recording.switch] using tracked.alone
  | parameter label type inside ready early =>
      exact ⟨tracked.known, tracked.uses, tracked.joins, tracked.distinct, tracked.pending,
        tracked.alone⟩
  | declare var type unknown =>
      exact ⟨tracked.known, tracked.uses, tracked.joins, tracked.distinct, tracked.pending,
        tracked.alone⟩
  | define label var type value current declared typed early =>
      have place := recording.inside (scripted.current label current)
      constructor
      · intro other
        funext asked
        simp only [Recording.define, noted]
        rw [Builder.known_withKnown _ _ _ _ _ place, tracked.known other]
        by_cases same : other = label
        · subst same
          by_cases equal : asked = var
          · subst equal
            simp [settle_append]
          · simp [settle_append, equal]
        · simp [same]
      · intro other before asked content behind split
        rcases noted_split split with ⟨rest, old, _⟩ | ⟨_, new, _⟩
        · exact tracked.uses other before asked content rest old
        · cases new
      · exact tracked.joins
      · exact tracked.distinct
      · simpa [Recording.define] using tracked.pending
      · simpa [Recording.define] using tracked.alone
  | use label var value current holds early =>
      constructor
      · intro other
        simp only [Recording.use, noted]
        by_cases same : other = label
        · subst same
          simp [settle_append, tracked.known other]
        · simp [same, tracked.known other]
      · intro other before asked content behind split
        rcases noted_split split with ⟨rest, old, _⟩ | ⟨rfl, new, rfl, _⟩
        · exact tracked.uses other before asked content rest old
        · cases new
          rw [tracked.known other] at holds
          exact holds
      · exact tracked.joins
      · exact tracked.distinct
      · exact tracked.pending
      · exact tracked.alone
  | close label inside unsealed complete =>
      have place := recording.inside inside
      constructor
      · simpa [Recording.close] using tracked.known
      · exact tracked.uses
      · exact tracked.joins
      · exact tracked.distinct
      · intro other unsealedHere
        simp only [Recording.close, Builder.state_withSeal _ _ _ place] at unsealedHere ⊢
        by_cases same : other = label
        · simp [same] at unsealedHere
        · simp only [same, if_false] at unsealedHere ⊢
          exact tracked.pending other unsealedHere
      · intro other nonempty
        obtain ⟨closed, none⟩ := tracked.alone other nonempty
        simp only [Recording.close, Builder.state_withSeal _ _ _ place]
        by_cases same : other = label
        · rw [same] at none
          simp [same, none]
        · simp [same, closed, none]
  | emit label operation types current unfinished operands fits =>
      have targets : ∀ destination ∈ operation.destinations,
          destination.block.index < recording.builder.states.size := fun destination member =>
        recording.inside (fits.destination member).1
      constructor
      · intro other
        simp only [Recording.emit, noted, Builder.known_withInstruction, tracked.known other]
        by_cases same : other = label
        · subst same
          simp [settle_append]
        · simp [same]
      · intro other before asked content behind split
        rcases noted_split split with ⟨rest, old, _⟩ | ⟨_, new, _⟩
        · exact tracked.uses other before asked content rest old
        · cases new
      · exact tracked.joins
      · exact tracked.distinct
      · simpa [Recording.emit] using tracked.pending
      · intro other nonempty
        obtain ⟨closed, none⟩ := tracked.alone other nonempty
        refine ⟨by simpa [Recording.emit] using closed, ?_⟩
        simp only [Recording.emit, Builder.state_withInstruction _ _ _ _ _ targets, none,
          List.nil_append]
        exact fits.edgesTo_eq_nil closed label
  | refer external unknown =>
      exact ⟨tracked.known, tracked.uses, tracked.joins, tracked.distinct, tracked.pending,
        tracked.alone⟩
  | reserve size =>
      exact ⟨tracked.known, tracked.uses, tracked.joins, tracked.distinct, tracked.pending,
        tracked.alone⟩

end Tracked

end Recording

end ExprLang.Ssa
