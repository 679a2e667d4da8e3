import ExprLang.Proofs.Ssa.Tracking

/-!
# Recordings only grow

Whatever a move does, nothing that was recorded is lost: scripts and parameters get longer,
values keep what is known about them, and once a block is sealed no branch to it is added.
-/

namespace ExprLang.Ssa

structure Grows (recording later : Recording) : Prop where
  hasBlock : ∀ label, recording.builder.hasBlock label = true →
    later.builder.hasBlock label = true
  value : ∀ value info, recording.builder.function.value? value = some info →
    later.builder.function.value? value = some info
  script : ∀ label, recording.script label <+: later.script label
  zeros : ∀ label, recording.zeros label <:+ later.zeros label
  explicit : ∀ label, recording.explicit label <+: later.explicit label
  joined : ∀ label, recording.joined label <+: later.joined label
  incoming : ∀ label var value, recording.incoming label var = some value →
    later.incoming label var = some value
  isSealed : ∀ label, (recording.builder.state label).isSealed = true →
    (later.builder.state label).isSealed = true ∧
      (later.builder.state label).predecessors = (recording.builder.state label).predecessors
  predecessors : ∀ label, (recording.builder.state label).predecessors <+:
    (later.builder.state label).predecessors
  layout : recording.builder.function.layout <+: later.builder.function.layout
  slot : ∀ (index : Nat) size, recording.builder.function.slots[index]? = some size →
    later.builder.function.slots[index]? = some size
  reference : ∀ (index : Nat) external,
    recording.builder.function.references[index]? = some external →
    later.builder.function.references[index]? = some external
  declared : ∀ var type, recording.builder.declared.lookup var = some type →
    later.builder.declared.lookup var = some type
  name : later.builder.function.name = recording.builder.function.name
  prototype : later.builder.function.prototype = recording.builder.function.prototype
  id : later.builder.id = recording.builder.id

namespace Grows

variable {recording middle later : Recording}

theorem refl (recording : Recording) : Grows recording recording where
  hasBlock _ inside := inside
  value _ _ found := found
  script _ := List.prefix_refl _
  zeros _ := List.suffix_refl _
  explicit _ := List.prefix_refl _
  joined _ := List.prefix_refl _
  incoming _ _ _ holds := holds
  isSealed _ closed := ⟨closed, rfl⟩
  predecessors _ := List.prefix_refl _
  layout := List.prefix_refl _
  slot _ _ found := found
  reference _ _ found := found
  declared _ _ found := found
  name := rfl
  prototype := rfl
  id := rfl

theorem trans (first : Grows recording middle) (second : Grows middle later) :
    Grows recording later where
  hasBlock label inside := second.hasBlock label (first.hasBlock label inside)
  value value info found := second.value value info (first.value value info found)
  script label := (first.script label).trans (second.script label)
  zeros label := (first.zeros label).trans (second.zeros label)
  explicit label := (first.explicit label).trans (second.explicit label)
  joined label := (first.joined label).trans (second.joined label)
  incoming label var value holds :=
    second.incoming label var value (first.incoming label var value holds)
  isSealed label closed := by
    obtain ⟨closedThen, same⟩ := first.isSealed label closed
    obtain ⟨closedLater, sameLater⟩ := second.isSealed label closedThen
    exact ⟨closedLater, sameLater.trans same⟩
  predecessors label := (first.predecessors label).trans (second.predecessors label)
  layout := first.layout.trans second.layout
  slot index size found := second.slot index size (first.slot index size found)
  reference index external found :=
    second.reference index external (first.reference index external found)
  declared var type found := second.declared var type (first.declared var type found)
  name := second.name.trans first.name
  prototype := second.prototype.trans first.prototype
  id := second.id.trans first.id

theorem type? (grows : Grows recording later) {value : Value} {type : MachineType}
    (typed : recording.builder.function.type? value = some type) :
    later.builder.function.type? value = some type := by
  simp only [Function.type?, Option.map_eq_some_iff] at typed ⊢
  obtain ⟨info, found, equal⟩ := typed
  exact ⟨info, grows.value value info found, equal⟩

end Grows

namespace Recording

variable (recording : Recording)

theorem joined_updated (label : Label) (entry : Variable × Value) (other : Label) :
    recording.joined other <+: Function.update recording.joined label
      (recording.joined label ++ [entry]) other := by
  by_cases same : other = label
  · subst same
    rw [Function.update_self]
    exact List.prefix_append _ _
  · rw [Function.update_of_ne same]

theorem script_noted (label : Label) (event : Event) (other : Label) :
    recording.script other <+: recording.noted label event other := by
  by_cases same : other = label
  · subst same
    rw [noted, Function.update_self]
    exact List.prefix_append _ _
  · rw [noted, Function.update_of_ne same]

end Recording

theorem value?_push {values : Array ValueInfo} {value : Value} {info new : ValueInfo}
    (found : values[value.index]? = some info) :
    (values.push new)[value.index]? = some info := by
  have inside := (Array.getElem?_eq_some_iff.mp found).1
  rw [Array.getElem?_push, if_neg (Nat.ne_of_lt inside), found]

theorem Resolve.grows {recording later : Recording} (step : Resolve recording later) :
    Grows recording later := by
  cases step with
  | pend label var type inside unsealed unknown fresh declared =>
      exact { Grows.refl recording with
        hasBlock := by simp [Recording.pend]
        value := fun value info found => value?_push found
        joined := recording.joined_updated label _
        incoming := recording.incoming_received (.inl fresh)
        isSealed := by simp [Recording.pend]
        predecessors := by simp [Recording.pend] }
  | zero label var type inside closed alone unknown fresh declared =>
      exact { Grows.refl recording with
        hasBlock := by simp [Recording.zero]
        value := fun value info found => value?_push found
        zeros := by
          intro other
          simp only [Recording.zero]
          by_cases same : other = label
          · subst same
            rw [Function.update_self]
            exact List.suffix_cons _ _
          · rw [Function.update_of_ne same]
        incoming := recording.incoming_received (.inl fresh)
        isSealed := by simp [Recording.zero]
        predecessors := by simp [Recording.zero] }
  | inherit label var edge value inside closed only source fresh =>
      exact { Grows.refl recording with
        incoming := recording.incoming_received (fresh.imp And.right And.right)
        isSealed := by simp [Recording.inherit]
        predecessors := by simp [Recording.inherit] }
  | join label var type inside closed several unknown fresh declared =>
      exact { Grows.refl recording with
        hasBlock := by simp [Recording.join]
        value := fun value info found => value?_push found
        joined := recording.joined_updated label _
        incoming := recording.incoming_received (.inl fresh)
        isSealed := by simp [Recording.join]
        predecessors := by simp [Recording.join] }
  | pass label edge var param value member next source =>
      exact { Grows.refl recording with
        hasBlock := by simp [Recording.pass] }

theorem Grows.switch (recording : Recording) (label : Label) :
    Grows recording (recording.switch label) := by
  have shape : (recording.builder.withCurrent label).function =
      { recording.builder.function with
        layout := recording.builder.function.layout ++
          if (recording.builder.state label).isPlaced then [] else [label] } := by
    simp only [Builder.withCurrent]
    split <;> simp
  have declared : (recording.builder.withCurrent label).declared =
      recording.builder.declared := by
    simp only [Builder.withCurrent]
    split <;> rfl
  exact { Grows.refl recording with
    hasBlock := by simp [Recording.switch]
    value := by simp [Recording.switch, shape, Function.value?]
    isSealed := by simp [Recording.switch]
    predecessors := by simp [Recording.switch]
    layout := by simp [Recording.switch, shape]
    slot := by simp [Recording.switch, shape]
    reference := by simp [Recording.switch, shape]
    declared := by simp [Recording.switch, declared]
    name := by simp [Recording.switch, shape]
    prototype := by simp [Recording.switch, shape]
    id := by
      simp only [Recording.switch, Builder.withCurrent]
      split <;> rfl }

theorem Grows.emit {recording : Recording} {operation : Operation} {types : List MachineType}
    (label : Label) (fits : operation.Fits recording.builder types) :
    Grows recording (recording.emit label operation types) := by
  have targets : ∀ destination ∈ operation.destinations,
      destination.block.index < recording.builder.states.size := fun destination member =>
    recording.inside (fits.destination member).1
  exact { Grows.refl recording with
    hasBlock := by simp [Recording.emit]
    value := by
      intro value info found
      simp only [Function.value?] at found
      have inside := (Array.getElem?_eq_some_iff.mp found).1
      simp only [Recording.emit, Builder.withInstruction, Builder.function_withEdges,
        Builder.modifyBlock, Builder.withValues, Function.value?]
      rw [Array.getElem?_append_left inside, found]
    script := recording.script_noted label _
    isSealed := by
      intro other closed
      refine ⟨by simpa [Recording.emit] using closed, ?_⟩
      simp only [Recording.emit, Builder.state_withInstruction _ _ _ _ _ targets]
      rw [fits.edgesTo_eq_nil closed, List.append_nil]
    predecessors := by
      intro other
      simp only [Recording.emit, Builder.state_withInstruction _ _ _ _ _ targets]
      exact List.prefix_append _ _
    layout := by simp [Recording.emit, Builder.withInstruction, Builder.modifyBlock,
      Builder.withValues]
    slot := by simp [Recording.emit, Builder.withInstruction, Builder.modifyBlock,
      Builder.withValues]
    reference := by simp [Recording.emit, Builder.withInstruction, Builder.modifyBlock,
      Builder.withValues]
    declared := by simp [Recording.emit, Builder.withInstruction, Builder.modifyBlock,
      Builder.withValues]
    name := by simp [Recording.emit, Builder.withInstruction, Builder.modifyBlock,
      Builder.withValues]
    prototype := by simp [Recording.emit, Builder.withInstruction, Builder.modifyBlock,
      Builder.withValues]
    id := by simp [Recording.emit, Builder.withInstruction, Builder.modifyBlock,
      Builder.withValues] }

theorem Move.grows {entry : Option Label} {recording later : Recording}
    (step : Move entry recording later) : Grows recording later := by
  cases step with
  | resolve step => exact step.grows
  | create =>
      exact { Grows.refl recording with
        hasBlock := by
          intro label inside
          simp only [Builder.hasBlock, decide_eq_true_eq] at inside
          simp only [Recording.create, Builder.hasBlock_withBlock, decide_eq_true_eq]
          omega
        isSealed := by simp [Recording.create]
        predecessors := by simp [Recording.create] }
  | switch label => exact .switch recording label
  | parameter label type inside ready early =>
      exact { Grows.refl recording with
        hasBlock := by simp [Recording.parameter]
        value := fun value info found => value?_push found
        explicit := by
          intro other
          simp only [Recording.parameter]
          by_cases same : other = label
          · subst same
            rw [Function.update_self]
            exact List.prefix_append _ _
          · rw [Function.update_of_ne same] }
  | declare var type unknown =>
      exact { Grows.refl recording with
        declared := by
          intro asked found holds
          simp [Recording.declare, List.lookup_append, holds] }
  | define label var type value current declared typed early =>
      exact { Grows.refl recording with
        script := recording.script_noted label _
        isSealed := by simp [Recording.define]
        predecessors := by simp [Recording.define] }
  | use label var value current holds early =>
      exact { Grows.refl recording with
        script := recording.script_noted label _ }
  | close label inside unsealed complete =>
      have place := recording.inside inside
      exact { Grows.refl recording with
        isSealed := by
          intro other closed
          refine ⟨?_, by simp [Recording.close]⟩
          simp only [Recording.close, Builder.state_withSeal _ _ _ place]
          split
          · rfl
          · exact closed
        predecessors := by simp [Recording.close] }
  | emit label operation types _ _ _ fits => exact .emit label fits
  | refer external unknown =>
      exact { Grows.refl recording with
        reference := by
          intro index other found
          have inside := (Array.getElem?_eq_some_iff.mp found).1
          simp only [Recording.refer]
          rw [Array.getElem?_push, if_neg (Nat.ne_of_lt inside), found] }
  | reserve size =>
      exact { Grows.refl recording with
        slot := by
          intro index other found
          have inside := (Array.getElem?_eq_some_iff.mp found).1
          simp only [Recording.reserve]
          rw [Array.getElem?_push, if_neg (Nat.ne_of_lt inside), found] }

theorem Moves.grows {entry : Option Label} {recording later : Recording}
    (steps : Moves entry recording later) : Grows recording later := by
  induction steps with
  | refl => exact .refl recording
  | tail _ step induction => exact induction.trans step.grows

end ExprLang.Ssa
