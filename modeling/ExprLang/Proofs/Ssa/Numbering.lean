import ExprLang.Proofs.Ssa.Shape

/-!
# Numbers of values

Values are numbered in the order in which they are made. So the parameters of a block have higher
numbers than all values that were there before the block was made, also those parameters that a
lookup adds much later.
-/

namespace ExprLang.Ssa

theorem Grows.size_le {recording later : Recording} (grows : Grows recording later) :
    recording.builder.function.values.size ≤ later.builder.function.values.size := by
  by_contra fewer
  have inside : later.builder.function.values.size < recording.builder.function.values.size := by
    omega
  have found := grows.value ⟨later.builder.function.values.size⟩ _
    (Array.getElem?_eq_getElem inside)
  simp [Function.value?] at found

namespace Recording

structure Rising (recording : Recording) (blocks values : Nat) : Prop where
  size : values ≤ recording.builder.function.values.size
  explicit : ∀ label : Label, blocks ≤ label.index → ∀ value ∈ recording.explicit label,
    values ≤ value.index
  joined : ∀ label : Label, blocks ≤ label.index → ∀ item ∈ recording.joined label,
    values ≤ item.2.index

namespace Rising

variable {recording later : Recording} {blocks values : Nat}

theorem start (sound : Sound recording) :
    recording.Rising recording.shape.blocks recording.builder.function.values.size where
  size := Nat.le_refl _
  explicit label outside value member := by
    have none : recording.explicit label = [] := (bare sound).explicit label outside
    rw [none] at member
    cases member
  joined label outside item member := by
    have parameters := (sound.linked.parameters label).length_eq
    have absent : recording.builder.function.block? label = none := by
      simpa [Function.block?, shape] using outside
    rw [Function.block, absent, List.length_append, List.length_map] at parameters
    have empty : (recording.joined label).length = 0 := by
      simp only [Option.getD_none, Block.empty, List.length_nil] at parameters
      omega
    rw [List.length_eq_zero_iff.mp empty] at member
    cases member

theorem joined_updated (rising : recording.Rising blocks values) {label : Label} {var : Variable}
    (other : Label) (outside : blocks ≤ other.index) :
    ∀ item ∈ Function.update recording.joined label
      (recording.joined label ++ [(var, recording.builder.nextValue)]) other,
      values ≤ item.2.index := by
  intro item member
  by_cases same : other = label
  · subst same
    rw [Function.update_self, List.mem_append, List.mem_singleton] at member
    rcases member with old | rfl
    · exact rising.joined other outside item old
    · exact rising.size
  · rw [Function.update_of_ne same] at member
    exact rising.joined other outside item member

theorem resolve (rising : recording.Rising blocks values) (step : Resolve recording later) :
    later.Rising blocks values := by
  have size := rising.size.trans step.grows.size_le
  cases step with
  | pend | join => exact ⟨size, rising.explicit, rising.joined_updated⟩
  | zero | inherit | pass => exact ⟨size, rising.explicit, rising.joined⟩

theorem move {entry : Option Label} (rising : recording.Rising blocks values)
    (step : Move entry recording later) : later.Rising blocks values := by
  have size := rising.size.trans step.grows.size_le
  cases step with
  | resolve step => exact rising.resolve step
  | parameter label type =>
      refine ⟨size, fun other outside value member => ?_, rising.joined⟩
      simp only [Recording.parameter] at member
      by_cases same : other = label
      · subst same
        rw [Function.update_self, List.mem_append, List.mem_singleton] at member
        rcases member with old | rfl
        · exact rising.explicit other outside value old
        · exact rising.size
      · rw [Function.update_of_ne same] at member
        exact rising.explicit other outside value member
  | create | switch | declare | define | use | close | emit | refer | reserve =>
      exact ⟨size, rising.explicit, rising.joined⟩

theorem moves {entry : Option Label} (rising : recording.Rising blocks values)
    (steps : Moves entry recording later) : later.Rising blocks values := by
  induction steps with
  | refl => exact rising
  | tail _ step induction => exact induction.move step

end Rising

end Recording

theorem Moves.parameter_le {entry : Option Label} {recording later : Recording}
    (steps : Moves entry recording later) (sound : Sound recording) {label : Label}
    (new : recording.shape.blocks ≤ label.index) {value : Value}
    (member : value ∈ (later.builder.function.block label).parameters) :
    recording.builder.function.values.size ≤ value.index := by
  have rising := (Recording.Rising.start sound).moves steps
  rw [((sound.moves steps).linked.parameters label).mem_iff, List.mem_append,
    List.mem_map] at member
  rcases member with asked | ⟨item, joined, rfl⟩
  · exact rising.explicit label new value asked
  · exact rising.joined label new item joined

/-! ## Parameters -/

namespace Recording

variable {recording later : Recording}

theorem parameters_withParameter {label : Label}
    (inside : recording.builder.hasBlock label = true) (type : MachineType) (other : Label) :
    (recording.builder.function.block other).parameters <+:
      ((recording.builder.withParameter label type).function.block other).parameters := by
  rw [Builder.block_withParameter _ _ _ _ inside]
  split
  · rename_i same
    subst same
    exact List.prefix_append _ _
  · exact List.prefix_refl _

theorem parameters_resolve (step : Resolve recording later) (other : Label) :
    (recording.builder.function.block other).parameters <+:
      (later.builder.function.block other).parameters := by
  cases step with
  | pend label var type inside => exact parameters_withParameter inside type other
  | join label var type inside => exact parameters_withParameter inside type other
  | zero => simp [zero]
  | inherit => exact List.prefix_refl _
  | pass => simp [pass]

theorem parameters_move {entry : Option Label} (step : Move entry recording later)
    (other : Label) :
    (recording.builder.function.block other).parameters <+:
      (later.builder.function.block other).parameters := by
  cases step with
  | resolve step => exact parameters_resolve step other
  | parameter label type inside => exact parameters_withParameter inside type other
  | create => simp [Recording.create]
  | switch => simp [Recording.switch]
  | emit => simp [Recording.emit]
  | declare | define | use | close | refer | reserve => exact List.prefix_refl _

end Recording

theorem Moves.parameters {entry : Option Label} {recording later : Recording}
    (steps : Moves entry recording later) (label : Label) :
    (recording.builder.function.block label).parameters <+:
      (later.builder.function.block label).parameters := by
  induction steps with
  | refl => exact List.prefix_refl _
  | tail _ step induction => exact induction.trans (Recording.parameters_move step label)

end ExprLang.Ssa
