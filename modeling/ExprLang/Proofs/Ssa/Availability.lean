import ExprLang.Proofs.Ssa.Construction
import ExprLang.Proofs.Ssa.Verification

/-!
# Availability in finished functions

If every value that the caller of a builder hands in is available where it is handed in, then
so is every value in the finished function where it is used, whatever lookups have added.
-/

namespace ExprLang.Ssa

theorem emitted_getElem? {events : List Event} {index : Nat} {instruction : Instruction}
    (found : (emitted events)[index]? = some instruction) :
    ∃ before behind, events = before ++ .instruction instruction :: behind ∧
      (emitted before).length = index := by
  induction events generalizing index with
  | nil => cases found
  | cons event rest induction =>
      cases event with
      | instruction first =>
          rw [emitted_instruction] at found
          cases index with
          | zero =>
              cases found
              exact ⟨[], rest, rfl, rfl⟩
          | succ index =>
              obtain ⟨before, behind, split, count⟩ := induction found
              exact ⟨.instruction first :: before, behind, by rw [split]; rfl,
                by simp [count]⟩
      | define var value =>
          obtain ⟨before, behind, split, count⟩ := induction found
          exact ⟨.define var value :: before, behind, by rw [split]; rfl, count⟩
      | use var value =>
          obtain ⟨before, behind, split, count⟩ := induction found
          exact ⟨.use var value :: before, behind, by rw [split]; rfl, count⟩

theorem find?_of_nodup [DecidableEq β] {items : List α} {key : α → β}
    (distinct : (items.map key).Nodup) {item : α} (member : item ∈ items) :
    (items.find? fun other => key other = key item) = some item := by
  obtain ⟨before, behind, rfl⟩ := List.append_of_mem member
  rw [List.map_append, List.nodup_append] at distinct
  rw [List.find?_eq_some_iff_append]
  refine ⟨by simp, before, behind, rfl, fun other early => ?_⟩
  simpa using distinct.2.2 (key other) (List.mem_map_of_mem early) (key item) (by simp)

theorem forall₂_mem_right {relation : α → β → Prop} {left : List α} {right : List β}
    (related : List.Forall₂ relation left right) {item : β} (member : item ∈ right) :
    ∃ other, relation other item := by
  induction related with
  | nil => cases member
  | cons first _ induction =>
      rcases List.mem_cons.mp member with rfl | later
      · exact ⟨_, first⟩
      · exact induction later

theorem forall₂_mem_left {relation : α → β → Prop} {left : List α} {right : List β}
    (related : List.Forall₂ relation left right) {item : α} (member : item ∈ left) :
    ∃ other ∈ right, relation item other := by
  induction related with
  | nil => cases member
  | cons first _ induction =>
      rcases List.mem_cons.mp member with rfl | later
      · exact ⟨_, List.mem_cons_self, first⟩
      · obtain ⟨other, inside, holds⟩ := induction later
        exact ⟨other, List.mem_cons_of_mem _ inside, holds⟩

/-- A builder accepts a function exactly if nothing was done wrong, every block in use is
placed and sealed, and the function is well formed. -/
theorem Builder.finalize_eq_ok {builder : Builder} :
    builder.finalize = .ok () ↔ builder.misuse = none ∧
      (∀ label, (builder.state label).isPlaced = true →
        (builder.state label).isSealed = true) ∧
      (∀ label, (builder.state label).predecessors ≠ [] →
        (builder.state label).isPlaced = true) ∧
      ∃ entry, builder.function.Verified entry := by
  have each : ((List.range builder.states.size).findSome? fun index =>
      builder.unfinished? ⟨index⟩) = none ↔
      (∀ label, (builder.state label).isPlaced = true →
        (builder.state label).isSealed = true) ∧
      ∀ label, (builder.state label).predecessors ≠ [] →
        (builder.state label).isPlaced = true := by
    rw [List.findSome?_eq_none_iff]
    have one : ∀ label, builder.unfinished? label = none ↔
        ((builder.state label).isPlaced = true → (builder.state label).isSealed = true) ∧
        ((builder.state label).predecessors ≠ [] →
          (builder.state label).isPlaced = true) := by
      intro label
      rw [unfinished?]
      cases (builder.state label).isPlaced <;> cases (builder.state label).isSealed <;> simp
    have outside : ∀ label : Label, ¬ label.index < builder.states.size →
        builder.state label = .fresh := by
      intro label absent
      simp [state, absent]
    constructor
    · intro all
      have every : ∀ label, builder.unfinished? label = none := by
        intro label
        by_cases inside : label.index < builder.states.size
        · exact all label.index (List.mem_range.mpr inside)
        · simp [unfinished?, outside label inside, BlockState.fresh]
      exact ⟨fun label => ((one label).mp (every label)).1,
        fun label => ((one label).mp (every label)).2⟩
    · rintro ⟨closed, filled⟩ index _
      exact (one ⟨index⟩).mpr ⟨closed ⟨index⟩, filled ⟨index⟩⟩
  rw [finalize, error?]
  cases misuse : builder.misuse with
  | some _ => simp
  | none =>
      simp only [Option.map_none, true_and]
      rw [← and_assoc, ← each, ← Function.verify_eq_ok]
      split
      · rename_i found
        simp [found]
      · rename_i none
        simp [none, mapError_eq_ok]

structure Finished (entry : Label) (recording : Recording) : Prop where
  sound : Sound recording
  reliable : recording.Reliable entry
  settled : recording.Settled
  verified : recording.builder.function.Verified entry
  closed : ∀ label, (recording.builder.state label).isPlaced = true →
    (recording.builder.state label).isSealed = true
  filled : ∀ label, (recording.builder.state label).predecessors ≠ [] →
    (recording.builder.state label).isPlaced = true

namespace Recording

variable {recording : Recording}

theorem Scripted.mem_successors (scripted : recording.Scripted) {source target : Label} :
    target ∈ (recording.builder.function.block source).successors ↔
      ∃ edge ∈ (recording.builder.state target).predecessors, edge.source = source := by
  rw [Block.successors, scripted.code source]
  rcases List.eq_nil_or_concat (emitted (recording.script source)) with
    empty | ⟨rest, last, split⟩
  · -- Only zeros are in the block, so control cannot leave it.
    have closed : ¬ ∃ edge ∈ (recording.builder.state target).predecessors,
        edge.source = source := by
      rintro ⟨edge, member, rfl⟩
      obtain ⟨before, final, split, _⟩ := scripted.split_of_edge member
      simp [empty] at split
    rw [empty, List.map_nil, List.append_nil, iff_false_right closed]
    rcases List.eq_nil_or_concat (recording.zeros source) with none | ⟨zeros, zero, equal⟩
    · simp [none]
    · simp [equal, Builder.zeroInstruction, Operation.destinations]
  · have successors : target ∈ last.operation.destinations.map Destination.block ↔
        ∃ edge ∈ (recording.builder.state target).predecessors, edge.source = source := by
      constructor
      · intro member
        obtain ⟨destination, inside, target⟩ := List.mem_map.mp member
        obtain ⟨side, place⟩ := List.mem_iff_getElem?.mp inside
        exact ⟨⟨source, side⟩, (scripted.edges _ _).mpr ⟨last, by simp [split],
          destination, place, target⟩, rfl⟩
      · rintro ⟨edge, member, rfl⟩
        obtain ⟨before, final, again, destination, found, target⟩ :=
          scripted.split_of_edge member
        rw [split, List.concat_eq_append] at again
        obtain ⟨_, same⟩ := List.append_inj' again rfl
        cases same
        exact List.mem_map.mpr ⟨destination, List.mem_of_getElem? found, target⟩
    rw [← successors]
    simp [split, Instruction.extend]

def point (recording : Recording) (label : Label) (before : List Event) : Nat :=
  (recording.zeros label).length + (emitted before).length

/-- Everything that is handed in is available there in the end. -/
def HandsAvailable (recording : Recording) : Prop :=
  ∀ label before event behind, recording.script label = before ++ event :: behind →
    ∀ value ∈ event.handed,
      recording.builder.function.Available label (recording.point label before) value

end Recording

/-- What a branch of a verified function passes fits the parameters of the block that it leads
to. -/
theorem Sound.leads {recording : Recording} (sound : Sound recording) {entry : Label}
    (verified : recording.builder.function.Verified entry) {source : Label} {side : Nat}
    {instruction : Instruction} (member : instruction ∈ emitted (recording.script source))
    {destination : Destination}
    (found : instruction.operation.destinations[side]? = some destination) :
    recording.builder.function.Leads entry
      ⟨destination.block, destination.arguments ++ recording.appended ⟨source, side⟩⟩ := by
  have nonempty : recording.script source ≠ [] := by
    intro empty
    rw [empty] at member
    cases member
  have placed := (sound.laid.placed source).mpr (sound.laid.filled source nonempty)
  refine (verified.blocks source placed).leads
    (instruction.extend fun side => recording.appended ⟨source, side⟩) ?_ _ ?_
  · rw [sound.scripted.code source]
    exact List.mem_append_right _ (List.mem_map.mpr ⟨instruction, member, rfl⟩)
  · refine List.mem_append_left _ (List.mem_iff_getElem?.mpr ⟨side, ?_⟩)
    rw [Instruction.extend, Operation.destinations_extend, found]
    rfl

namespace Finished

variable {entry : Label} {recording : Recording}

/-- What a branch passes fits the parameters of the block that it leads to. -/
theorem leads (finished : Finished entry recording) {source : Label} {side : Nat}
    {instruction : Instruction} (member : instruction ∈ emitted (recording.script source))
    {destination : Destination}
    (found : instruction.operation.destinations[side]? = some destination) :
    recording.builder.function.Leads entry
      ⟨destination.block, destination.arguments ++ recording.appended ⟨source, side⟩⟩ :=
  finished.sound.leads finished.verified member found

theorem predecessors_entry (finished : Finished entry recording) :
    (recording.builder.state entry).predecessors = [] := by
  rw [List.eq_nil_iff_forall_not_mem]
  intro edge member
  obtain ⟨instruction, emittedHere, destination, found, target⟩ :=
    (finished.sound.scripted.edges entry edge).mp member
  exact (finished.leads emittedHere found).different target

theorem edge_of_next (finished : Finished entry recording) {label source : Label}
    (target : label ∈ (recording.builder.function.block source).successors) :
    ∃ edge ∈ (recording.builder.state label).predecessors, edge.source = source :=
  finished.sound.scripted.mem_successors.mp target

theorem zeros_eq_nil (finished : Finished entry recording) {label : Label} {edge : Edge}
    (member : edge ∈ (recording.builder.state label).predecessors) :
    recording.zeros label = [] := by
  by_contra nonempty
  have alone := (finished.sound.tracked.alone label nonempty).2
  rw [alone] at member
  cases member

theorem mem_definedBefore_of_zero (finished : Finished entry recording) {label : Label}
    {type : MachineType} {value : Value} (member : (type, value) ∈ recording.zeros label) :
    value ∈ (recording.builder.function.block label).definedBefore
      (recording.point label []) := by
  refine List.mem_append_right _ ?_
  rw [finished.sound.scripted.code label, Recording.point, emitted_nil, List.length_nil,
    Nat.add_zero, List.take_append_of_le_length (by simp), List.take_of_length_le (by simp)]
  exact List.mem_flatMap.mpr ⟨Builder.zeroInstruction type value,
    List.mem_map.mpr ⟨(type, value), member, rfl⟩, List.mem_singleton.mpr rfl⟩

theorem mem_definedBefore_of_joined (finished : Finished entry recording) {label : Label}
    {var : Variable} {value : Value} (member : (var, value) ∈ recording.joined label)
    (index : Nat) :
    value ∈ (recording.builder.function.block label).definedBefore index :=
  List.mem_append_left _ (finished.sound.linked.mem_joined member)

/-- What a variable holds at the start of a block was defined on the way there, if the values
that were handed in on shorter ways were. -/
theorem passed_incoming (finished : Finished entry recording) {label : Label}
    {earlier : List Label} (trail : recording.builder.function.Trail (label :: earlier))
    (handed : ∀ source before front event behind,
      recording.builder.function.Trail (source :: before) → before.length < earlier.length →
      recording.script source = front ++ event :: behind → ∀ value ∈ event.handed,
        ∃ passed ∈ source :: before,
          value ∈ (recording.builder.function.block passed).definitions)
    {var : Variable} {value : Value} (received : recording.incoming label var = some value) :
    value ∈ (recording.builder.function.block label).definedBefore (recording.point label []) ∨
      ∃ passed ∈ earlier, value ∈ (recording.builder.function.block passed).definitions := by
  generalize path : label :: earlier = whole at trail
  induction trail generalizing label earlier value with
  | entry first isEntry =>
      cases path
      rcases finished.reliable.sources first var value received with
        ⟨type, zero⟩ | ⟨_, edge, only, _⟩ | joined
      · exact .inl (finished.mem_definedBefore_of_zero zero)
      · rw [finished.verified.first] at isEntry
        cases isEntry
        rw [finished.predecessors_entry] at only
        cases only
      · exact .inl (finished.mem_definedBefore_of_joined joined _)
  | next source target before shorter leads induction =>
      cases path
      rcases finished.reliable.sources target var value received with
        ⟨type, zero⟩ | ⟨_, edge, only, holds⟩ | joined
      · exact .inl (finished.mem_definedBefore_of_zero zero)
      · -- The variable holds what it holds at the end of the block that was passed before.
        obtain ⟨link, member, same⟩ := finished.edge_of_next leads
        rw [only, List.mem_singleton] at member
        subst member
        subst same
        rw [finished.sound.tracked.known link.source] at holds
        right
        rcases settle_eq_some holds with old | defined
        · have there := @induction link.source before (by
            intro source others front event behind trail short
            exact handed source others front event behind trail (by
              rw [List.length_cons]
              omega)) value old rfl
          rcases there with inside | ⟨passed, member, defined⟩
          · exact ⟨link.source, List.mem_cons_self, Block.definedBefore_subset _ _ inside⟩
          · exact ⟨passed, List.mem_cons_of_mem _ member, defined⟩
        · obtain ⟨front, behind, split⟩ := List.append_of_mem defined
          exact handed _ _ _ _ _ shorter (by simp) split value (List.mem_singleton.mpr rfl)
      · exact .inl (finished.mem_definedBefore_of_joined joined _)

theorem available_incoming (finished : Finished entry recording)
    (handed : recording.HandsAvailable) {label : Label} {var : Variable} {value : Value}
    (received : recording.incoming label var = some value) :
    recording.builder.function.Available label (recording.point label []) value := by
  intro earlier trail
  refine finished.passed_incoming trail ?_ received
  intro source before front event behind shorter _ split content member
  rcases handed _ _ _ _ split content member before shorter with
    inside | ⟨passed, passedMember, defined⟩
  · exact ⟨source, List.mem_cons_self, Block.definedBefore_subset _ _ inside⟩
  · exact ⟨passed, List.mem_cons_of_mem _ passedMember, defined⟩

theorem available_settled (finished : Finished entry recording)
    (handed : recording.HandsAvailable) {label : Label} {before behind : List Event}
    (split : recording.script label = before ++ behind) {var : Variable} {value : Value}
    (holds : settle (recording.incoming label) before var = some value) :
    recording.builder.function.Available label (recording.point label before) value := by
  rcases settle_eq_some holds with received | defined
  · refine (finished.available_incoming handed received).mono ?_
    simp [Recording.point]
  · obtain ⟨front, rest, equal⟩ := List.append_of_mem defined
    have available := handed label front (.define var value) (rest ++ behind)
      (by rw [split, equal]; simp) value (List.mem_singleton.mpr rfl)
    refine available.mono ?_
    rw [equal]
    simp [Recording.point]

/-- What lookups have added to a branch is available there. -/
theorem available_added (finished : Finished entry recording)
    (handed : recording.HandsAvailable) {label : Label} {before behind : List Event}
    {instruction : Instruction}
    (split : recording.script label = before ++ .instruction instruction :: behind)
    {side : Nat} {destination : Destination}
    (leads : instruction.operation.destinations[side]? = some destination) {value : Value}
    (added : value ∈ recording.appended ⟨label, side⟩) :
    recording.builder.function.Available label (recording.point label before) value := by
  have emittedHere : instruction ∈ emitted (recording.script label) := by
    rw [mem_emitted, split]
    simp
  have edge : ⟨label, side⟩ ∈ (recording.builder.state destination.block).predecessors :=
    (finished.sound.scripted.edges _ _).mpr ⟨instruction, emittedHere, destination, leads, rfl⟩
  have terminator : instruction.isTerminator = true := by
    by_contra plain
    rw [Operation.destinations_eq_nil (by simpa [Instruction.isTerminator] using plain)] at leads
    cases leads
  cases finished.reliable.tidy label before instruction behind split terminator
  obtain ⟨item, passes⟩ := forall₂_mem_right (finished.reliable.arguments _ _ edge) added
  rw [Recording.Passes, finished.sound.tracked.known label, split, settle_append] at passes
  exact finished.available_settled handed split passes

/-- All values are available where instructions use them. -/
theorem available_uses (finished : Finished entry recording)
    (handed : recording.HandsAvailable) {label : Label} {index : Nat}
    {instruction : Instruction}
    (found : (recording.builder.function.block label).instructions[index]? = some instruction)
    {value : Value} (member : value ∈ instruction.uses) :
    recording.builder.function.Available label index value := by
  have scripted := finished.sound.scripted
  rw [scripted.code label] at found
  by_cases early : index < (recording.zeros label).length
  · -- A zero uses nothing.
    rw [List.getElem?_append_left (by simpa using early), List.getElem?_map] at found
    obtain ⟨zero, _, rfl⟩ := Option.map_eq_some_iff.mp found
    simp [Instruction.uses, Builder.zeroInstruction, Operation.operands,
      Instruction.destinations, Operation.destinations] at member
  · rw [List.getElem?_append_right (by simpa using early), List.length_map,
      List.getElem?_map] at found
    obtain ⟨original, place, rfl⟩ := Option.map_eq_some_iff.mp found
    obtain ⟨before, behind, split, count⟩ := emitted_getElem? place
    have here : recording.point label before = index := by
      rw [Recording.point, count]
      omega
    rw [← here]
    have stray : original.stray = [] :=
      finished.sound.plain label original (List.mem_of_getElem? place)
    simp only [Instruction.uses, Instruction.destinations, Instruction.extend,
      Operation.operands_extend, stray, List.append_nil, List.mem_append, List.mem_flatMap]
      at member
    rcases member with operand | ⟨destination, leads, argument⟩
    · exact handed label before _ behind split value (List.mem_append_left _ operand)
    · obtain ⟨side, chosen⟩ := List.mem_iff_getElem?.mp leads
      rw [Operation.destinations_extend] at chosen
      obtain ⟨first, wanted, rfl⟩ := Option.map_eq_some_iff.mp chosen
      rcases List.mem_append.mp argument with given | added
      · refine handed label before _ behind split value (List.mem_append_right _ ?_)
        exact List.mem_flatMap.mpr ⟨first, List.mem_of_getElem? wanted, given⟩
      · exact finished.available_added handed split wanted added

end Finished

end ExprLang.Ssa
