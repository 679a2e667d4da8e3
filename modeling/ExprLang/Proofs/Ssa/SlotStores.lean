import ExprLang.Proofs.Ssa.Workspaces

/-!
# Stores to slots

A builder looks where a store to a slot ends, and accepts it if that is inside the slot. Where the
store starts it does not look: a store in front of the slot is accepted as well.
-/

namespace ExprLang.Ssa

def Operation.EndsInside (function : Function) : Operation → Prop
  | slotStore value slot offset => ∃ size type, function.slots[slot.index]? = some size ∧
    function.type? value = some type ∧ offset.toInt + type.size ≤ size.toNat
  | _ => True

@[simp] theorem Operation.endsInside_extend (function : Function) (more : Nat → List Value)
    (operation : Operation) :
    (operation.extend more).EndsInside function ↔ operation.EndsInside function := by
  cases operation <;> rfl

theorem Recording.lasting_endsInside :
    Recording.Lasting fun function instruction => instruction.operation.EndsInside function where
  new {recording operation types} operands fits := by
    cases operation with
    | slotStore value slot offset =>
        obtain ⟨size, found, ends, _⟩ := fits
        obtain ⟨info, known⟩ := Option.isSome_iff_exists.mp (operands value List.mem_cons_self)
        have typed : recording.builder.function.type? value = some info.type := by
          rw [Function.type?, known, Option.map_some]
        rw [Function.type, typed, Option.getD_some] at ends
        exact ⟨size, info.type, found, typed, ends⟩
    | _ => trivial
  kept {recording later} grows instruction holds := by
    cases operation : instruction.operation with
    | slotStore value slot offset =>
        rw [operation] at holds
        obtain ⟨size, type, found, typed, ends⟩ := holds
        exact ⟨size, type, grows.slot _ _ found, grows.type? typed, ends⟩
    | _ => trivial

theorem Recording.Scripted.endsInside {recording : Recording} (scripted : recording.Scripted)
    (appends : recording.Appends fun function instruction =>
      instruction.operation.EndsInside function) (label : Label) :
    ∀ instruction ∈ (recording.builder.function.block label).instructions,
      instruction.operation.EndsInside recording.builder.function := by
  intro instruction member
  rcases scripted.mem_code.mp member with ⟨zero, _, rfl⟩ | ⟨original, inside, rfl⟩
  · trivial
  · rw [Instruction.extend, Operation.endsInside_extend]
    exact appends label original inside

/-- A builder accepts a store to a slot under these conditions only, and under all of them. -/
theorem Build.slotStore_accepted_iff {builder : Builder} (good : builder.misuse = none)
    (value : Value) (slot : Slot) (offset : Int32) :
    ((Build.slotStore value slot offset).run builder).2.misuse = none ↔
      (∃ label, builder.current = some label ∧
        (builder.function.block label).isTerminated = false) ∧
      ∃ size type, builder.function.slots[slot.index]? = some size ∧
        builder.function.type? value = some type ∧ offset.toInt + type.size ≤ size.toNat := by
  have realizes := slotStore_realizes value slot offset
  have same : offset.toInt64.toInt = offset.toInt := Int32.toInt_toInt64 offset
  constructor
  · intro accepted
    obtain ⟨_, label, current, unfinished, operands, size, found, ends, _⟩ := realizes.inv accepted
    obtain ⟨info, known⟩ := Option.isSome_iff_exists.mp (operands value List.mem_cons_self)
    have typed : builder.function.type? value = some info.type := by
      rw [Function.type?, known, Option.map_some]
    rw [Function.type, typed, Option.getD_some, same] at ends
    exact ⟨⟨label, current, unfinished⟩, size, info.type, found, typed, ends⟩
  · rintro ⟨⟨label, current, unfinished⟩, size, type, found, typed, ends⟩
    have accepts : Accepts builder (.slotStore value slot offset.toInt64) [] label := by
      refine ⟨current, unfinished, ?_, size, found, ?_, rfl⟩
      · intro operand member
        obtain rfl := List.mem_singleton.mp member
        obtain ⟨info, known, _⟩ := Option.map_eq_some_iff.mp typed
        rw [known]
        rfl
      · rw [Function.type, typed, Option.getD_some, same]
        exact ends
    rw [realizes.run accepts]
    exact good

/-- If nothing was done wrong, every store to a slot ends inside the slot. One more store is
accepted where an instruction can be appended, if it ends inside its slot; so it may start in front
of the slot. -/
theorem slot_stores_end_inside (id : FunctionId) (declaration : Declaration)
    (commands : List Command)
    (good : ((History.start id declaration).performAll commands).builder.misuse = none) :
    let builder := ((History.start id declaration).performAll commands).builder
    (∀ label, ∀ instruction ∈ (builder.function.block label).instructions,
      ∀ value slot offset, instruction.operation = .slotStore value slot offset →
        ∃ size type, builder.function.slots[slot.index]? = some size ∧
          builder.function.type? value = some type ∧
          offset.toInt + type.size ≤ size.toNat) ∧
    ∀ value slot (offset : Int32),
      ((History.start id declaration).performAll
        (commands ++ [.emit (.slotStore value slot offset)])).builder.misuse = none ↔
      (∃ label, builder.current = some label ∧
        (builder.function.block label).isTerminated = false) ∧
      ∃ size type, builder.function.slots[slot.index]? = some size ∧
        builder.function.type? value = some type ∧ offset.toInt + type.size ≤ size.toNat := by
  intro builder
  constructor
  · have sound := Sound.start id declaration
    obtain ⟨recording, same, moves, _⟩ := @performAll_moves none commands _ sound
      (Recording.Settled.start id declaration) (by simp) good
    have appends :=
      (Recording.Appends.start id declaration).moves Recording.lasting_endsInside moves
    intro label instruction member value slot offset operation
    have function : recording.builder.function = builder.function :=
      congrArg (fun history => history.builder.function) same
    rw [← function] at member ⊢
    have ends := (sound.moves moves).scripted.endsInside appends label instruction member
    rw [operation] at ends
    exact ends
  · intro value slot offset
    rw [← Build.slotStore_accepted_iff good value slot offset, History.performAll,
      List.foldl_append]
    exact iff_of_eq (congrArg (fun later : Builder => later.misuse = none)
      (History.builder_perform _ (.emit (.slotStore value slot offset))))

def storing (offset : Int32) : List Command := [
  .createBlock,
  .switchTo ⟨0⟩,
  .createSlot 8,
  .emit (.constant .i64 7),
  .emit (.slotStore ⟨0⟩ ⟨0⟩ offset),
  .emit (.ret [⟨0⟩]),
  .sealAll]

def storingBuilder (offset : Int32) : Builder :=
  ((History.start ⟨0⟩ ⟨"main", ⟨[], [.i64]⟩, .exported, none⟩).performAll (storing offset)).builder

theorem slot_stores_end_inside_storing : (storingBuilder 0).misuse = none ∧
    { results := [], operation := .slotStore ⟨0⟩ ⟨0⟩ 0 } ∈
      ((storingBuilder 0).function.block ⟨0⟩).instructions ∧
    ∃ size type, (storingBuilder 0).function.slots[0]? = some size ∧
      (storingBuilder 0).function.type? ⟨0⟩ = some type ∧
      (0 : Int64).toInt + type.size ≤ size.toNat := by
  have good : (storingBuilder 0).misuse = none := by decide +kernel
  have stores : { results := [], operation := .slotStore ⟨0⟩ ⟨0⟩ 0 } ∈
      ((storingBuilder 0).function.block ⟨0⟩).instructions := by decide +kernel
  exact ⟨good, stores, (slot_stores_end_inside ⟨0⟩ _ (storing 0) good).1 ⟨0⟩ _ stores _ ⟨0⟩ _ rfl⟩

/-- A word is stored eight octets in front of the slot, and the function is accepted. -/
theorem store_in_front_of_slot : (storingBuilder (-8)).misuse = none ∧
    (storingBuilder (-8)).finalize = .ok () ∧
    { results := [], operation := .slotStore ⟨0⟩ ⟨0⟩ (-8) } ∈
      ((storingBuilder (-8)).function.block ⟨0⟩).instructions ∧
    ¬ 0 ≤ (-8 : Int64).toInt := by
  refine ⟨by decide +kernel, by decide +kernel, by decide +kernel, by decide⟩

end ExprLang.Ssa
