import ExprLang.Proofs.Ssa.Availability

/-!
# What instructions rely on

The machine reads registers, slots and references by number without looking whether they exist.
In a function that was built without a misuse every instruction finds what it names.
-/

namespace ExprLang.Ssa

/-! ## Properties of all instructions -/

namespace Recording

def Appends (property : Function → Instruction → Prop) (recording : Recording) : Prop :=
  ∀ label, ∀ instruction ∈ emitted (recording.script label),
    property recording.builder.function instruction

/-- A property that every instruction has when it is appended, and does not lose when the function
grows. -/
structure Lasting (property : Function → Instruction → Prop) : Prop where
  new : ∀ {recording : Recording} {operation : Operation} {types : List MachineType},
    (∀ value ∈ operation.operands, (recording.builder.function.value? value).isSome = true) →
    operation.Fits recording.builder types →
    property recording.builder.function
      { results := recording.builder.nextValues types.length, operation }
  kept : ∀ {recording later : Recording}, Grows recording later → ∀ {instruction : Instruction},
    property recording.builder.function instruction → property later.builder.function instruction

namespace Appends

variable {property : Function → Instruction → Prop} {recording later : Recording}
  {entry : Option Label}

theorem start (id : FunctionId) (declaration : Declaration) :
    (Recording.start id declaration).Appends property := by
  intro label instruction member
  simp [Recording.start, History.start] at member

theorem grows (appends : recording.Appends property) (lasting : Lasting property)
    (grows : Grows recording later)
    (same : ∀ label, emitted (later.script label) = emitted (recording.script label)) :
    later.Appends property := by
  intro label instruction member
  rw [same] at member
  exact lasting.kept grows (appends label instruction member)

theorem move (appends : recording.Appends property) (lasting : Lasting property)
    (step : Move entry recording later) : later.Appends property := by
  have grown := step.grows
  cases step with
  | resolve step =>
      refine appends.grows lasting grown fun label => ?_
      rw [step.keeps.script]
  | define label var type value current declared typed early =>
      exact appends.grows lasting grown (by simp [Recording.define])
  | use label var value current holds early =>
      exact appends.grows lasting grown (by simp [Recording.use])
  | emit label operation types current unfinished operands fits =>
      -- The instructions from before are those of the recording without the new one.
      intro other instruction member
      rw [mem_emitted] at member
      rcases recording.mem_noted.mp member with old | ⟨rfl, new⟩
      · exact lasting.kept grown (appends other instruction (mem_emitted.mpr old))
      · cases new
        exact lasting.kept grown (lasting.new operands fits)
  | create | switch | parameter | declare | close | refer | reserve =>
      exact appends.grows lasting grown fun _ => rfl

theorem moves (appends : recording.Appends property) (lasting : Lasting property)
    (steps : Moves entry recording later) : later.Appends property := by
  induction steps with
  | refl => exact appends
  | tail _ step induction => exact induction.move lasting step

end Appends

end Recording

/-! ## Instructions that find what they name -/

/-- What an operation needs besides its operands, if it has the given results. -/
def Operation.Sustained (function : Function) (results : List Value) : Operation → Prop
  | constant _ _ | arithmetic _ _ _ | compare _ _ _ | signExtend _ _ | load _ _ _ =>
    results ≠ []
  | slotAddress _ slot _ => slot.index < function.slots.size ∧ results ≠ []
  | slotStore _ slot _ => slot.index < function.slots.size
  | call reference arguments => ∃ external,
    function.references[reference.index]? = some external ∧
      arguments.length = external.prototype.parameters.length ∧
      results.length = external.prototype.results.length
  | store _ _ _ | branch _ _ _ | jump _ | ret _ => True
  | malformed _ _ _ | unknown _ => False

@[simp] theorem Operation.sustained_extend (function : Function) (results : List Value)
    (more : Nat → List Value) (operation : Operation) :
    (operation.extend more).Sustained function results ↔
      operation.Sustained function results := by
  cases operation <;> rfl

structure Instruction.Equipped (function : Function) (instruction : Instruction) : Prop where
  operands : ∀ value ∈ instruction.operation.operands, value.index < function.values.size
  results : ∀ value ∈ instruction.results, value.index < function.values.size
  sustained : instruction.operation.Sustained function instruction.results

theorem Function.value?_isSome {function : Function} {value : Value} :
    (function.value? value).isSome = true ↔ value.index < function.values.size := by
  simp [value?]

theorem Operation.Fits.sustained {builder : Builder} {types : List MachineType}
    {operation : Operation} (fits : operation.Fits builder types) {results : List Value}
    (count : results.length = types.length) : operation.Sustained builder.function results := by
  have some : ∀ type, types = [type] → results ≠ [] := by
    rintro type rfl rfl
    cases count
  cases operation with
  | constant type word => exact some _ fits
  | arithmetic operation left right => exact some _ fits.2
  | compare condition left right => exact some _ fits.2
  | signExtend type operand => exact some _ fits
  | load type address offset => exact some _ fits
  | slotAddress type slot offset => exact ⟨fits.2.1, some _ fits.2.2⟩
  | slotStore value slot offset =>
      obtain ⟨size, found, _⟩ := fits
      exact (Array.getElem?_eq_some_iff.mp found).1
  | call reference arguments =>
      obtain ⟨external, found, wanted, rfl⟩ := fits
      exact ⟨external, found, wanted, count⟩
  | malformed kind condition values => exact fits
  | unknown code => exact fits
  | _ => trivial

namespace Recording

variable {recording later : Recording}

def Equipped (recording : Recording) : Prop :=
  ∀ label, ∀ instruction ∈ emitted (recording.script label),
    (∀ value ∈ instruction.operation.operands,
      (recording.builder.function.value? value).isSome = true) ∧
    instruction.operation.Sustained recording.builder.function instruction.results

theorem sustained_grows (grows : Grows recording later) {operation : Operation}
    {results : List Value}
    (sustained : operation.Sustained recording.builder.function results) :
    operation.Sustained later.builder.function results := by
  have slot : ∀ index, index < recording.builder.function.slots.size →
      index < later.builder.function.slots.size := by
    intro index inside
    have found := grows.slot index _ (Array.getElem?_eq_getElem inside)
    exact (Array.getElem?_eq_some_iff.mp found).1
  cases operation with
  | slotAddress type place offset => exact ⟨slot _ sustained.1, sustained.2⟩
  | slotStore value place offset => exact slot _ sustained
  | call reference arguments =>
      obtain ⟨external, found, wanted, given⟩ := sustained
      exact ⟨external, grows.reference _ _ found, wanted, given⟩
  | _ => exact sustained

def Supplied (function : Function) (instruction : Instruction) : Prop :=
  (∀ value ∈ instruction.operation.operands, (function.value? value).isSome = true) ∧
    instruction.operation.Sustained function instruction.results

theorem lasting_supplied : Lasting Supplied where
  new operands fits := ⟨operands, fits.sustained (by simp [Builder.nextValues])⟩
  kept grows instruction supplied := by
    refine ⟨fun value inside => ?_, sustained_grows grows supplied.2⟩
    obtain ⟨info, found⟩ := Option.isSome_iff_exists.mp (supplied.1 value inside)
    exact Option.isSome_iff_exists.mpr ⟨info, grows.value value info found⟩

namespace Equipped

theorem iff_appends : recording.Equipped ↔ recording.Appends Supplied := Iff.rfl

theorem start (id : FunctionId) (declaration : Declaration) :
    (Recording.start id declaration).Equipped :=
  iff_appends.mpr (Appends.start id declaration)

theorem moves {entry : Option Label} (equipped : recording.Equipped)
    (steps : Moves entry recording later) : later.Equipped :=
  iff_appends.mpr ((iff_appends.mp equipped).moves lasting_supplied steps)

end Equipped

end Recording

/-! ## References -/

theorem PerformsAll.mem_references {entry : Option Label} {deeds : List Deed}
    {recording later : Recording} (performs : PerformsAll entry deeds recording later)
    {external : External} (member : external ∈ later.builder.function.references) :
    external ∈ recording.builder.function.references ∨ .refer external ∈ deeds := by
  induction performs with
  | nil => exact .inl member
  | @cons recording middle later deed deeds first _ induction =>
      rcases induction member with before | afterwards
      · by_cases plain : deed.isLocal = true
        · rw [(sameTables_of_performs first plain).references] at before
          exact .inl before
        · cases first with
          | declare var type unknown => exact .inl before
          | refer other unknown =>
              rcases Array.mem_push.mp before with old | rfl
              · exact .inl old
              · exact .inr List.mem_cons_self
          | _ => exact absurd rfl plain
      · exact .inr (List.mem_cons_of_mem _ afterwards)

namespace Function

structure Executable (function : Function) : Prop where
  verified : ∃ entry, function.Verified entry
  parameters : ∀ label, ∀ value ∈ (function.block label).parameters,
    value.index < function.values.size
  equipped : ∀ label, ∀ instruction ∈ (function.block label).instructions,
    instruction.Equipped function

end Function

theorem Recording.Equipped.executable {recording : Recording} (equipped : recording.Equipped)
    (sound : Sound recording) {entry : Label}
    (verified : recording.builder.function.Verified entry) :
    recording.builder.function.Executable where
  verified := ⟨entry, verified⟩
  parameters label value member := sound.single.parameter_lt member
  equipped label instruction member := by
    have results : ∀ value ∈ instruction.results,
        value.index < recording.builder.function.values.size :=
      fun value => sound.single.result_lt member
    rcases sound.scripted.mem_code.mp member with ⟨zero, _, rfl⟩ | ⟨original, inside, rfl⟩
    · exact ⟨by simp [Builder.zeroInstruction, Operation.operands], results,
        by simp [Builder.zeroInstruction, Operation.Sustained]⟩
    · obtain ⟨operands, sustained⟩ := equipped label original inside
      refine ⟨fun value operand => ?_, results, ?_⟩
      · rw [Instruction.extend, Operation.operands_extend] at operand
        exact Function.value?_isSome.mp (operands value operand)
      · rw [Instruction.extend, Operation.sustained_extend]
        exact sustained

end ExprLang.Ssa
