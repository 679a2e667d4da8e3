import ExprLang.Proofs.Ssa.Contents
import ExprLang.Proofs.Ssa.Linking

/-!
# Values that are truths

Truth values are words with no bit set or with all of them. A value is a truth because of how it is
defined: an instruction makes a truth, or the value stands for a variable that holds truths, or it
is a parameter for which all branches pass truths. Main statement: whatever a function does that
keeps its promises, the registers of these values hold truths.
-/

/-!
## What stands for variables

Lookups pass values on from block to block. So whatever a variable holds somewhere, it was given
to the variable, or it is a zero or a parameter that a lookup has made.
-/

namespace ExprLang.Ssa

namespace Recording

/-- A value stands for a variable: the variable was given it, or a lookup made it as a zero or as
a parameter for the variable. -/
inductive Stands (recording : Recording) (var : Variable) (value : Value) : Prop
  | given {label : Label} (member : .define var value ∈ recording.script label)
  | zero {label : Label} {type : MachineType} (member : (type, value) ∈ recording.zeros label)
  | joined {label : Label} (member : (var, value) ∈ recording.joined label)

def Sourced (recording : Recording) : Prop :=
  ∀ label var value, recording.incoming label var = some value → recording.Stands var value

variable {recording later : Recording} {var : Variable} {value : Value}

theorem Stands.grows (stands : recording.Stands var value) (grows : Grows recording later) :
    later.Stands var value := by
  cases stands with
  | given member => exact .given ((grows.script _).subset member)
  | zero member => exact .zero ((grows.zeros _).subset member)
  | joined member => exact .joined ((grows.joined _).subset member)

namespace Sourced

theorem settled (sourced : recording.Sourced) {label : Label} {before behind : List Event}
    (split : recording.script label = before ++ behind)
    (holds : settle (recording.incoming label) before var = some value) :
    recording.Stands var value := by
  rcases settle_eq_some holds with received | defined
  · exact sourced label var value received
  · exact .given (by rw [split]; exact List.mem_append_left _ defined)

theorem known (sourced : recording.Sourced) (tracked : recording.Tracked) {label : Label}
    (holds : recording.builder.known label var = some value) : recording.Stands var value := by
  rw [tracked.known label] at holds
  exact sourced.settled (List.append_nil _).symm holds

theorem used (sourced : recording.Sourced) (tracked : recording.Tracked) {label : Label}
    (member : .use var value ∈ recording.script label) : recording.Stands var value := by
  obtain ⟨before, behind, split⟩ := List.append_of_mem member
  exact sourced.settled split (tracked.uses label before var value behind split)

theorem start (id : FunctionId) (declaration : Declaration) :
    (Recording.start id declaration).Sourced := by
  intro label var value received
  cases received

theorem receive (sourced : recording.Sourced) (grows : Grows recording later) {label : Label}
    {var : Variable} {value : Value}
    (received : later.incoming = recording.received label var value)
    (stands : later.Stands var value) : later.Sourced := by
  intro other asked content holds
  rw [received, received_eq] at holds
  split at holds
  · rename_i here
    cases holds
    rw [here.2]
    exact stands
  · exact (sourced other asked content holds).grows grows

theorem resolve (sourced : recording.Sourced) (tracked : recording.Tracked)
    (step : Resolve recording later) : later.Sourced := by
  have grows := step.grows
  cases step with
  | pend label var type =>
      refine sourced.receive grows rfl (.joined (show _ ∈ Recording.joined _ label from ?_))
      simp [pend]
  | join label var type =>
      refine sourced.receive grows rfl (.joined (show _ ∈ Recording.joined _ label from ?_))
      simp [join]
  | zero label var type =>
      refine sourced.receive grows rfl
        (.zero (show (type, _) ∈ Recording.zeros _ label from ?_))
      simp [Recording.zero]
  | inherit label var edge value inside closed only source =>
      exact sourced.receive grows rfl ((sourced.known tracked source).grows grows)
  | pass => exact fun label var value holds => (sourced label var value holds).grows grows

theorem move {entry : Option Label} (sourced : recording.Sourced) (tracked : recording.Tracked)
    (step : Move entry recording later) : later.Sourced := by
  have grows := step.grows
  cases step with
  | resolve step => exact sourced.resolve tracked step
  | _ => exact fun label var value holds => (sourced label var value holds).grows grows

theorem moves {entry : Option Label} (sourced : recording.Sourced) (sound : Sound recording)
    (steps : Moves entry recording later) : later.Sourced := by
  induction steps with
  | refl => exact sourced
  | tail before step induction => exact induction.move (sound.moves before).tracked step

end Sourced

end Recording

end ExprLang.Ssa

namespace ExprLang.Ssa

/-! ## Words -/

/-- A word that stands for a truth value. -/
def IsTruth (word : Int64) : Prop :=
  word = 0 ∨ word = -1

instance (word : Int64) : Decidable (IsTruth word) :=
  inferInstanceAs (Decidable (word = 0 ∨ word = -1))

namespace IsTruth

theorem zero : IsTruth 0 := .inl rfl

theorem extended (word : Int64) : IsTruth (-(word &&& 1)) := by
  have bit : word &&& 1 = 0 ∨ word &&& 1 = 1 := by
    have one : (1 : Int64).toBitVec = 1#64 := rfl
    rw [← Int64.toBitVec_inj, ← Int64.toBitVec_inj, Int64.toBitVec_and, one,
      BitVec.and_one_eq_setWidth_ofBool_getLsbD]
    cases word.toBitVec.getLsbD 0
    · exact .inl rfl
    · exact .inr rfl
  rcases bit with low | high
  · rw [low]
    exact .zero
  · rw [high]
    exact .inr rfl

theorem eq_iff {left right : Int64} (onLeft : IsTruth left) (onRight : IsTruth right) :
    left = right ↔ (left ≠ 0 ↔ right ≠ 0) := by
  have different : (-1 : Int64) ≠ 0 := by decide
  rcases onLeft with rfl | rfl <;> rcases onRight with rfl | rfl <;> simp [different]

end IsTruth

/-! ## Truths among the values of a function -/

/-- Which arguments of a function are truths, and whether its result is one. Functions go by their
names. -/
structure Promises where
  takes : String → Nat → Prop
  gives : String → Prop

def Operation.MakesTruth (promises : Promises) (function : Function) : Operation → Prop
  | constant _ word => IsTruth word
  | signExtend _ operand => function.type? operand = some .i1
  | call reference _ => ∃ external, function.references[reference.index]? = some external ∧
      promises.gives external.name
  | _ => False

@[simp] theorem Operation.makesTruth_extend (promises : Promises) (function : Function)
    (more : Nat → List Value) (operation : Operation) :
    (operation.extend more).MakesTruth promises function ↔
      operation.MakesTruth promises function := by
  cases operation <;> rfl

/-- An operation hands on truths where they are wanted: as arguments of a call, and as results. -/
def Operation.Keeps (promises : Promises) (function : Function) (truth : Value → Prop) :
    Operation → Prop
  | call reference arguments =>
    ∀ external, function.references[reference.index]? = some external →
      ∀ index argument, promises.takes external.name index →
        arguments[index]? = some argument → truth argument
  | ret values => promises.gives function.name → ∀ value ∈ values, truth value
  | _ => True

def Event.Keeps (promises : Promises) (function : Function) (bools : Variable → Prop)
    (truth : Value → Prop) : Event → Prop
  | .instruction appended => appended.operation.Keeps promises function truth
  | .define var value => bools var → truth value
  | .use _ _ => True

namespace Recording

/-- A value is a truth: an instruction makes it, or it stands for a variable that holds truths, or
it is a parameter for which all branches pass truths, or a truth is promised for it. -/
inductive Truth (promises : Promises) (entry : Label) (bools : Variable → Prop)
    (recording : Recording) : Value → Prop
  | made {label : Label} {instruction : Instruction} {value : Value}
      (member : instruction ∈ emitted (recording.script label))
      (result : value ∈ instruction.results)
      (makes : instruction.operation.MakesTruth promises recording.builder.function) :
      Truth promises entry bools recording value
  | zero {label : Label} {type : MachineType} {value : Value}
      (member : (type, value) ∈ recording.zeros label) : Truth promises entry bools recording value
  | joined {label : Label} {var : Variable} {value : Value}
      (member : (var, value) ∈ recording.joined label) (holds : bools var) :
      Truth promises entry bools recording value
  | merged {label : Label} {value : Value} (different : label ≠ entry)
      (explicit : value ∈ recording.explicit label)
      (passed : ∀ source instruction destination argument,
        instruction ∈ emitted (recording.script source) →
          destination ∈ instruction.operation.destinations → destination.block = label →
            argument ∈ destination.arguments → Truth promises entry bools recording argument) :
      Truth promises entry bools recording value
  | given {index : Nat} {value : Value}
      (parameter : (recording.builder.function.block entry).parameters[index]? = some value)
      (takes : promises.takes recording.builder.function.name index) :
      Truth promises entry bools recording value

/-- A finished function keeps promises: some variables are given truths only, and truths are handed
on wherever they are wanted. -/
structure Truthful (promises : Promises) (entry : Label) (bools : Variable → Prop)
    (recording : Recording) : Prop where
  finished : Finished entry recording
  bare : recording.joined entry = []
  sourced : recording.Sourced
  keeps : ∀ label, ∀ event ∈ recording.script label,
    event.Keeps promises recording.builder.function bools
      (recording.Truth promises entry bools)

end Recording

/-! ## Registers -/

def HoldTruths (truths : Value → Prop) (registers : Array Int64) : Prop :=
  ∀ value, truths value → ∃ word, registers[value.index]? = some word ∧ IsTruth word

namespace HoldTruths

variable {truths : Value → Prop} {registers later : Array Int64}

theorem isTruth (holds : HoldTruths truths registers) {value : Value} {word : Int64}
    (found : registers[value.index]? = some word) (truth : truths value) : IsTruth word := by
  obtain ⟨content, held, isTruth⟩ := holds value truth
  cases held.symm.trans found
  exact isTruth

theorem set (holds : HoldTruths truths registers) {result : Value} {word : Int64}
    (truth : truths result → IsTruth word) :
    HoldTruths truths (registers.setIfInBounds result.index word) := by
  intro value isTruth
  obtain ⟨content, held, wasTruth⟩ := holds value isTruth
  by_cases same : value = result
  · subst same
    have inside := (Array.getElem?_eq_some_iff.mp held).1
    exact ⟨word, Array.getElem?_setIfInBounds_self_of_lt inside, truth isTruth⟩
  · have different : result.index ≠ value.index := fun equal => by
      cases value
      cases result
      exact same (congrArg Value.mk equal.symm)
    exact ⟨content, (Array.getElem?_setIfInBounds_ne different).trans held, wasTruth⟩

theorem write (holds : HoldTruths truths registers) {values : List Value} {words : List Int64}
    (written : writeAll registers values words = some later)
    (truth : ∀ value ∈ values, truths value → ∀ word, later[value.index]? = some word →
      IsTruth word) : HoldTruths truths later := by
  intro value isTruth
  obtain ⟨content, held, wasTruth⟩ := holds value isTruth
  by_cases member : value ∈ values
  · have inside : value.index < later.size := by
      rw [writeAll_size written]
      exact (Array.getElem?_eq_some_iff.mp held).1
    have found := Array.getElem?_eq_getElem inside
    exact ⟨_, found, truth value member isTruth _ found⟩
  · exact ⟨content, (writeAll_of_not_mem written member).trans held, wasTruth⟩

theorem read (holds : HoldTruths truths registers) {values : List Value} {words : List Int64}
    (read : readAll registers values = some words) {index : Nat} {value : Value} {word : Int64}
    (found : values[index]? = some value) (given : words[index]? = some word)
    (truth : truths value) : IsTruth word := by
  have reads := List.forall₂_iff_get.mp (readAll_eq_some.mp read)
  obtain ⟨inside, rfl⟩ := List.getElem?_eq_some_iff.mp found
  obtain ⟨within, rfl⟩ := List.getElem?_eq_some_iff.mp given
  exact holds.isTruth (reads.2 index inside within) truth

end HoldTruths

/-! ## Where truths come from -/

theorem Recording.Truth.inside {promises : Promises} {entry : Label} {bools : Variable → Prop}
    {recording : Recording} {value : Value} (truth : recording.Truth promises entry bools value)
    (sound : Sound recording) : value.index < recording.builder.function.values.size := by
  have single := sound.single
  cases truth with
  | made member result =>
      exact single.result_lt (sound.scripted.mem_code.mpr (.inr ⟨_, member, rfl⟩)) result
  | zero member =>
      exact single.result_lt (sound.scripted.mem_code.mpr (.inl ⟨_, member, rfl⟩))
        (List.mem_singleton.mpr rfl)
  | joined member => exact single.parameter_lt (sound.linked.mem_joined member)
  | merged _ explicit => exact single.parameter_lt (sound.linked.mem_explicit explicit)
  | given found => exact single.parameter_lt (List.mem_of_getElem? found)

/-- A truth that is a parameter of a block stands for a variable, or all branches to the block pass
truths for it, or it is a parameter of the function. -/
theorem Recording.Truth.of_parameter {promises : Promises} {entry label : Label}
    {bools : Variable → Prop} {recording : Recording} {value : Value}
    (truth : recording.Truth promises entry bools value) (sound : Sound recording)
    (parameter : value ∈ (recording.builder.function.block label).parameters) :
    (∃ var, (var, value) ∈ recording.joined label ∧ bools var) ∨
      (label ≠ entry ∧ value ∈ recording.explicit label ∧
        ∀ source instruction destination argument,
          instruction ∈ emitted (recording.script source) →
            destination ∈ instruction.operation.destinations → destination.block = label →
              argument ∈ destination.arguments →
                recording.Truth promises entry bools argument) ∨
      (label = entry ∧ ∃ index,
        (recording.builder.function.block entry).parameters[index]? = some value ∧
          promises.takes recording.builder.function.name index) := by
  have single := sound.single
  have here : ∀ {other}, value ∈ (recording.builder.function.block other).parameters →
      other = label := fun there =>
    single.label_eq (List.mem_append_left _ there) (List.mem_append_left _ parameter)
  cases truth with
  | made member result =>
      exact absurd parameter
        (single.not_parameter (sound.scripted.mem_code.mpr (.inr ⟨_, member, rfl⟩)) result)
  | zero member =>
      exact absurd parameter (single.not_parameter
        (sound.scripted.mem_code.mpr (.inl ⟨_, member, rfl⟩)) (List.mem_singleton.mpr rfl))
  | joined joined holds =>
      cases here (sound.linked.mem_joined joined)
      exact .inl ⟨_, joined, holds⟩
  | merged different explicit passed =>
      cases here (sound.linked.mem_explicit explicit)
      exact .inr (.inl ⟨different, explicit, passed⟩)
  | given found takes =>
      exact .inr (.inr ⟨(here (List.mem_of_getElem? found)).symm, _, found, takes⟩)

namespace Recording.Truthful

variable {promises : Promises} {entry label : Label} {bools : Variable → Prop}
  {recording : Recording} {instruction : Instruction} {value : Value}

theorem stands (truthful : recording.Truthful promises entry bools) {var : Variable}
    (stands : recording.Stands var value) (holds : bools var) :
    recording.Truth promises entry bools value := by
  cases stands with
  | given member => exact truthful.keeps _ _ member holds
  | zero member => exact .zero member
  | joined member => exact .joined member holds

theorem makes (truthful : recording.Truthful promises entry bools)
    (member : instruction ∈ (recording.builder.function.block label).instructions)
    (result : value ∈ instruction.results)
    (truth : recording.Truth promises entry bools value) :
    instruction.operation.MakesTruth promises recording.builder.function := by
  have sound := truthful.finished.sound
  have parameter : ∀ {other}, value ∉ (recording.builder.function.block other).parameters :=
    sound.single.not_parameter member result
  cases truth with
  | made emittedHere resultThere makes =>
      cases sound.single.instruction_eq (sound.scripted.mem_code.mpr (.inr ⟨_, emittedHere, rfl⟩))
        member resultThere result
      rw [Instruction.extend, Operation.makesTruth_extend]
      exact makes
  | @zero _ type _ zero =>
      cases sound.single.instruction_eq (sound.scripted.mem_code.mpr (.inl ⟨_, zero, rfl⟩))
        member (List.mem_singleton.mpr rfl) result
      exact .zero
  | joined joined => exact absurd (sound.linked.mem_joined joined) parameter
  | merged _ explicit => exact absurd (sound.linked.mem_explicit explicit) parameter
  | given found => exact absurd (List.mem_of_getElem? found) parameter

/-- An instruction that does not lead anywhere and is no constant is one of the caller's. -/
theorem appended (truthful : recording.Truthful promises entry bools)
    (member : instruction ∈ (recording.builder.function.block label).instructions)
    (plain : instruction.operation.destinations = [])
    (other : ∀ type, instruction.operation ≠ .constant type 0) :
    ∃ original ∈ emitted (recording.script label),
      original.operation = instruction.operation := by
  rcases truthful.finished.sound.scripted.mem_code.mp member with
    ⟨zero, _, rfl⟩ | ⟨original, emittedHere, rfl⟩
  · exact absurd rfl (other zero.1)
  · refine ⟨original, emittedHere, ?_⟩
    cases operation : original.operation <;>
      simp_all [Instruction.extend, Operation.extend, Operation.destinations]

end Recording.Truthful

/-! ## Registers of an activation -/

theorem Machine.compute_isTruth {promises : Promises} {function : Function}
    {slots registers : Array Int64} {memory : Memory} {operation : Operation} {word : Int64}
    (computed : compute function slots registers memory operation = some (.ok word))
    (makes : operation.MakesTruth promises function) : IsTruth word := by
  cases operation with
  | constant type value =>
      cases computed
      exact makes
  | signExtend type operand =>
      have narrow : function.type? operand = some .i1 := makes
      simp only [compute, narrow, Option.bind_eq_bind, Option.bind_eq_some_iff, if_true,
        Option.bind_some, Option.some.injEq, Except.ok.injEq] at computed
      obtain ⟨bit, _, rfl⟩ := computed
      exact .extended bit
  | call => cases computed
  | _ => exact makes.elim

theorem mem_of_writeAll {registers later : Array α} {values : List Value} {words : List α}
    (written : writeAll registers values words = some later) {value : Value}
    (member : value ∈ values) {word : α} (found : later[value.index]? = some word) :
    word ∈ words := by
  induction values generalizing registers words with
  | nil => cases member
  | cons first rest induction =>
      cases words with
      | nil => cases written
      | cons content words =>
          rw [writeAll] at written
          split at written
          · rename_i inside
            by_cases later : value ∈ rest
            · exact List.mem_cons_of_mem _ (induction written later)
            · cases (List.mem_cons.mp member).resolve_right later
              rw [writeAll_of_not_mem written later] at found
              simp only [Array.getElem?_setIfInBounds_self_of_lt inside, Option.some.injEq]
                at found
              exact found ▸ List.mem_cons_self
          · cases written

namespace Recording.Truthful

variable {promises : Promises} {entry label : Label} {bools : Variable → Prop}
  {recording : Recording} {instruction : Instruction} {registers later : Array Int64}

/-- An instruction computes its result. -/
theorem compute (truthful : recording.Truthful promises entry bools)
    (holds : HoldTruths (recording.Truth promises entry bools) registers)
    (member : instruction ∈ (recording.builder.function.block label).instructions)
    {slots : Array Int64} {memory : Memory} {word : Int64}
    (computed : Machine.compute recording.builder.function slots registers memory
      instruction.operation = some (.ok word))
    {result : Value} {others : List Value} (results : instruction.results = result :: others) :
    HoldTruths (recording.Truth promises entry bools)
      (registers.setIfInBounds result.index word) := by
  refine holds.set fun truth => Machine.compute_isTruth computed (truthful.makes member ?_ truth)
  rw [results]
  exact List.mem_cons_self

/-- A function that was called gives back its results. -/
theorem answer (truthful : recording.Truthful promises entry bools)
    (holds : HoldTruths (recording.Truth promises entry bools) registers)
    (member : instruction ∈ (recording.builder.function.block label).instructions)
    {reference : Reference} {arguments : List Value} {external : External}
    (operation : instruction.operation = .call reference arguments)
    (found : recording.builder.function.references[reference.index]? = some external)
    {words : List Int64} (promised : promises.gives external.name → ∀ word ∈ words, IsTruth word)
    (written : writeAll registers instruction.results words = some later) :
    HoldTruths (recording.Truth promises entry bools) later := by
  refine holds.write written fun value result truth word content => ?_
  have makes := truthful.makes member result truth
  rw [operation] at makes
  obtain ⟨other, foundThere, gives⟩ := makes
  cases found.symm.trans foundThere
  exact promised gives word (mem_of_writeAll written result content)

/-- Control passes to another block. -/
theorem follow (truthful : recording.Truthful promises entry bools)
    (holds : HoldTruths (recording.Truth promises entry bools) registers)
    (member : instruction ∈ (recording.builder.function.block label).instructions)
    {destination : Destination} (leads : destination ∈ instruction.operation.destinations)
    {instructions : List Instruction}
    (went : Machine.follow recording.builder.function registers destination =
      some (instructions, later)) :
    HoldTruths (recording.Truth promises entry bools) later := by
  have finished := truthful.finished
  have sound := finished.sound
  obtain ⟨words, read, -, written, -⟩ := Machine.follow_eq_some.mp went
  rcases sound.scripted.mem_code.mp member with ⟨zero, _, rfl⟩ | ⟨original, emittedHere, rfl⟩
  · cases leads
  obtain ⟨side, chosen⟩ := List.mem_iff_getElem?.mp leads
  rw [Instruction.extend, Operation.destinations_extend] at chosen
  obtain ⟨target, wanted, rfl⟩ := Option.map_eq_some_iff.mp chosen
  have edge : (⟨label, side⟩ : Edge) ∈
      (recording.builder.state target.block).predecessors :=
    (sound.scripted.edges _ _).mpr ⟨original, emittedHere, target, wanted, rfl⟩
  have fits := (finished.leads emittedHere wanted).fits
  refine holds.write written fun value parameter truth word content => ?_
  obtain ⟨var, joined, isBool⟩ | ⟨-, explicit, passed⟩ | ⟨rfl, -⟩ :=
    truth.of_parameter sound parameter
  · obtain ⟨argument, passed, known, held, wrote⟩ :=
      finished.joined_holds edge fits read written joined
    cases wrote.symm.trans content
    exact holds.isTruth held
      (truthful.stands (truthful.sourced.known sound.tracked known) isBool)
  · obtain ⟨argument, given, same⟩ := forall₂_mem_left
      (finished.explicit_holds edge fits read written) explicit
    exact holds.isTruth (same ▸ content)
      (passed _ _ _ _ emittedHere (List.mem_of_getElem? wanted) rfl given)
  · rw [finished.predecessors_entry] at edge
    cases edge

/-- An activation starts with zeros, apart from its arguments. -/
theorem activate (truthful : recording.Truthful promises entry bools) {arguments : List Int64}
    {floor : Nat} {memory grown : Memory} {frame : Frame}
    (started : Ssa.activate recording.builder.function arguments floor memory =
      .ok (frame, grown))
    (count : arguments.length = recording.builder.function.prototype.parameters.length)
    (promised : ∀ index word, promises.takes recording.builder.function.name index →
      arguments[index]? = some word → IsTruth word) :
    HoldTruths (recording.Truth promises entry bools) frame.registers := by
  have finished := truthful.finished
  have sound := finished.sound
  obtain ⟨slots, first, block, registers, -, isEntry, found, written, rfl⟩ :=
    activate_eq_ok.mp started
  cases finished.verified.first.symm.trans isEntry
  have same : recording.builder.function.block entry = block := by
    rw [Function.block, found]
    rfl
  rw [← same] at written
  have distinct := (List.nodup_append.mp (sound.single.block_nodup entry)).1
  have holds : HoldTruths (recording.Truth promises entry bools)
      (Array.replicate recording.builder.function.values.size 0) := by
    intro value truth
    exact ⟨0, by simp [truth.inside sound], .zero⟩
  refine holds.write written fun value parameter truth word content => ?_
  obtain ⟨var, joined, -⟩ | ⟨different, -⟩ | ⟨-, index, found, takes⟩ :=
    truth.of_parameter sound parameter
  · rw [truthful.bare] at joined
    cases joined
  · exact absurd rfl different
  · have wrote := List.forall₂_iff_get.mp (writeAll_of_nodup written distinct
      (finished.verified.parameters.length_eq.trans count.symm))
    obtain ⟨inside, rfl⟩ := List.getElem?_eq_some_iff.mp found
    have within := wrote.1 ▸ inside
    cases (wrote.2 index inside within).symm.trans content
    exact promised index _ takes (List.getElem?_eq_getElem within)

end Recording.Truthful

end ExprLang.Ssa
