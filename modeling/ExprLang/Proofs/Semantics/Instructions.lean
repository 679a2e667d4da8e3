import ExprLang.Proofs.Semantics.Stages

/-!
# Instructions of finished functions

What one instruction does in an activation of a finished function: it computes a word or writes to
memory as an evaluation says, or control passes to another block, whose explicit parameters get
the arguments of the branch.
-/

namespace ExprLang

open Ssa

/-! ## Steps with an outcome -/

namespace Ssa.Machine

variable {environment : Environment σ} {frame : Frame} {callers : List (Frame × List Value)}
  {depth steps : Nat} {memory : Memory} {host : σ} {instruction : Instruction}
  {behind : List Instruction}

theorem step_compute (rest : frame.rest = instruction :: behind)
    (allowed : environment.exceeds (steps + 1) = false)
    (computes : instruction.operation.computes = true) :
    step environment ⟨frame, callers, depth, memory, steps, host⟩ =
      computed frame instruction behind callers depth memory (steps + 1) host
        (compute frame.function frame.slots frame.registers memory instruction.operation) := by
  obtain ⟨function, block, _, registers, slots, floor⟩ := frame
  subst rest
  simp only [step, allowed, Bool.false_eq_true, if_false]
  cases operation : instruction.operation with
  | constant | arithmetic | compare | signExtend | load | slotAddress => rfl
  | _ => simp [operation, Operation.computes] at computes

theorem step_slotStore {value : Value} {slot : Slot} {offset : Int64}
    (rest : frame.rest = instruction :: behind)
    (allowed : environment.exceeds (steps + 1) = false)
    (operation : instruction.operation = .slotStore value slot offset) :
    step environment ⟨frame, callers, depth, memory, steps, host⟩ =
      updated frame behind callers depth (steps + 1) host
        (update frame.function frame.slots frame.registers memory instruction.operation) := by
  obtain ⟨function, block, _, registers, slots, floor⟩ := frame
  subst rest
  simp only [step, allowed, Bool.false_eq_true, if_false, operation]
  rfl

theorem continues_single {result : Value} (rest : frame.rest = instruction :: behind)
    (plain : instruction.isTerminator = false) (results : instruction.results = [result])
    (word : Int64) :
    Continues frame { frame with
      rest := behind
      registers := frame.registers.setIfInBounds result.index word } instruction := by
  refine ⟨rest, plain, rfl, rfl, rfl, rfl, by simp, fun value other => ?_⟩
  refine Array.getElem?_setIfInBounds_ne fun equal => other ?_
  rw [results, List.mem_singleton]
  exact congrArg Value.mk equal.symm

end Ssa.Machine

namespace Lowering

variable {environment : Environment σ} {final : Recording} {events : List Event}
  {store : Store σ} {machine : Machine σ} {activation : Activation σ} {budget : Nat}
  {patient : Prop}

/-! ## Instructions inside a block -/

/-- A machine has gone on in its block, and the registers below some number are as they were. -/
structure Passes (environment : Environment σ) (final : Recording) (events : List Event)
    (count : Nat) (machine : Machine σ) (store : Store σ) (later : Machine σ) : Prop where
  stands : Stands environment final events store later
  block : later.frame.block = machine.frame.block
  stays : Stays count machine later

section Inside

variable {operation : Operation} {result : Value}

theorem Stands.idiomatic {instruction : Instruction}
    (stands : Stands environment final (.instruction instruction :: events) store machine)
    (idiomatic : final.builder.function.Idiomatic) (plain : instruction.isTerminator = false) :
    instruction.Idiomatic final.builder.function := by
  have rest := stands.rest
  rw [instruction.extend_of_plain plain] at rest
  have member := stands.sane.member rest
  rw [stands.faithful.function] at member
  exact idiomatic.instructions _ _ member

/-- An instruction that computes a word. -/
theorem Stands.compute (executed : Executed environment final)
    (named : final.builder.function.name = activation.function)
    (stands : Stands environment final (.instruction ⟨[result], operation, []⟩ :: events) store
      machine)
    (computes : operation.computes = true) {count : Nat} (new : count ≤ result.index)
    {outcome : Option (Except Trap Int64)}
    (same : Machine.compute machine.frame.function machine.frame.slots machine.frame.registers
      machine.memory operation = outcome) :
    Realizes environment budget patient machine (fun word after later =>
        Passes environment final events count machine after later ∧
        later.frame.registers[result.index]? = some word)
      (activation.attempt outcome store) := by
  have plain : Instruction.isTerminator ⟨[result], operation, []⟩ = false := by
    cases operation <;> first | rfl | cases computes
  have rest := stands.rest
  rw [Instruction.extend_of_plain plain] at rest
  have inside : result.index < machine.frame.registers.size := by
    rw [stands.sane.registers]
    exact (stands.sane.equipped rest).results result List.mem_cons_self
  obtain ⟨frame, callers, depth, memory, steps, host⟩ := machine
  obtain rfl : host = store.host := stands.host
  have step : Machine.step environment ⟨frame, callers, depth, memory, steps, store.host⟩ = _ :=
    Machine.step_compute rest (executed.allowed _) computes
  rw [same] at step
  rcases outcome with _ | trap | word
  · exact .halt step
  · have name := (congrArg Function.name stands.faithful.function).trans named
    exact .halt (step.trans (congrArg (fun name => Machine.fail _ _ (.trap name trap)) name))
  · have continues := Machine.continues_single rest plain rfl word
    have step := step.trans (if_pos inside)
    refine (Realizes.value ⟨⟨stands.proceed executed plain continues rfl stands.memory rfl, rfl,
      rfl, rfl, rfl, rfl, fun value below => ?_⟩, ?_⟩).reach (.single step)
    · exact Array.getElem?_setIfInBounds_ne (by omega)
    · exact Array.getElem?_setIfInBounds_self_of_lt inside

/-- An instruction that puts a word into a slot. -/
theorem Stands.put (executed : Executed environment final)
    (named : final.builder.function.name = activation.function) {value : Value} {slot : Slot}
    {offset : Int64}
    (stands : Stands environment final (.instruction ⟨[], .slotStore value slot offset, []⟩ ::
      events) store machine) (count : Nat) {place word : Int64}
    (same : Machine.update machine.frame.function machine.frame.slots machine.frame.registers
      machine.memory (.slotStore value slot offset) = store.memory.deposit place word) :
    Realizes environment budget patient machine (fun _ after later =>
        Passes environment final events count machine after later)
      (activation.put place word store) := by
  have plain : Instruction.isTerminator ⟨[], .slotStore value slot offset, []⟩ = false := rfl
  have rest := stands.rest
  rw [Instruction.extend_of_plain plain] at rest
  obtain ⟨frame, callers, depth, memory, steps, host⟩ := machine
  obtain rfl : host = store.host := stands.host
  have step : Machine.step environment ⟨frame, callers, depth, memory, steps, store.host⟩ = _ :=
    Machine.step_slotStore rest (executed.allowed _) rfl
  rw [same] at step
  unfold Activation.put
  generalize store.memory.deposit place word = outcome at step
  rcases outcome with _ | trap | after
  · exact .halt step
  · have name := (congrArg Function.name stands.faithful.function).trans named
    exact .halt (step.trans (congrArg (fun name => Machine.fail _ _ (.trap name trap)) name))
  · have continues : Machine.Continues frame
        { frame with rest := final.code frame.block events } _ :=
      ⟨rest, plain, rfl, rfl, rfl, rfl, rfl, fun _ _ => rfl⟩
    exact (Realizes.value ⟨stands.proceed executed plain continues rfl rfl rfl, rfl, rfl, rfl,
      rfl, rfl, fun _ _ => rfl⟩).reach (.single step)

end Inside

/-! ## Branches -/

/-- A branch was taken to a block, whose explicit parameters have got the arguments. -/
structure Lands (environment : Environment σ) (final : Recording) (destination : Destination)
    (store : Store σ) (machine later : Machine σ) : Prop where
  opens : Opens environment final destination.block store later
  callers : later.callers = machine.callers
  depth : later.depth = machine.depth
  slots : later.frame.slots = machine.frame.slots
  floor : later.frame.floor = machine.frame.floor
  others : ∀ value, value ∉ (final.builder.function.block destination.block).parameters →
    later.frame.registers[value.index]? = machine.frame.registers[value.index]?
  explicit : List.Forall₂ (fun parameter argument =>
    later.frame.registers[parameter.index]? = machine.frame.registers[argument.index]?)
      (final.explicit destination.block) destination.arguments

namespace Lands

variable {destination : Destination} {later : Machine σ}

theorem stays (lands : Lands environment final destination store machine later) {count : Nat}
    (new : ∀ value ∈ (final.builder.function.block destination.block).parameters,
      count ≤ value.index) : Stays count machine later where
  callers := lands.callers
  depth := lands.depth
  slots := lands.slots
  floor := lands.floor
  kept value below := lands.others value fun member => by
    have above := new value member
    omega

theorem first (lands : Lands environment final destination store machine later)
    {parameter argument : Value} {others : List Value}
    (passes : destination.arguments = argument :: others)
    (merges : [parameter] <+: final.explicit destination.block) :
    later.frame.registers[parameter.index]? = machine.frame.registers[argument.index]? := by
  have explicit := lands.explicit
  obtain ⟨rest, equal⟩ := merges
  rw [← equal, passes] at explicit
  cases explicit with
  | cons same _ => exact same

end Lands

section Branches

variable {operation : Operation}

/-- What a branch comes to. -/
theorem Stands.land (executed : Executed environment final)
    (stands : Stands environment final (.instruction ⟨[], operation, []⟩ :: events) store machine)
    (side : Nat) {destination : Destination}
    (chosen : operation.destinations[side]? = some destination) :
    ∃ registers, Machine.follow machine.frame.function machine.frame.registers
        ⟨destination.block,
          destination.arguments ++ final.appended ⟨machine.frame.block, side⟩⟩ =
        some ((machine.frame.function.block destination.block).instructions, registers) ∧
      ∀ steps, Lands environment final destination store machine
        ⟨⟨machine.frame.function, destination.block,
          (machine.frame.function.block destination.block).instructions, registers,
          machine.frame.slots, machine.frame.floor⟩, machine.callers, machine.depth,
          machine.memory, steps, machine.host⟩ := by
  have rest := stands.rest
  have finished := executed.finished
  have function := stands.faithful.function
  -- The branch with all that it passes.
  have leads : (⟨destination.block, destination.arguments ++
      final.appended ⟨machine.frame.block, side⟩⟩ : Destination) ∈
      (Instruction.extend (fun side => final.appended ⟨machine.frame.block, side⟩)
        ⟨[], operation, []⟩).operation.destinations := by
    refine List.mem_iff_getElem?.mpr ⟨side, ?_⟩
    rw [Instruction.extend, Operation.destinations_extend, chosen]
    rfl
  obtain ⟨registers, went, sane⟩ := stands.sane.arrive rest leads
  refine ⟨registers, went, fun steps => ?_⟩
  have followed := went
  simp only [Machine.follow, Option.bind_eq_bind, Option.bind_eq_some_iff, Option.pure_def,
    Option.some.injEq, Prod.mk.injEq] at followed
  obtain ⟨words, read, block, found, wrote, written, -, rfl⟩ := followed
  have target : machine.frame.function.block destination.block = block := by
    rw [Function.block, found]
    rfl
  obtain ⟨before, split, -⟩ := stands.faithful.holds
  have emittedHere : ⟨[], operation, []⟩ ∈ emitted (final.script machine.frame.block) := by
    rw [mem_emitted, split]
    simp
  have member : ⟨machine.frame.block, side⟩ ∈
      (final.builder.state destination.block).predecessors :=
    (finished.sound.scripted.edges _ _).mpr ⟨_, emittedHere, destination, chosen, rfl⟩
  have fits := (finished.leads emittedHere chosen).fits
  rw [function] at target
  refine ⟨⟨rfl, ?_, sane, stands.memory, stands.host⟩, rfl, rfl, rfl, rfl, fun value other => ?_,
    ?_⟩
  · have branches : Machine.Branches machine.frame ⟨machine.frame.function, destination.block,
        (machine.frame.function.block destination.block).instructions, wrote,
        machine.frame.slots, machine.frame.floor⟩ _ ⟨destination.block, destination.arguments ++
          final.appended ⟨machine.frame.block, side⟩⟩ words :=
      ⟨⟨_, rest⟩, leads, read, rfl, rfl, ⟨block, found, by rw [function, target], written⟩,
        rfl, rfl⟩
    exact stands.faithful.branch finished executed.handed branches
  · rw [target] at other
    exact writeAll_of_not_mem written other
  · rw [← target] at written
    exact finished.explicit_holds member fits read written

theorem Stands.jump (executed : Executed environment final) {target : Destination}
    (stands : Stands environment final (.instruction ⟨[], .jump target, []⟩ :: events) store
      machine) :
    ∃ later, machine.step environment = .next later ∧
      Lands environment final target store machine later := by
  obtain ⟨registers, went, lands⟩ := stands.land executed 0 rfl
  obtain ⟨frame, callers, depth, memory, steps, host⟩ := machine
  exact ⟨_, (Machine.Effect.jump stands.rest rfl went).step (executed.allowed _),
    lands (steps + 1)⟩

/-- A block that ends in a branch. -/
theorem Stands.fork (executed : Executed environment final) {condition : Value}
    {onTrue onFalse : Destination}
    (stands : Stands environment final
      (.instruction ⟨[], .branch condition onTrue onFalse, []⟩ :: events) store machine)
    {word : Int64} (tested : machine.frame.registers[condition.index]? = some word) :
    ∃ later, machine.step environment = .next later ∧
      Lands environment final (if word ≠ 0 then onTrue else onFalse) store machine later := by
  obtain ⟨registers, went, lands⟩ := stands.land executed (if word ≠ 0 then 0 else 1)
    (show _ = some (if word ≠ 0 then onTrue else onFalse) by split <;> rfl)
  have chosen : (⟨(if word ≠ 0 then onTrue else onFalse).block,
      (if word ≠ 0 then onTrue else onFalse).arguments ++
        final.appended ⟨machine.frame.block, if word ≠ 0 then 0 else 1⟩⟩ : Destination) =
      if word ≠ 0 then
        ⟨onTrue.block, onTrue.arguments ++ final.appended ⟨machine.frame.block, 0⟩⟩
      else ⟨onFalse.block, onFalse.arguments ++ final.appended ⟨machine.frame.block, 1⟩⟩ := by
    split <;> rfl
  rw [chosen] at went
  obtain ⟨frame, callers, depth, memory, steps, host⟩ := machine
  have effect : Machine.Effect environment ⟨frame, callers, depth, memory, steps, host⟩ _ :=
    .branch stands.rest rfl tested went
  rw [← chosen] at effect
  exact ⟨_, effect.step (executed.allowed (steps + 1)), lands (steps + 1)⟩

end Branches

end Lowering

end ExprLang
