import ExprLang.Proofs.Ssa.Stepping
import ExprLang.Proofs.Ssa.Workspaces

/-!
# Accepted functions do not go wrong

A machine that executes the functions of a consistent module finds every register, slot,
reference and block that an instruction names. A run can only end with the results that the
function declares, with a trap, or with a fault of the surroundings.
-/

namespace ExprLang.Ssa

/-! ## Memory -/

namespace Memory

variable {memory later : Memory}

/-- The end of an access of some octets is beyond the largest word. -/
def Wraps (address : Int64) (count : Nat) : Prop :=
  2 ^ 63 ≤ (address - base).toInt + count

instance decidableWraps (address : Int64) (count : Nat) : Decidable (Wraps address count) :=
  inferInstanceAs (Decidable (2 ^ 63 ≤ (address - base).toInt + count))

theorem size_allocate {room : UInt32} {address : Int64}
    (allocated : memory.allocate room = some (address, later)) : later.size ≤ capacity := by
  rw [allocate] at allocated
  split at allocated
  · cases allocated
    simpa [size] using ‹_›
  · cases allocated

theorem size_release (count : Nat) : (memory.release count).size ≤ memory.size := by
  simp [release, size]

theorem size_setNumber (count offset : Nat) (value : UInt64) (octets : Array UInt8) :
    size ⟨setNumber count offset value octets⟩ = octets.size := by
  induction count generalizing offset value octets with
  | zero => rfl
  | succ count induction =>
      rw [setNumber, induction, Array.size_setIfInBounds]

theorem size_setWord {offset : Nat} {value : Int64}
    (stored : memory.setWord? offset value = some later) : later.size = memory.size := by
  rw [setWord?, Option.ite_none_right_eq_some, Option.some.injEq] at stored
  have same := size_setNumber 8 offset value.toUInt64 memory.octets
  rw [stored.2] at same
  exact same

theorem size_setBit {offset : Nat} {value : Int64}
    (stored : memory.setBit? offset value = some later) : later.size = memory.size := by
  rw [setBit?, Option.ite_none_right_eq_some, Option.some.injEq] at stored
  rw [← stored.2, size, Array.size_setIfInBounds, size]

theorem size_store {type : MachineType} {address value : Int64}
    (stored : memory.store? type address value = some later) : later.size = memory.size := by
  rw [store?] at stored
  split at stored
  · exact size_setWord stored
  · exact size_setBit stored

/-- What is permitted is inside the memory, unless the end wraps. -/
theorem inside_of_permits {address : Int64} {count : Nat} (small : memory.size ≤ capacity)
    (few : count ≤ 8) (permitted : memory.permits address count = true)
    (fits : ¬ Wraps address count) :
    (address - base).toNatClampNeg + count ≤ memory.size := by
  simp only [permits, Bool.and_eq_true, decide_eq_true_eq] at permitted
  obtain ⟨nonnegative, ending⟩ := permitted
  rw [Wraps] at fits
  generalize address - base = offset at *
  rw [Int64.le_iff_toInt_le] at nonnegative ending
  have least : (0 : Int64).toInt = 0 := rfl
  have size : (Int64.ofNat memory.size).toInt = memory.size :=
    Int64.toInt_ofNat_of_lt (by rw [capacity] at small; omega)
  have word : (Int64.ofNat count).toInt = count := Int64.toInt_ofNat_of_lt (by omega)
  rw [Int64.toInt_add, word, size, Int.bmod_eq_of_le (by omega) (by omega)] at ending
  rw [Int64.toNatClampNeg]
  omega

section Access

variable {type : MachineType} {address : Int64} (small : memory.size ≤ capacity)
  (permitted : memory.permits address type.size = true) (fits : ¬ Wraps address type.size)

include small permitted fits

theorem inside_of_wide (wide : type = .i64) :
    (address - base).toNatClampNeg + 8 ≤ memory.size := by
  subst wide
  exact inside_of_permits small (by decide) permitted fits

theorem inside_of_narrow (narrow : type ≠ .i64) :
    (address - base).toNatClampNeg < memory.size := by
  have one : type.size = 1 := by
    cases type with
    | i64 => exact absurd rfl narrow
    | _ => rfl
  rw [one] at permitted fits
  exact inside_of_permits small (by decide) permitted fits

theorem load_isSome : ∃ word, memory.load? type address = some word := by
  rw [load?]
  split
  · rename_i wide
    rw [word?, if_pos (inside_of_wide small permitted fits wide)]
    exact ⟨_, rfl⟩
  · rename_i narrow
    rw [bit?, Array.getElem?_eq_getElem (inside_of_narrow small permitted fits narrow)]
    exact ⟨_, rfl⟩

theorem store_isSome (word : Int64) :
    ∃ later, memory.store? type address word = some later := by
  rw [store?]
  split
  · rename_i wide
    rw [setWord?, if_pos (inside_of_wide small permitted fits wide)]
    exact ⟨_, rfl⟩
  · rename_i narrow
    rw [setBit?, if_pos (inside_of_narrow small permitted fits narrow)]
    exact ⟨_, rfl⟩

end Access

end Memory

theorem allocateAll_length {memory later : Memory} {sizes : List UInt32}
    {addresses : List Int64} (allocated : allocateAll memory sizes = some (addresses, later)) :
    addresses.length = sizes.length := by
  induction sizes generalizing memory addresses with
  | nil =>
      cases allocated
      rfl
  | cons size sizes induction =>
      simp only [allocateAll, Option.bind_eq_bind, Option.bind_eq_some_iff, Option.pure_def,
        Option.some.injEq, Prod.mk.injEq] at allocated
      obtain ⟨⟨address, middle⟩, first, ⟨others, last⟩, rest, rfl, rfl⟩ := allocated
      exact congrArg Nat.succ (induction rest)

theorem allocateAll_fits {memory later : Memory} {sizes : List UInt32}
    {addresses : List Int64} (allocated : allocateAll memory sizes = some (addresses, later))
    (small : memory.size ≤ Memory.capacity) : later.size ≤ Memory.capacity := by
  induction sizes generalizing memory addresses with
  | nil =>
      cases allocated
      exact small
  | cons size sizes induction =>
      simp only [allocateAll, Option.bind_eq_bind, Option.bind_eq_some_iff, Option.pure_def,
        Option.some.injEq, Prod.mk.injEq] at allocated
      obtain ⟨⟨address, middle⟩, first, ⟨others, last⟩, rest, rfl, rfl⟩ := allocated
      exact induction rest (Memory.size_allocate first)

/-! ## Functions -/

namespace Function

variable {function : Function} {entry label : Label}

theorem Formed.nonempty (formed : function.Formed entry label) :
    (function.block label).instructions ≠ [] := by
  intro empty
  have terminated := formed.terminated
  simp [Block.isTerminated, empty] at terminated

theorem Formed.behind (formed : function.Formed entry label) {instruction : Instruction}
    {behind : List Instruction} (plain : instruction.isTerminator = false)
    (inside : instruction :: behind <:+ (function.block label).instructions) : behind ≠ [] := by
  rintro rfl
  obtain ⟨before, split⟩ := inside
  have terminated := formed.terminated
  simp [Block.isTerminated, ← split, plain] at terminated

theorem block?_eq_some (found : (function.block? label).isSome = true) :
    function.block? label = some (function.block label) := by
  obtain ⟨block, equal⟩ := Option.isSome_iff_exists.mp found
  rw [Function.block, equal, Option.getD_some]

theorem type?_isSome {value : Value} (inside : value.index < function.values.size) :
    ∃ type, function.type? value = some type := by
  rw [type?, value?, Array.getElem?_eq_getElem inside]
  exact ⟨_, rfl⟩

theorem index_lt_of_type? {value : Value} {type : MachineType}
    (typed : function.type? value = some type) : value.index < function.values.size := by
  obtain ⟨info, found, _⟩ := Option.map_eq_some_iff.mp typed
  exact (Array.getElem?_eq_some_iff.mp found).1

end Function

/-! ## Registers -/

theorem readAll_isSome {registers : Array α} {values : List Value}
    (inside : ∀ value ∈ values, value.index < registers.size) :
    ∃ words, readAll registers values = some words ∧ words.length = values.length := by
  induction values with
  | nil => exact ⟨[], rfl, rfl⟩
  | cons value rest induction =>
      rw [List.forall_mem_cons] at inside
      obtain ⟨first, others⟩ := inside
      obtain ⟨words, read, length⟩ := induction others
      refine ⟨registers[value.index] :: words, ?_, by simp [length]⟩
      simp [readAll, read, first]

/-! ## Activations -/

/-- An activation in which every number names something, with an instruction to execute. -/
structure Frame.Sane (module : Module) (frame : Frame) : Prop where
  supports : module.Supports frame.function
  placed : frame.block ∈ frame.function.layout
  rest : frame.rest <:+ (frame.function.block frame.block).instructions
  unfinished : frame.rest ≠ []
  registers : frame.registers.size = frame.function.values.size
  slots : frame.slots.size = frame.function.slots.size

namespace Frame.Sane

variable {module : Module} {frame : Frame} {instruction : Instruction}
  {behind : List Instruction}

theorem formed (sane : frame.Sane module) :
    ∃ entry, frame.function.Verified entry ∧ frame.function.Formed entry frame.block := by
  obtain ⟨entry, verified⟩ := sane.supports.executable.verified
  exact ⟨entry, verified, verified.blocks _ sane.placed⟩

theorem member (sane : frame.Sane module) (rest : frame.rest = instruction :: behind) :
    instruction ∈ (frame.function.block frame.block).instructions := by
  refine sane.rest.subset ?_
  rw [rest]
  exact List.mem_cons_self

theorem equipped (sane : frame.Sane module) (rest : frame.rest = instruction :: behind) :
    instruction.Equipped frame.function :=
  sane.supports.executable.equipped _ _ (sane.member rest)

theorem operand (sane : frame.Sane module) (rest : frame.rest = instruction :: behind) :
    ∀ value ∈ instruction.operation.operands, value.index < frame.registers.size := by
  intro value member
  rw [sane.registers]
  exact (sane.equipped rest).operands value member

theorem proceed (sane : frame.Sane module) (rest : frame.rest = instruction :: behind)
    (plain : instruction.isTerminator = false) {registers : Array Int64}
    (size : registers.size = frame.registers.size) :
    Frame.Sane module
      ⟨frame.function, frame.block, behind, registers, frame.slots, frame.floor⟩ := by
  obtain ⟨entry, _, formed⟩ := sane.formed
  have inside := sane.rest
  rw [rest] at inside
  exact ⟨sane.supports, sane.placed, (List.suffix_cons _ _).trans inside,
    formed.behind plain inside, size.trans sane.registers, sane.slots⟩

/-- An activation goes on at the start of a block. -/
theorem arrive (sane : frame.Sane module) (rest : frame.rest = instruction :: behind)
    {destination : Destination} (leads : destination ∈ instruction.operation.destinations) :
    ∃ registers, Machine.follow frame.function frame.registers destination =
        some ((frame.function.block destination.block).instructions, registers) ∧
      Frame.Sane module ⟨frame.function, destination.block,
        (frame.function.block destination.block).instructions, registers, frame.slots,
        frame.floor⟩ := by
  obtain ⟨entry, verified, formed⟩ := sane.formed
  obtain ⟨_, placed, found, fits⟩ := formed.leads instruction (sane.member rest) destination
    (List.mem_append_left _ leads)
  have arguments : ∀ value ∈ destination.arguments, value.index < frame.registers.size := by
    intro value member
    obtain ⟨_, _, _, typed, _⟩ := forall₂_mem_left fits member
    rw [sane.registers]
    exact Function.index_lt_of_type? typed
  have parameters : ∀ value ∈ (frame.function.block destination.block).parameters,
      value.index < frame.registers.size := by
    rw [sane.registers]
    exact sane.supports.executable.parameters destination.block
  obtain ⟨words, read, length⟩ := readAll_isSome arguments
  obtain ⟨registers, written⟩ := writeAll_isSome parameters
    (Nat.le_of_eq (fits.length_eq.symm.trans length.symm))
  exact ⟨registers, Machine.follow_eq_some.mpr ⟨words, read, Function.block?_eq_some found, written,
    rfl⟩, sane.supports, placed, List.suffix_refl _, (verified.blocks _ placed).nonempty,
    (writeAll_size written).trans sane.registers, sane.slots⟩

end Frame.Sane

/-- An activation starts unless there is no room for its slots. -/
theorem activate_cases {module : Module} {function : Function}
    (supports : module.Supports function) {arguments : List Int64}
    (count : arguments.length = function.prototype.parameters.length) (floor : Nat)
    (memory : Memory) :
    (allocateAll memory function.slots.toList = none ∧
      activate function arguments floor memory = .error (.trap function.name .stackOverflow)) ∨
    ∃ slots grown frame, allocateAll memory function.slots.toList = some (slots, grown) ∧
      activate function arguments floor memory = .ok (frame, grown) ∧ frame.Sane module ∧
      frame.function = function ∧ frame.slots = slots.toArray ∧ frame.floor = floor := by
  obtain ⟨entry, verified⟩ := supports.executable.verified
  have first : entry ∈ function.layout := List.mem_of_head? verified.first
  cases allocated : allocateAll memory function.slots.toList with
  | none => exact .inl ⟨rfl, by rw [activate, allocated]⟩
  | some reserved =>
      obtain ⟨slots, grown⟩ := reserved
      have parameters : ∀ value ∈ (function.block entry).parameters,
          value.index < (Array.replicate function.values.size (0 : Int64)).size := by
        rw [Array.size_replicate]
        exact supports.executable.parameters entry
      obtain ⟨registers, written⟩ := writeAll_isSome parameters
        (Nat.le_of_eq (verified.parameters.length_eq.trans count.symm))
      refine .inr ⟨slots, grown, _, rfl, activate_eq_ok.mpr ⟨slots, entry, function.block entry,
        registers, allocated, verified.first, Function.block?_eq_some verified.found, written,
        rfl⟩, ⟨supports, first, List.suffix_refl _, (verified.blocks entry first).nonempty, ?_,
        ?_⟩, rfl, rfl, rfl⟩
      · exact (writeAll_size written).trans Array.size_replicate
      · simpa using allocateAll_length allocated

/-- A function of a consistent module is entered, or the stack does not suffice. -/
theorem enter_cases {module : Module} {function : Function} (supports : module.Supports function)
    {arguments : List Int64} (count : arguments.length = function.prototype.parameters.length)
    (depth : Nat) {memory : Memory} (small : memory.size ≤ Memory.capacity) :
    (enter function arguments depth memory = .error (.trap function.name .callDepth) ∨
      enter function arguments depth memory = .error (.trap function.name .stackOverflow)) ∨
    ∃ frame later, enter function arguments depth memory = .ok (frame, later) ∧
      frame.Sane module ∧ frame.function = function ∧ later.size ≤ Memory.capacity := by
  simp only [enter, count, ne_eq, not_true, if_false]
  split
  · exact .inl (.inl rfl)
  · obtain ⟨-, refused⟩ | ⟨slots, later, frame, allocated, started, sane, same, -, -⟩ :=
      activate_cases supports count memory.size memory
    · exact .inl (.inr refused)
    · exact .inr ⟨frame, later, started, sane, same, allocateAll_fits allocated small⟩

/-! ## Machines -/

/-- The activations that wait can take the results: the innermost one waits for `count` words,
and in the end there are `wanted` words. -/
def Awaits (module : Module) (wanted : Nat) : (count : Nat) → List (Frame × List Value) → Prop
  | count, [] => count = wanted
  | count, (caller, results) :: callers =>
    caller.Sane module ∧ results.length = count ∧
      (∀ value ∈ results, value.index < caller.function.values.size) ∧
      Awaits module wanted caller.function.prototype.results.length callers

/-- A machine in which every number names something, for a call with a number of results. -/
structure Machine.Sane (module : Module) (wanted : Nat) (machine : Machine σ) : Prop where
  frame : machine.frame.Sane module
  callers : Awaits module wanted machine.frame.function.prototype.results.length machine.callers
  memory : machine.memory.size ≤ Memory.capacity

/-- The faults that can end the execution of accepted functions: a trap other than the end of a
block, a function without a body, and a host that lacks a function, fails or gives the wrong
number of results. -/
def Fault.Regular : Fault → Prop
  | trap _ (.fellOff _) | noFunction _ | arguments _ _ _ | uninterpretable _ | broken => False
  | trap _ _ | noBody _ | noHost _ | hostFailed _ _ | hostResults _ _ _ => True

/-- A run ends with the wanted number of results or with a regular fault. -/
def Halt.Regular (wanted : Nat) (halt : Halt σ) : Prop :=
  (∃ words, halt.outcome = .ok words ∧ words.length = wanted) ∨
    ∃ fault, halt.outcome = .error fault ∧ fault.Regular

/-- A step leads to a sane machine or to a regular end. -/
def Step.Regular (module : Module) (wanted : Nat) : Step σ → Prop
  | .next machine => machine.Sane module wanted
  | .halt ending => ending.Regular wanted

def Operation.computes : Operation → Bool
  | constant _ _ | arithmetic _ _ _ | compare _ _ _ | signExtend _ _ | load _ _ _
  | slotAddress _ _ _ => true
  | _ => false

def Frame.access? (frame : Frame) : Operation → Option (Int64 × Nat)
  | .load type address offset => do
    return ((← frame.registers[address.index]?) + offset, type.size)
  | .store value address offset => do
    let start ← frame.registers[address.index]?
    return (start + offset, (← frame.function.type? value).size)
  | .slotStore value slot offset => do
    let start ← frame.slots[slot.index]?
    return (start + offset, (← frame.function.type? value).size)
  | _ => none

/-- The next instruction accesses memory at an address from which the largest word is too
near. -/
def Machine.Wraps (machine : Machine σ) : Prop :=
  ∃ instruction ∈ machine.frame.rest.head?,
    ∃ access ∈ machine.frame.access? instruction.operation, Memory.Wraps access.1 access.2

instance Machine.decidableWraps (machine : Machine σ) : Decidable machine.Wraps :=
  inferInstanceAs (Decidable (∃ instruction ∈ machine.frame.rest.head?,
    ∃ access ∈ machine.frame.access? instruction.operation, Memory.Wraps access.1 access.2))

namespace Machine

section Cases

variable {module : Module} {wanted : Nat} {frame : Frame} {instruction : Instruction}
  {behind : List Instruction} {callers : List (Frame × List Value)} {depth steps : Nat}
  {memory : Memory} {host : σ}

theorem regular_fail {fault : Fault} (regular : fault.Regular) :
    (fail steps host fault).Regular module wanted :=
  .inr ⟨fault, rfl, regular⟩

theorem computed_regular (sane : Sane module wanted ⟨frame, callers, depth, memory, steps, host⟩)
    (rest : frame.rest = instruction :: behind) (plain : instruction.isTerminator = false)
    (single : instruction.results ≠ []) {outcome : Option (Except Trap Int64)}
    (done : (∃ word, outcome = some (.ok word)) ∨
      ∃ trap, outcome = some (.error trap) ∧ (Fault.trap frame.function.name trap).Regular) :
    (computed frame instruction behind callers depth memory (steps + 1) host outcome).Regular
      module wanted := by
  rcases done with ⟨word, rfl⟩ | ⟨trap, rfl, regular⟩
  · cases results : instruction.results with
    | nil => exact absurd results single
    | cons result others =>
        have inside : result.index < frame.registers.size := by
          rw [sane.frame.registers]
          refine (sane.frame.equipped rest).results result ?_
          rw [results]
          exact List.mem_cons_self
        simp only [computed, results, if_pos inside]
        exact ⟨sane.frame.proceed rest plain Array.size_setIfInBounds, sane.callers, sane.memory⟩
  · exact regular_fail regular

theorem updated_regular (sane : Sane module wanted ⟨frame, callers, depth, memory, steps, host⟩)
    (rest : frame.rest = instruction :: behind) (plain : instruction.isTerminator = false)
    {outcome : Option (Except Trap Memory)}
    (done : (∃ later, outcome = some (.ok later) ∧ later.size = memory.size) ∨
      ∃ trap, outcome = some (.error trap) ∧ (Fault.trap frame.function.name trap).Regular) :
    (updated frame behind callers depth (steps + 1) host outcome).Regular module wanted := by
  rcases done with ⟨later, rfl, size⟩ | ⟨trap, rfl, regular⟩
  · exact ⟨sane.frame.proceed rest plain rfl, sane.callers, size ▸ sane.memory⟩
  · exact regular_fail regular

theorem followed_regular (sane : Sane module wanted ⟨frame, callers, depth, memory, steps, host⟩)
    (rest : frame.rest = instruction :: behind) {destination : Destination}
    (leads : destination ∈ instruction.operation.destinations) :
    (followed frame callers depth memory (steps + 1) host destination).Regular
      module wanted := by
  obtain ⟨registers, went, arrived⟩ := sane.frame.arrive rest leads
  rw [followed, went]
  exact ⟨arrived, sane.callers, sane.memory⟩

/-- Computing gives a word or traps. -/
theorem compute_cases (sane : Sane module wanted ⟨frame, callers, depth, memory, steps, host⟩)
    (fits : ¬ Wraps (⟨frame, callers, depth, memory, steps, host⟩ : Machine σ))
    (rest : frame.rest = instruction :: behind) (computes : instruction.operation.computes = true) :
    (∃ word, compute frame.function frame.slots frame.registers memory instruction.operation =
      some (.ok word)) ∨
    ∃ trap, compute frame.function frame.slots frame.registers memory instruction.operation =
      some (.error trap) ∧ (Fault.trap frame.function.name trap).Regular := by
  have operand := sane.frame.operand rest
  have sustained := (sane.frame.equipped rest).sustained
  cases operation : instruction.operation with
  | constant type word => exact .inl ⟨word, rfl⟩
  | arithmetic kind left right =>
      rw [operation] at operand
      have first := operand left (by simp [Operation.operands])
      have second := operand right (by simp [Operation.operands])
      simp only [compute, Array.getElem?_eq_getElem first, Array.getElem?_eq_getElem second,
        Option.bind_eq_bind, Option.bind_some]
      cases kind with
      | add | subtract | multiply => exact .inl ⟨_, rfl⟩
      | divide =>
          simp only
          split
          · exact .inr ⟨.divisionByZero, rfl, trivial⟩
          · exact .inl ⟨_, rfl⟩
  | compare condition left right =>
      rw [operation] at operand
      have first := operand left (by simp [Operation.operands])
      have second := operand right (by simp [Operation.operands])
      simp only [compute, Array.getElem?_eq_getElem first, Array.getElem?_eq_getElem second,
        Option.bind_eq_bind, Option.bind_some]
      exact .inl ⟨_, rfl⟩
  | signExtend type value =>
      rw [operation] at operand
      have inside := operand value (by simp [Operation.operands])
      obtain ⟨found, typed⟩ := Function.type?_isSome (sane.frame.registers ▸ inside)
      simp only [compute, Array.getElem?_eq_getElem inside, typed, Option.bind_eq_bind,
        Option.bind_some]
      exact .inl ⟨_, rfl⟩
  | slotAddress type slot offset =>
      rw [operation] at sustained
      have inside : slot.index < frame.slots.size := sane.frame.slots ▸ sustained.1
      simp only [compute, Array.getElem?_eq_getElem inside, Option.bind_eq_bind,
        Option.bind_some]
      exact .inl ⟨_, rfl⟩
  | load type address offset =>
      rw [operation] at operand
      have inside := operand address (by simp [Operation.operands])
      have enough : ¬ Memory.Wraps (frame.registers[address.index] + offset) type.size := by
        intro wraps
        refine fits ⟨instruction, by rw [rest]; rfl, (_, type.size), ?_, wraps⟩
        simp [Frame.access?, operation, inside]
      simp only [compute, Array.getElem?_eq_getElem inside, Option.bind_eq_bind,
        Option.bind_some]
      split
      · rename_i permitted
        obtain ⟨word, loaded⟩ := Memory.load_isSome sane.memory permitted enough
        exact .inl ⟨word, by rw [loaded, Option.map_some]⟩
      · exact .inr ⟨.memoryAccess _, rfl, trivial⟩
  | _ =>
      rw [operation] at computes
      cases computes

/-- Writing to memory succeeds or traps. -/
theorem write_cases (sane : Sane module wanted ⟨frame, callers, depth, memory, steps, host⟩)
    {value : Value} (inside : value.index < frame.registers.size) {place : Int64}
    (enough : ∀ type, frame.function.type? value = some type → ¬ Memory.Wraps place type.size) :
    (∃ later, write frame.function frame.registers memory value place = some (.ok later) ∧
      later.size = memory.size) ∨
    ∃ trap, write frame.function frame.registers memory value place = some (.error trap) ∧
      (Fault.trap frame.function.name trap).Regular := by
  obtain ⟨type, typed⟩ := Function.type?_isSome (sane.frame.registers ▸ inside)
  simp only [write, Array.getElem?_eq_getElem inside, typed, Option.bind_eq_bind,
    Option.bind_some]
  split
  · rename_i permitted
    obtain ⟨later, stored⟩ := Memory.store_isSome sane.memory permitted (enough type typed)
      frame.registers[value.index]
    exact .inl ⟨later, by rw [stored, Option.map_some], Memory.size_store stored⟩
  · exact .inr ⟨.memoryAccess place, rfl, trivial⟩

theorem update_store (sane : Sane module wanted ⟨frame, callers, depth, memory, steps, host⟩)
    (fits : ¬ Wraps (⟨frame, callers, depth, memory, steps, host⟩ : Machine σ))
    (rest : frame.rest = instruction :: behind) {value address : Value} {offset : Int64}
    (operation : instruction.operation = .store value address offset) :
    (updated frame behind callers depth (steps + 1) host (update frame.function frame.slots
      frame.registers memory (.store value address offset))).Regular module wanted := by
  have operand := sane.frame.operand rest
  rw [operation] at operand
  have first := operand value (by simp [Operation.operands])
  have second := operand address (by simp [Operation.operands])
  refine updated_regular sane rest (by rw [Instruction.isTerminator, operation]; rfl) ?_
  simp only [update, Array.getElem?_eq_getElem second, Option.bind_eq_bind, Option.bind_some]
  refine write_cases sane first fun type typed wraps => ?_
  refine fits ⟨instruction, by rw [rest]; rfl, (_, type.size), ?_, wraps⟩
  simp [Frame.access?, operation, second, typed]

theorem update_slotStore (sane : Sane module wanted ⟨frame, callers, depth, memory, steps, host⟩)
    (fits : ¬ Wraps (⟨frame, callers, depth, memory, steps, host⟩ : Machine σ))
    (rest : frame.rest = instruction :: behind) {value : Value} {slot : Slot} {offset : Int64}
    (operation : instruction.operation = .slotStore value slot offset) :
    (updated frame behind callers depth (steps + 1) host (update frame.function frame.slots
      frame.registers memory (.slotStore value slot offset))).Regular module wanted := by
  have operand := sane.frame.operand rest
  have sustained := (sane.frame.equipped rest).sustained
  rw [operation] at operand sustained
  have first := operand value (by simp [Operation.operands])
  have second : slot.index < frame.slots.size := sane.frame.slots ▸ sustained
  refine updated_regular sane rest (by rw [Instruction.isTerminator, operation]; rfl) ?_
  simp only [update, Array.getElem?_eq_getElem second, Option.bind_eq_bind, Option.bind_some]
  refine write_cases sane first fun type typed wraps => ?_
  refine fits ⟨instruction, by rw [rest]; rfl, (_, type.size), ?_, wraps⟩
  simp [Frame.access?, operation, second, typed]

end Cases

end Machine

/-- A call of a declared function leads to its body, to the host or to a regular fault. -/
theorem Environment.callee_cases {environment : Environment σ}
    (consistent : environment.module.Consistent) {id : FunctionId} {wanted : Prototype}
    (known : environment.module.Knows id wanted) :
    (∃ fault, environment.callee id = .absent fault ∧ fault.Regular) ∨
    (∃ name run, environment.callee id = .host name wanted.results.length run) ∨
    ∃ function, environment.callee id = .body function ∧
      environment.module.Supports function ∧ function.prototype = wanted := by
  obtain ⟨declaration, found, rfl⟩ := known
  simp only [callee, found]
  cases body : declaration.body with
  | some function =>
      obtain ⟨supports, same⟩ := consistent id declaration function found body
      exact .inr (.inr ⟨function, rfl, supports, same⟩)
  | none =>
      simp only
      split
      · exact .inl ⟨_, rfl, trivial⟩
      · cases environment.host declaration.name with
        | none => exact .inl ⟨_, rfl, trivial⟩
        | some run => exact .inr (.inl ⟨_, run, rfl⟩)

/-- A function of the host gives the wanted number of words or a regular fault. -/
theorem callHost_cases (name : String) (wanted : Nat) (run : HostFunction σ)
    (arguments : List Int64) (host : σ) :
    ∃ later, (∃ words, callHost name wanted run arguments host = (.ok words, later) ∧
      words.length = wanted) ∨
      ∃ fault, callHost name wanted run arguments host = (.error fault, later) ∧
        fault.Regular := by
  rw [callHost]
  obtain ⟨answer, later⟩ := run arguments host
  refine ⟨later, ?_⟩
  cases answer with
  | error text => exact .inr ⟨_, rfl, trivial⟩
  | ok words =>
      by_cases same : words.length = wanted
      · exact .inl ⟨words, by simp only [if_pos same], same⟩
      · exact .inr ⟨.hostResults name words.length wanted, by simp only [if_neg same], trivial⟩

namespace Machine

variable {environment : Environment σ} {wanted : Nat}

section Calls

variable {frame : Frame} {instruction : Instruction} {behind : List Instruction}
  {callers : List (Frame × List Value)} {depth steps : Nat} {memory : Memory} {host : σ}

def called (environment : Environment σ) (frame : Frame) (results : List Value)
    (behind : List Instruction) (callers : List (Frame × List Value)) (depth : Nat)
    (memory : Memory) (steps : Nat) (host : σ) (id : FunctionId) (words : List Int64) : Step σ :=
  match environment.callee id with
  | .absent fault => fail steps host fault
  | .host name wanted run =>
    match callHost name wanted run words host with
    | (.error fault, host) => fail steps host fault
    | (.ok answer, host) =>
      match writeAll frame.registers results answer with
      | some registers =>
        .next ⟨⟨frame.function, frame.block, behind, registers, frame.slots, frame.floor⟩,
          callers, depth, memory, steps, host⟩
      | none => fail steps host .broken
  | .body callee =>
    match enter callee words depth memory with
    | .error fault => fail steps host fault
    | .ok (entered, memory) =>
      .next ⟨entered, (⟨frame.function, frame.block, behind, frame.registers, frame.slots,
        frame.floor⟩, results) :: callers, depth + 1, memory, steps, host⟩

theorem called_regular (consistent : environment.module.Consistent)
    (sane : Sane environment.module wanted ⟨frame, callers, depth, memory, steps, host⟩)
    (rest : frame.rest = instruction :: behind) (plain : instruction.isTerminator = false)
    {external : External}
    (known : environment.module.Knows external.id external.prototype) {words : List Int64}
    (given : words.length = external.prototype.parameters.length)
    (taken : instruction.results.length = external.prototype.results.length) :
    (called environment frame instruction.results behind callers depth memory (steps + 1) host
      external.id words).Regular environment.module wanted := by
  have inside := (sane.frame.equipped rest).results
  rw [called]
  rcases Environment.callee_cases consistent known with ⟨fault, absent, regular⟩ |
    ⟨name, run, supplied⟩ | ⟨callee, body, supports, same⟩
  · simp only [absent]
    exact regular_fail regular
  · simp only [supplied]
    obtain ⟨later, ⟨answer, ended, count⟩ | ⟨fault, ended, regular⟩⟩ :=
      callHost_cases name external.prototype.results.length run words host
    · obtain ⟨registers, written⟩ := @writeAll_isSome _ frame.registers instruction.results answer
        (by rw [sane.frame.registers]; exact inside) (Nat.le_of_eq (taken.trans count.symm))
      simp only [ended, written]
      exact ⟨sane.frame.proceed rest plain (writeAll_size written), sane.callers, sane.memory⟩
    · simp only [ended]
      exact regular_fail regular
  · simp only [body]
    rcases enter_cases supports (by rw [given, same]) depth sane.memory with
      (error | error) | ⟨entered, grown, entering, arrived, equal, small⟩
    · simp only [error]
      exact regular_fail trivial
    · simp only [error]
      exact regular_fail trivial
    · simp only [entering]
      refine ⟨arrived, ⟨sane.frame.proceed rest plain rfl, ?_, inside, sane.callers⟩, small⟩
      rw [equal, same]
      exact taken

def returned (floor : Nat) (callers : List (Frame × List Value)) (depth : Nat) (memory : Memory)
    (steps : Nat) (host : σ) (words : List Int64) : Step σ :=
  match callers with
  | [] => .halt ⟨.ok words, steps, host⟩
  | (caller, results) :: callers =>
    match writeAll caller.registers results words with
    | some registers =>
      .next ⟨{ caller with registers }, callers, depth - 1, memory.release floor, steps, host⟩
    | none => fail steps host .broken

theorem returned_regular
    (sane : Sane environment.module wanted ⟨frame, callers, depth, memory, steps, host⟩)
    {words : List Int64} (count : words.length = frame.function.prototype.results.length) :
    (returned frame.floor callers depth memory (steps + 1) host words).Regular
      environment.module wanted := by
  have waits := sane.callers
  cases callers with
  | nil => exact .inl ⟨words, rfl, count.trans waits⟩
  | cons caller callers =>
      obtain ⟨caller, results⟩ := caller
      obtain ⟨ready, same, inside, others⟩ := waits
      obtain ⟨registers, written⟩ := @writeAll_isSome _ caller.registers results words
        (by rw [ready.registers]; exact inside) (Nat.le_of_eq (same.trans count.symm))
      simp only [returned, written]
      exact ⟨⟨ready.supports, ready.placed, ready.rest, ready.unfinished,
        (writeAll_size written).trans ready.registers, ready.slots⟩, others,
        (Memory.size_release frame.floor).trans sane.memory⟩

end Calls

/-- What one step keeps: a sane machine goes on as a sane machine, or the run ends regularly. -/
theorem Sane.step {machine : Machine σ} (consistent : environment.module.Consistent)
    (sane : machine.Sane environment.module wanted) (fits : ¬ machine.Wraps) :
    (machine.step environment).Regular environment.module wanted := by
  obtain ⟨⟨function, block, rest, registers, slots, floor⟩, callers, depth, memory, steps, host⟩ :=
    machine
  cases rest with
  | nil => exact absurd rfl sane.frame.unfinished
  | cons instruction behind =>
      have operand : ∀ value ∈ instruction.operation.operands, value.index < registers.size :=
        sane.frame.operand rfl
      have equipped : instruction.Equipped function := sane.frame.equipped rfl
      have sustained := equipped.sustained
      have plain (nonterminal : instruction.operation.opcode.isTerminator = false) :
          instruction.isTerminator = false := nonterminal
      simp only [Machine.step]
      split
      · exact regular_fail trivial
      · cases operation : instruction.operation with
        | call reference arguments =>
            rw [operation] at operand sustained
            obtain ⟨external, found, given, taken⟩ := sustained
            obtain ⟨words, read, length⟩ : ∃ words, readAll registers arguments = some words ∧
              words.length = arguments.length := readAll_isSome operand
            have known := sane.frame.supports.references external (Array.mem_of_getElem? found)
            simp only [read, found]
            exact called_regular consistent sane rfl (plain (by rw [operation]; rfl)) known
              (length.trans given) taken
        | branch condition onTrue onFalse =>
            rw [operation] at operand
            have inside := operand condition (by simp [Operation.operands])
            simp only [Array.getElem?_eq_getElem inside]
            refine followed_regular sane rfl ?_
            rw [operation]
            split <;> simp [Operation.destinations]
        | jump destination =>
            refine followed_regular sane rfl ?_
            rw [operation]
            exact List.mem_cons_self
        | ret values =>
            rw [operation] at operand
            obtain ⟨words, read, length⟩ : ∃ words, readAll registers values = some words ∧
              words.length = values.length := readAll_isSome operand
            obtain ⟨entry, _, formed⟩ := sane.frame.formed
            have typed := formed.returns instruction (sane.frame.member rfl) values operation
            simp only [read]
            exact returned_regular sane (length.trans typed.length_eq)
        | unknown code | malformed kind condition values =>
            rw [operation] at sustained
            exact sustained.elim
        | store value address offset =>
            exact update_store sane fits rfl operation
        | slotStore value slot offset =>
            exact update_slotStore sane fits rfl operation
        | slotAddress type slot offset =>
            rw [operation] at sustained
            have done := compute_cases sane fits rfl (by rw [operation]; rfl)
            rw [operation] at done
            exact computed_regular sane rfl (plain (by rw [operation]; rfl)) sustained.2 done
        | _ =>
            rw [operation] at sustained
            have done := compute_cases sane fits rfl (by rw [operation]; rfl)
            rw [operation] at done
            exact computed_regular sane rfl (plain (by rw [operation]; rfl)) sustained done

/-- A run comes from one machine to another. -/
def Reaches (environment : Environment σ) : Machine σ → Machine σ → Prop :=
  Relation.ReflTransGen fun machine later => machine.step environment = .next later

/-- What a run keeps: if no access wraps on the way, it can only end regularly. -/
theorem Sane.run {machine : Machine σ} (consistent : environment.module.Consistent)
    (sane : machine.Sane environment.module wanted)
    (fits : ∀ later, Reaches environment machine later → ¬ later.Wraps) {fuel : Nat}
    {halt : Halt σ} (ended : machine.run environment fuel = some halt) : halt.Regular wanted := by
  induction fuel generalizing machine with
  | zero => cases ended
  | succ fuel induction =>
      have regular := sane.step consistent (fits machine .refl)
      rw [Machine.run] at ended
      cases stepped : machine.step environment with
      | next later =>
          rw [stepped] at ended regular
          exact induction regular (fun last reached => fits last (.head stepped reached)) ended
      | halt ending =>
          rw [stepped] at ended regular
          cases ended
          exact regular

end Machine

def Machine.calm (environment : Environment σ) : (fuel : Nat) → Machine σ → Bool
  | 0, _ => false
  | fuel + 1, machine =>
    !decide machine.Wraps && match machine.step environment with
      | .next later => calm environment fuel later
      | .halt _ => true

def Step.calm (environment : Environment σ) (fuel : Nat) : Step σ → Bool
  | next machine => machine.calm environment fuel
  | halt _ => true

theorem Machine.not_wraps_of_calm {environment : Environment σ} {machine later : Machine σ}
    {fuel : Nat} (calm : machine.calm environment fuel = true)
    (reached : Reaches environment machine later) : ¬ later.Wraps := by
  induction fuel generalizing machine with
  | zero => cases calm
  | succ fuel induction =>
      simp only [Machine.calm, Bool.and_eq_true, Bool.not_eq_true', decide_eq_false_iff_not]
        at calm
      rcases reached.cases_head with rfl | ⟨middle, stepped, rest⟩
      · exact calm.1
      · simp only [stepped] at calm
        exact induction calm.2 rest

/-- A call of a declared function with the declared number of arguments starts sanely. -/
theorem Environment.start_regular {environment : Environment σ}
    (consistent : environment.module.Consistent) {name : String} {id : FunctionId}
    {declaration : Declaration} (named : environment.module.find? name = some id)
    (declared : environment.module.declaration? id = some declaration)
    {arguments : List Int64} (count : arguments.length = declaration.prototype.parameters.length)
    (steps : Nat) (host : σ) :
    (environment.start name arguments steps host).Regular environment.module
      declaration.prototype.results.length := by
  have known : environment.module.Knows id declaration.prototype := ⟨declaration, declared, rfl⟩
  simp only [start, named]
  rcases callee_cases consistent known with ⟨fault, absent, regular⟩ | ⟨called, run, supplied⟩ |
    ⟨function, body, supports, same⟩
  · simp only [absent]
    exact Machine.regular_fail regular
  · simp only [supplied]
    obtain ⟨later, ⟨words, ended, length⟩ | ⟨fault, ended, regular⟩⟩ :=
      callHost_cases called declaration.prototype.results.length run arguments host
    · exact .inl ⟨words, congrArg Prod.fst ended, length⟩
    · exact .inr ⟨fault, congrArg Prod.fst ended, regular⟩
  · simp only [body]
    have given : arguments.length = function.prototype.parameters.length := by rw [count, same]
    rcases @enter_cases _ function supports arguments given 0 .empty (Nat.zero_le _) with
      (error | error) | ⟨frame, memory, entering, sane, equal, small⟩
    · simp only [error]
      exact Machine.regular_fail trivial
    · simp only [error]
      exact Machine.regular_fail trivial
    · simp only [entering]
      refine ⟨sane, ?_, small⟩
      rw [equal, same]
      rfl

/-- A function that a workspace has accepted can only end with as many words as it declares, with
a trap, or with a fault of the surroundings, unless the end of a memory access wraps. -/
theorem accepted_functions_do_not_go_wrong {σ : Type} {module : String}
    {requests : List Request} (allowed : (Workspace.empty module).AllowsAll requests)
    {environment : Environment σ}
    (same : environment.module = ((Workspace.empty module).handleAll requests).module)
    {name : String} {id : FunctionId} {declaration : Declaration}
    (named : environment.module.find? name = some id)
    (declared : environment.module.declaration? id = some declaration)
    {arguments : List Int64}
    (count : arguments.length = declaration.prototype.parameters.length) (steps : Nat)
    (host : σ)
    (fits : ∀ first later, environment.start name arguments steps host = .next first →
      Machine.Reaches environment first later → ¬ later.Wraps) {fuel : Nat} {halt : Halt σ}
    (ended : environment.call fuel name arguments steps host = some halt) :
    halt.Regular declaration.prototype.results.length := by
  have consistent : environment.module.Consistent := by
    rw [same]
    exact ((Workspace.Orderly.empty module).handleAll allowed).consistent
  have regular := Environment.start_regular consistent named declared count steps host
  rw [Environment.call] at ended
  cases started : environment.start name arguments steps host with
  | next first =>
      rw [started] at ended regular
      exact regular.run consistent (fun later => fits first later started) ended
  | halt ending =>
      rw [started] at ended regular
      cases ended
      exact regular

/-- A function that halves its argument, and one that passes a word to it that was on its
stack. -/
def halving : List Request := [
  .declare "half" ⟨[.i64], [.i64]⟩ .internal,
  .build ⟨0⟩,
  .declare "main" ⟨[.i64], [.i64]⟩ .exported,
  .build ⟨1⟩,
  .command 1 .createBlock,
  .command 0 .createBlock,
  .command 0 (.switchTo ⟨0⟩),
  .command 0 (.appendFunctionParameters ⟨0⟩),
  .command 0 (.emit (.constant .i64 2)),
  .command 0 (.emit (.arithmetic .divide ⟨0⟩ ⟨1⟩)),
  .command 0 (.emit (.ret [⟨2⟩])),
  .command 0 .sealAll,
  .command 1 (.switchTo ⟨0⟩),
  .command 1 (.appendFunctionParameters ⟨0⟩),
  .command 1 (.createSlot 8),
  .define ⟨0⟩ (some 0),
  .command 1 (.emit (.slotStore ⟨0⟩ ⟨0⟩ 0)),
  .command 1 (.emit (.slotAddress ⟨0⟩ 0)),
  .command 1 (.emit (.load .i64 ⟨1⟩ 0)),
  .command 1 (.importFunction (.empty "") ⟨0⟩),
  .command 1 (.emit (.call ⟨0⟩ [⟨2⟩])),
  .command 1 (.emit (.ret [⟨3⟩])),
  .command 1 .sealAll,
  .define ⟨1⟩ (some 1)]

def halvingEnvironment : Environment Unit where
  module := ((Workspace.empty "halving").handleAll halving).module
  host _ := none
  limit := none

theorem halvingEnvironment_calm :
    (halvingEnvironment.start "main" [14] 0 ()).calm halvingEnvironment 20 = true := by
  decide +kernel

theorem accepted_functions_do_not_go_wrong_halving :
    (Workspace.empty "halving").AllowsAll halving ∧
      ∃ halt, halvingEnvironment.call 20 "main" [14] 0 () = some halt ∧ halt.Regular 1 := by
  have allowed : (Workspace.empty "halving").AllowsAll halving := by decide +kernel
  have named : halvingEnvironment.module.find? "main" = some ⟨1⟩ := by decide +kernel
  obtain ⟨declaration, declared, prototype⟩ :
      ∃ declaration, halvingEnvironment.module.declaration? ⟨1⟩ = some declaration ∧
        declaration.prototype = ⟨[.i64], [.i64]⟩ := by
    refine ⟨_, Array.getElem?_eq_getElem (by decide +kernel), by decide +kernel⟩
  obtain ⟨halt, ended⟩ := Option.isSome_iff_exists.mp
    (show (halvingEnvironment.call 20 "main" [14] 0 ()).isSome = true by decide +kernel)
  refine ⟨allowed, halt, ended, ?_⟩
  have same : halvingEnvironment.module =
      ((Workspace.empty "halving").handleAll halving).module := by rw [halvingEnvironment]
  have regular := accepted_functions_do_not_go_wrong allowed same named declared
    (by rw [prototype]; rfl) 0 () ?_ ended
  · rw [prototype] at regular
    exact regular
  · intro first later started reached
    have calm := halvingEnvironment_calm
    rw [started] at calm
    exact Machine.not_wraps_of_calm calm reached

end ExprLang.Ssa
