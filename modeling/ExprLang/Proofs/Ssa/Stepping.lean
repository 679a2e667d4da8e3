import ExprLang.Ssa.Machine
import Mathlib

/-!
# Single steps of the machine

What can change in the activation that is executed when the machine goes on.
-/

namespace ExprLang.Ssa

/-! ## Registers -/

theorem readAll_eq_some {registers : Array α} {values : List Value} {words : List α} :
    readAll registers values = some words ↔
      List.Forall₂ (fun value word => registers[value.index]? = some word) values words := by
  induction values generalizing words with
  | nil =>
      cases words <;> simp [readAll]
  | cons value rest induction =>
      rw [List.forall₂_cons_left_iff]
      simp only [readAll, Option.bind_eq_bind, Option.bind_eq_some_iff, Option.pure_def,
        Option.some.injEq, ← induction]
      constructor
      · rintro ⟨word, first, others, read, rfl⟩
        exact ⟨word, others, first, read, rfl⟩
      · rintro ⟨word, others, first, read, rfl⟩
        exact ⟨word, first, others, read, rfl⟩

theorem writeAll_size {registers later : Array α} {values : List Value} {words : List α}
    (written : writeAll registers values words = some later) : later.size = registers.size := by
  induction values generalizing registers words with
  | nil =>
      cases written
      rfl
  | cons value rest induction =>
      cases words with
      | nil => cases written
      | cons word words =>
          rw [writeAll] at written
          split at written
          · rw [induction written]
            simp
          · cases written

theorem writeAll_of_not_mem {registers later : Array α} {values : List Value} {words : List α}
    (written : writeAll registers values words = some later) {value : Value}
    (other : value ∉ values) : later[value.index]? = registers[value.index]? := by
  induction values generalizing registers words with
  | nil =>
      cases written
      rfl
  | cons first rest induction =>
      cases words with
      | nil => cases written
      | cons word words =>
          rw [List.mem_cons, not_or] at other
          rw [writeAll] at written
          split at written
          · rw [induction written other.2]
            have different : first.index ≠ value.index := by
              intro equal
              apply other.1
              cases value
              cases first
              exact congrArg Value.mk equal.symm
            rw [Array.getElem?_setIfInBounds_ne different]
          · cases written

theorem writeAll_of_nodup {registers later : Array α} {values : List Value} {words : List α}
    (written : writeAll registers values words = some later) (distinct : values.Nodup)
    (same : values.length = words.length) :
    List.Forall₂ (fun value word => later[value.index]? = some word) values words := by
  induction values generalizing registers words with
  | nil =>
      cases words with
      | nil => exact .nil
      | cons _ _ => cases same
  | cons first rest induction =>
      cases words with
      | nil => cases written
      | cons word words =>
          obtain ⟨fresh, others⟩ := List.nodup_cons.mp distinct
          rw [writeAll] at written
          split at written
          · rename_i inside
            refine .cons ?_ (induction written others (by simpa using same))
            rw [writeAll_of_not_mem written fresh]
            simp [inside]
          · cases written

theorem writeAll_isSome {registers : Array α} {values : List Value} {words : List α}
    (inside : ∀ value ∈ values, value.index < registers.size)
    (same : values.length ≤ words.length) :
    ∃ later, writeAll registers values words = some later := by
  induction values generalizing registers words with
  | nil => exact ⟨registers, rfl⟩
  | cons first rest induction =>
      cases words with
      | nil => simp at same
      | cons word words =>
          rw [writeAll, if_pos (inside first List.mem_cons_self)]
          refine induction ?_ (by simpa using same)
          intro value member
          simpa using inside value (List.mem_cons_of_mem first member)

/-! ## The start of an activation -/

theorem activate_eq_ok {function : Function} {arguments : List Int64} {floor : Nat}
    {memory grown : Memory} {frame : Frame} :
    activate function arguments floor memory = .ok (frame, grown) ↔
      ∃ slots entry block registers,
        allocateAll memory function.slots.toList = some (slots, grown) ∧
        function.entry? = some entry ∧ function.block? entry = some block ∧
        writeAll (Array.replicate function.values.size 0) block.parameters arguments =
          some registers ∧
        frame = ⟨function, entry, block.instructions, registers, slots.toArray, floor⟩ := by
  rw [activate]
  cases allocateAll memory function.slots.toList with
  | none => simp
  | some allocated =>
      obtain ⟨slots, reserved⟩ := allocated
      cases function.entry? with
      | none => simp
      | some entry =>
          cases found : function.block? entry with
          | none => simp [found]
          | some block =>
              cases written : writeAll (Array.replicate function.values.size 0)
                  block.parameters arguments with
              | none => simp [found, written]
              | some registers =>
                  simp only [found, written, Option.bind_eq_bind, Option.bind_some,
                    Option.pure_def, Except.ok.injEq, Prod.mk.injEq, Option.some.injEq]
                  constructor
                  · rintro ⟨rfl, rfl⟩
                    exact ⟨slots, entry, block, registers, ⟨rfl, rfl⟩, rfl, found, written, rfl⟩
                  · rintro ⟨_, _, _, _, ⟨rfl, rfl⟩, rfl, again, wrote, rfl⟩
                    rw [found] at again
                    cases again
                    rw [written] at wrote
                    cases wrote
                    exact ⟨rfl, rfl⟩

namespace Machine

variable {environment : Environment σ} {machine later : Machine σ}

/-- Control passes to a block that exists when its arguments can be read. -/
theorem follow_eq_some {function : Function} {registers later : Array Int64}
    {destination : Destination} {instructions : List Instruction} :
    follow function registers destination = some (instructions, later) ↔
      ∃ words, readAll registers destination.arguments = some words ∧
        function.block? destination.block = some (function.block destination.block) ∧
        writeAll registers (function.block destination.block).parameters words = some later ∧
        instructions = (function.block destination.block).instructions := by
  simp only [follow, Option.bind_eq_bind, Option.bind_eq_some_iff, Option.pure_def,
    Option.some.injEq, Prod.mk.injEq]
  constructor
  · rintro ⟨words, read, block, found, written, wrote, rfl, rfl⟩
    have same : function.block destination.block = block := by
      rw [Function.block, found]
      rfl
    rw [same]
    exact ⟨words, read, found, wrote, rfl⟩
  · rintro ⟨words, read, found, wrote, rfl⟩
    exact ⟨words, read, _, found, later, wrote, rfl, rfl⟩

/-- The activation goes on to the next instruction; only results of the instruction change. -/
structure Continues (frame next : Frame) (instruction : Instruction) : Prop where
  rest : frame.rest = instruction :: next.rest
  plain : instruction.isTerminator = false
  function : next.function = frame.function
  block : next.block = frame.block
  slots : next.slots = frame.slots
  floor : next.floor = frame.floor
  size : next.registers.size = frame.registers.size
  others : ∀ value, value ∉ instruction.results →
    next.registers[value.index]? = frame.registers[value.index]?

structure Branches (frame next : Frame) (instruction : Instruction) (destination : Destination)
    (words : List Int64) : Prop where
  rest : ∃ behind, frame.rest = instruction :: behind
  leads : destination ∈ instruction.operation.destinations
  read : readAll frame.registers destination.arguments = some words
  function : next.function = frame.function
  block : next.block = destination.block
  found : ∃ block, frame.function.block? destination.block = some block ∧
    next.rest = block.instructions ∧
    writeAll frame.registers block.parameters words = some next.registers
  slots : next.slots = frame.slots
  floor : next.floor = frame.floor

section Cases

variable {frame : Frame} {instruction : Instruction} {behind : List Instruction}
  {callers : List (Frame × List Value)} {depth steps : Nat} {memory : Memory} {host : σ}

def computed (frame : Frame) (instruction : Instruction) (behind : List Instruction)
    (callers : List (Frame × List Value)) (depth : Nat) (memory : Memory) (steps : Nat) (host : σ)
    (outcome : Option (Except Trap Int64)) : Step σ :=
  match outcome, instruction.results with
  | some (.ok word), result :: _ =>
    if result.index < frame.registers.size then
      .next ⟨⟨frame.function, frame.block, behind,
        frame.registers.setIfInBounds result.index word, frame.slots, frame.floor⟩, callers, depth,
        memory, steps, host⟩
    else fail steps host .broken
  | some (.error trap), _ => fail steps host (.trap frame.function.name trap)
  | _, _ => fail steps host .broken

theorem computed_next {outcome : Option (Except Trap Int64)}
    (next : computed frame instruction behind callers depth memory steps host outcome =
      .next later) (rest : frame.rest = instruction :: behind)
    (plain : instruction.isTerminator = false) :
    later.callers = callers ∧ Continues frame later.frame instruction := by
  unfold computed at next
  split at next
  · rename_i word result others results
    split at next
    · cases next
      refine ⟨rfl, rest, plain, rfl, rfl, rfl, rfl, by simp, ?_⟩
      intro value other
      have different : result.index ≠ value.index := by
        intro equal
        apply other
        rw [results]
        cases value
        cases result
        cases equal
        exact List.mem_cons_self
      exact Array.getElem?_setIfInBounds_ne different
    · cases next
  · cases next
  · cases next

def updated (frame : Frame) (behind : List Instruction) (callers : List (Frame × List Value))
    (depth steps : Nat) (host : σ) (outcome : Option (Except Trap Memory)) : Step σ :=
  match outcome with
  | some (.ok memory) =>
    .next ⟨{ frame with rest := behind }, callers, depth, memory, steps, host⟩
  | some (.error trap) => fail steps host (.trap frame.function.name trap)
  | none => fail steps host .broken

theorem updated_next {outcome : Option (Except Trap Memory)}
    (next : updated frame behind callers depth steps host outcome = .next later)
    (rest : frame.rest = instruction :: behind) (plain : instruction.isTerminator = false) :
    later.callers = callers ∧ Continues frame later.frame instruction := by
  unfold updated at next
  split at next
  · cases next
    exact ⟨rfl, rest, plain, rfl, rfl, rfl, rfl, rfl, fun _ _ => rfl⟩
  · cases next
  · cases next

def followed (frame : Frame) (callers : List (Frame × List Value)) (depth : Nat)
    (memory : Memory) (steps : Nat) (host : σ) (destination : Destination) : Step σ :=
  match follow frame.function frame.registers destination with
  | some (instructions, registers) =>
    .next ⟨⟨frame.function, destination.block, instructions, registers, frame.slots,
      frame.floor⟩, callers, depth, memory, steps, host⟩
  | none => fail steps host .broken

theorem followed_next {destination : Destination}
    (next : followed frame callers depth memory steps host destination = .next later)
    (rest : frame.rest = instruction :: behind)
    (leads : destination ∈ instruction.operation.destinations) :
    later.callers = callers ∧
      ∃ words, Branches frame later.frame instruction destination words := by
  unfold followed at next
  split at next
  · rename_i instructions registers went
    cases next
    simp only [follow, Option.bind_eq_bind, Option.bind_eq_some_iff, Option.pure_def,
      Option.some.injEq, Prod.mk.injEq] at went
    obtain ⟨words, read, block, found, written, wrote, rfl, rfl⟩ := went
    exact ⟨rfl, words, ⟨behind, rest⟩, leads, read, rfl, rfl, ⟨block, found, rfl, wrote⟩, rfl, rfl⟩
  · cases next

end Cases

/-- What the machine does when it goes on: it continues or branches in the activation, enters
a function, or returns to the activation that waits. -/
theorem step_next (next : machine.step environment = .next later) :
    ∃ instruction, machine.frame.rest.head? = some instruction ∧
      ((later.callers = machine.callers ∧ Continues machine.frame later.frame instruction) ∨
      (later.callers = machine.callers ∧ ∃ destination words,
        Branches machine.frame later.frame instruction destination words) ∨
      (instruction.isTerminator = false ∧
        later.callers = ({ machine.frame with rest := machine.frame.rest.tail },
          instruction.results) :: machine.callers) ∨
      ∃ caller results words registers,
        machine.callers = (caller, results) :: later.callers ∧
        writeAll caller.registers results words = some registers ∧
        later.frame = { caller with registers }) := by
  obtain ⟨⟨function, block, rest, registers, slots, floor⟩, callers, depth, memory, steps, host⟩ :=
    machine
  cases rest with
  | nil => cases next
  | cons instruction behind =>
      refine ⟨instruction, rfl, ?_⟩
      let frame : Frame := ⟨function, block, instruction :: behind, registers, slots, floor⟩
      have plain (nonterminal : instruction.operation.opcode.isTerminator = false) :
          instruction.isTerminator = false := nonterminal
      simp only [step] at next
      split at next
      · cases next
      · cases operation : instruction.operation with
        | call reference arguments =>
            simp only [operation] at next
            have nonterminal := plain (by rw [operation]; rfl)
            split at next
            · split at next
              · cases next
              · split at next
                · cases next
                · split at next
                  · rename_i written
                    cases next
                    exact .inl ⟨rfl, rfl, nonterminal, rfl, rfl, rfl, rfl, writeAll_size written,
                      fun _ => writeAll_of_not_mem written⟩
                  · cases next
              · split at next
                · cases next
                · cases next
                  exact .inr (.inr (.inl ⟨nonterminal, rfl⟩))
            · cases next
        | branch condition onTrue onFalse =>
            simp only [operation] at next
            split at next
            · rename_i word _
              have went : followed frame callers depth memory (steps + 1) host
                  (if word ≠ 0 then onTrue else onFalse) = .next later := next
              have leads : (if word ≠ 0 then onTrue else onFalse) ∈
                  instruction.operation.destinations := by
                rw [operation]
                split <;> simp [Operation.destinations]
              obtain ⟨same, words, branches⟩ := followed_next went rfl leads
              exact .inr (.inl ⟨same, _, words, branches⟩)
            · cases next
        | jump destination =>
            simp only [operation] at next
            have went : followed frame callers depth memory (steps + 1) host destination =
              .next later := next
            have leads : destination ∈ instruction.operation.destinations := by
              rw [operation]
              simp [Operation.destinations]
            obtain ⟨same, words, branches⟩ := followed_next went rfl leads
            exact .inr (.inl ⟨same, _, words, branches⟩)
        | ret values =>
            simp only [operation] at next
            split at next
            · rename_i words _
              cases callers with
              | nil => cases next
              | cons caller callers =>
                  obtain ⟨caller, results⟩ := caller
                  simp only at next
                  split at next
                  · rename_i written
                    cases next
                    exact .inr (.inr (.inr ⟨caller, results, words, _, rfl, written, rfl⟩))
                  · cases next
            · cases next
        | unknown code => simp [operation, fail] at next
        | store value address offset =>
            simp only [operation] at next
            have went : updated frame behind callers depth (steps + 1) host
              (update function slots registers memory (.store value address offset)) =
                .next later := next
            exact .inl (updated_next went rfl (plain (by rw [operation]; rfl)))
        | slotStore value slot offset =>
            simp only [operation] at next
            have went : updated frame behind callers depth (steps + 1) host
              (update function slots registers memory (.slotStore value slot offset)) =
                .next later := next
            exact .inl (updated_next went rfl (plain (by rw [operation]; rfl)))
        | malformed kind condition values => simp [operation, compute, fail] at next
        | _ =>
            simp only [operation] at next
            have went : computed frame instruction behind callers depth memory (steps + 1) host
              (compute function slots registers memory _) = .next later := next
            exact .inl (computed_next went rfl (plain (by rw [operation]; rfl)))

end Machine

end ExprLang.Ssa
