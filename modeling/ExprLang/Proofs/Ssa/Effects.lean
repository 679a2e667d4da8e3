import ExprLang.Proofs.Ssa.Stepping

/-!
# Effects of instructions

What one step of a machine does to registers, memory, waiting activations and the host, one rule
for each kind of instruction.
-/

namespace ExprLang.Ssa

namespace Machine

inductive Effect (environment : Environment σ) : Machine σ → Machine σ → Prop
  | compute {frame : Frame} {callers : List (Frame × List Value)} {depth steps : Nat}
      {memory : Memory} {host : σ} {instruction : Instruction} {behind : List Instruction}
      {result : Value} {others : List Value} {word : Int64}
      (rest : frame.rest = instruction :: behind)
      (computed : compute frame.function frame.slots frame.registers memory
        instruction.operation = some (.ok word))
      (results : instruction.results = result :: others)
      (inside : result.index < frame.registers.size) :
      Effect environment ⟨frame, callers, depth, memory, steps, host⟩
        ⟨{ frame with
          rest := behind
          registers := frame.registers.setIfInBounds result.index word },
          callers, depth, memory, steps + 1, host⟩
  | write {frame : Frame} {callers : List (Frame × List Value)} {depth steps : Nat}
      {memory later : Memory} {host : σ} {instruction : Instruction} {behind : List Instruction}
      (rest : frame.rest = instruction :: behind)
      (updated : update frame.function frame.slots frame.registers memory
        instruction.operation = some (.ok later)) :
      Effect environment ⟨frame, callers, depth, memory, steps, host⟩
        ⟨{ frame with rest := behind }, callers, depth, later, steps + 1, host⟩
  | host {frame : Frame} {callers : List (Frame × List Value)} {depth steps : Nat}
      {memory : Memory} {host after : σ} {instruction : Instruction} {behind : List Instruction}
      {reference : Reference} {arguments : List Value} {words results : List Int64}
      {external : External} {name : String} {wanted : Nat} {run : HostFunction σ}
      {registers : Array Int64}
      (rest : frame.rest = instruction :: behind)
      (operation : instruction.operation = .call reference arguments)
      (read : readAll frame.registers arguments = some words)
      (found : frame.function.references[reference.index]? = some external)
      (callee : environment.callee external.id = .host name wanted run)
      (answered : run words host = (.ok results, after))
      (count : results.length = wanted)
      (written : writeAll frame.registers instruction.results results = some registers) :
      Effect environment ⟨frame, callers, depth, memory, steps, host⟩
        ⟨{ frame with rest := behind, registers }, callers, depth, memory, steps + 1, after⟩
  | enter {frame inner : Frame} {callers : List (Frame × List Value)} {depth steps : Nat}
      {memory later : Memory} {host : σ} {instruction : Instruction} {behind : List Instruction}
      {reference : Reference} {arguments : List Value} {words : List Int64}
      {external : External} {callee : Function}
      (rest : frame.rest = instruction :: behind)
      (operation : instruction.operation = .call reference arguments)
      (read : readAll frame.registers arguments = some words)
      (found : frame.function.references[reference.index]? = some external)
      (body : environment.callee external.id = .body callee)
      (entered : enter callee words depth memory = .ok (inner, later)) :
      Effect environment ⟨frame, callers, depth, memory, steps, host⟩
        ⟨inner, ({ frame with rest := behind }, instruction.results) :: callers, depth + 1, later,
          steps + 1, host⟩
  | branch {frame : Frame} {callers : List (Frame × List Value)} {depth steps : Nat}
      {memory : Memory} {host : σ} {instruction : Instruction}
      {behind instructions : List Instruction} {condition : Value} {onTrue onFalse : Destination}
      {word : Int64} {registers : Array Int64}
      (rest : frame.rest = instruction :: behind)
      (operation : instruction.operation = .branch condition onTrue onFalse)
      (tested : frame.registers[condition.index]? = some word)
      (went : follow frame.function frame.registers (if word ≠ 0 then onTrue else onFalse) =
        some (instructions, registers)) :
      Effect environment ⟨frame, callers, depth, memory, steps, host⟩
        ⟨⟨frame.function, (if word ≠ 0 then onTrue else onFalse).block, instructions, registers,
          frame.slots, frame.floor⟩, callers, depth, memory, steps + 1, host⟩
  | jump {frame : Frame} {callers : List (Frame × List Value)} {depth steps : Nat}
      {memory : Memory} {host : σ} {instruction : Instruction}
      {behind instructions : List Instruction} {destination : Destination}
      {registers : Array Int64}
      (rest : frame.rest = instruction :: behind)
      (operation : instruction.operation = .jump destination)
      (went : follow frame.function frame.registers destination =
        some (instructions, registers)) :
      Effect environment ⟨frame, callers, depth, memory, steps, host⟩
        ⟨⟨frame.function, destination.block, instructions, registers, frame.slots, frame.floor⟩,
          callers, depth, memory, steps + 1, host⟩
  | ret {frame caller : Frame} {callers : List (Frame × List Value)} {depth steps : Nat}
      {memory : Memory} {host : σ} {instruction : Instruction} {behind : List Instruction}
      {values results : List Value} {words : List Int64} {registers : Array Int64}
      (rest : frame.rest = instruction :: behind)
      (operation : instruction.operation = .ret values)
      (read : readAll frame.registers values = some words)
      (written : writeAll caller.registers results words = some registers) :
      Effect environment ⟨frame, (caller, results) :: callers, depth, memory, steps, host⟩
        ⟨{ caller with registers }, callers, depth - 1, memory.release frame.floor, steps + 1,
          host⟩

variable {environment : Environment σ} {machine later : Machine σ}

theorem callHost_eq_ok {name : String} {wanted : Nat} {run : HostFunction σ}
    {words results : List Int64} {host after : σ}
    (answered : callHost name wanted run words host = (.ok results, after)) :
    run words host = (.ok results, after) ∧ results.length = wanted := by
  rw [callHost] at answered
  split at answered
  · cases answered
  · rename_i same
    split at answered
    · cases answered
      exact ⟨same, ‹_›⟩
    · cases answered

theorem effect_of_step (next : machine.step environment = .next later) :
    Effect environment machine later := by
  obtain ⟨⟨function, block, rest, registers, slots, floor⟩, callers, depth, memory, steps, host⟩ :=
    machine
  cases rest with
  | nil => cases next
  | cons instruction behind =>
      simp only [step] at next
      split at next
      · cases next
      · cases operation : instruction.operation with
        | call reference arguments =>
            simp only [operation] at next
            split at next
            · rename_i words external read found
              split at next
              · cases next
              · rename_i name wanted run callee
                split at next
                · cases next
                · rename_i results after answered
                  obtain ⟨answered, count⟩ := callHost_eq_ok answered
                  split at next
                  · rename_i written
                    cases next
                    exact .host rfl operation read found callee answered count written
                  · cases next
              · rename_i callee body
                split at next
                · cases next
                · rename_i entered
                  cases next
                  exact .enter rfl operation read found body entered
            · cases next
        | branch condition onTrue onFalse =>
            simp only [operation] at next
            split at next
            · rename_i tested
              split at next
              · rename_i went
                cases next
                exact .branch rfl operation tested went
              · cases next
            · cases next
        | jump destination =>
            simp only [operation] at next
            split at next
            · rename_i went
              cases next
              exact .jump rfl operation went
            · cases next
        | ret values =>
            simp only [operation] at next
            split at next
            · rename_i read
              cases callers with
              | nil => cases next
              | cons waiting callers =>
                  obtain ⟨caller, results⟩ := waiting
                  simp only at next
                  split at next
                  · rename_i written
                    cases next
                    exact .ret rfl operation read written
                  · cases next
            · cases next
        | unknown code => simp [operation, fail] at next
        | store value address offset =>
            simp only [operation] at next
            split at next
            · rename_i updated
              cases next
              exact .write rfl (by rw [operation]; exact updated)
            · cases next
            · cases next
        | slotStore value slot offset =>
            simp only [operation] at next
            split at next
            · rename_i updated
              cases next
              exact .write rfl (by rw [operation]; exact updated)
            · cases next
            · cases next
        | malformed kind condition values => simp [operation, compute, fail] at next
        | _ =>
            simp only [operation] at next
            split at next
            · rename_i computed results
              split at next
              · rename_i inside
                cases next
                exact .compute rfl (by rw [operation]; exact computed) results inside
              · cases next
            · cases next
            · cases next

/-- What an instruction says is done unless the steps are used up. -/
theorem Effect.step (effect : Effect environment machine later)
    (allowed : environment.exceeds (machine.steps + 1) = false) :
    machine.step environment = .next later := by
  cases effect with
  | @compute frame callers depth steps memory host instruction behind result others word rest
      computed results inside =>
      obtain ⟨function, block, _, registers, slots, floor⟩ := frame
      subst rest
      simp only at allowed computed inside
      simp only [Machine.step, allowed, Bool.false_eq_true, if_false]
      cases operation : instruction.operation with
      | constant | arithmetic | compare | signExtend | load | slotAddress =>
          simp only [operation] at computed
          simp only [computed, results, if_pos inside]
      | _ => simp [operation, Machine.compute] at computed
  | @write frame callers depth steps memory later host instruction behind rest updated =>
      obtain ⟨function, block, _, registers, slots, floor⟩ := frame
      subst rest
      simp only at allowed updated
      simp only [Machine.step, allowed, Bool.false_eq_true, if_false]
      cases operation : instruction.operation with
      | store | slotStore =>
          simp only [operation] at updated
          simp only [updated]
      | _ => simp [operation, Machine.update] at updated
  | @host frame _ _ _ _ _ _ _ _ _ _ _ _ _ _ _ _ _ rest operation read found callee answered count
      written =>
      obtain ⟨function, block, _, registers, slots, floor⟩ := frame
      subst rest
      simp only at allowed read found written
      simp only [Machine.step, allowed, Bool.false_eq_true, if_false, operation, read, found,
        callee, callHost, answered, if_pos count, written]
  | @enter frame _ _ _ _ _ _ _ _ _ _ _ _ _ _ rest operation read found body entered =>
      obtain ⟨function, block, _, registers, slots, floor⟩ := frame
      subst rest
      simp only at allowed read found entered
      simp only [Machine.step, allowed, Bool.false_eq_true, if_false, operation, read, found, body,
        entered]
  | @branch frame _ _ _ _ _ _ _ _ _ _ _ _ _ rest operation tested went =>
      obtain ⟨function, block, _, registers, slots, floor⟩ := frame
      subst rest
      simp only at allowed tested went
      simp only [Machine.step, allowed, Bool.false_eq_true, if_false, operation, tested, went]
  | @jump frame _ _ _ _ _ _ _ _ _ _ rest operation went =>
      obtain ⟨function, block, _, registers, slots, floor⟩ := frame
      subst rest
      simp only at allowed went
      simp only [Machine.step, allowed, Bool.false_eq_true, if_false, operation, went]
  | @ret frame _ _ _ _ _ _ _ _ _ _ _ _ rest operation read written =>
      obtain ⟨function, block, _, registers, slots, floor⟩ := frame
      subst rest
      simp only at allowed read
      simp only [Machine.step, allowed, Bool.false_eq_true, if_false, operation, read, written]

/-- A run without faults ends when the outermost activation returns. -/
theorem step_eq_halt_ok {words : List Int64} {steps : Nat} {host : σ}
    (halted : machine.step environment = .halt ⟨.ok words, steps, host⟩) :
    ∃ instruction behind values, machine.frame.rest = instruction :: behind ∧
      instruction.operation = .ret values ∧
      readAll machine.frame.registers values = some words ∧ machine.callers = [] ∧
      steps = machine.steps + 1 ∧ host = machine.host := by
  obtain ⟨⟨function, block, rest, registers, slots, floor⟩, callers, depth, memory, before, old⟩ :=
    machine
  cases rest with
  | nil => cases halted
  | cons instruction behind =>
      simp only [step] at halted
      split at halted
      · cases halted
      · cases operation : instruction.operation with
        | ret values =>
            simp only [operation] at halted
            split at halted
            · rename_i read
              cases callers with
              | nil =>
                  cases halted
                  exact ⟨instruction, behind, values, rfl, operation, read, rfl, rfl, rfl⟩
              | cons waiting callers =>
                  simp only at halted
                  split at halted <;> cases halted
            · cases halted
        | call reference arguments =>
            simp only [operation] at halted
            repeat' split at halted
            all_goals cases halted
        | malformed kind condition values => simp [operation, compute, fail] at halted
        | _ =>
            simp only [operation] at halted
            repeat' split at halted
            all_goals cases halted

/-! ## Calls and returns -/

section Calls

variable {frame : Frame} {callers : List (Frame × List Value)} {depth steps : Nat}
  {memory : Memory} {host : σ} {instruction : Instruction} {behind : List Instruction}
  {reference : Reference} {arguments : List Value} {words : List Int64} {external : External}

/-- A call of a function that is not there. -/
theorem step_call_absent {fault : Fault} (rest : frame.rest = instruction :: behind)
    (allowed : environment.exceeds (steps + 1) = false)
    (operation : instruction.operation = .call reference arguments)
    (read : readAll frame.registers arguments = some words)
    (found : frame.function.references[reference.index]? = some external)
    (absent : environment.callee external.id = .absent fault) :
    step environment ⟨frame, callers, depth, memory, steps, host⟩ =
      fail (steps + 1) host fault := by
  obtain ⟨function, block, _, registers, slots, floor⟩ := frame
  subst rest
  simp only at read found
  simp only [step, allowed, Bool.false_eq_true, if_false, operation, read, found, absent]

/-- A call of a function of the host that fails. -/
theorem step_call_failed {name : String} {wanted : Nat} {run : HostFunction σ} {fault : Fault}
    {after : σ} (rest : frame.rest = instruction :: behind)
    (allowed : environment.exceeds (steps + 1) = false)
    (operation : instruction.operation = .call reference arguments)
    (read : readAll frame.registers arguments = some words)
    (found : frame.function.references[reference.index]? = some external)
    (callee : environment.callee external.id = .host name wanted run)
    (failed : callHost name wanted run words host = (.error fault, after)) :
    step environment ⟨frame, callers, depth, memory, steps, host⟩ =
      fail (steps + 1) after fault := by
  obtain ⟨function, block, _, registers, slots, floor⟩ := frame
  subst rest
  simp only at read found
  simp only [step, allowed, Bool.false_eq_true, if_false, operation, read, found, callee, failed]

/-- A call of a function that cannot be entered. -/
theorem step_call_refused {callee : Function} {fault : Fault}
    (rest : frame.rest = instruction :: behind)
    (allowed : environment.exceeds (steps + 1) = false)
    (operation : instruction.operation = .call reference arguments)
    (read : readAll frame.registers arguments = some words)
    (found : frame.function.references[reference.index]? = some external)
    (body : environment.callee external.id = .body callee)
    (refused : enter callee words depth memory = .error fault) :
    step environment ⟨frame, callers, depth, memory, steps, host⟩ =
      fail (steps + 1) host fault := by
  obtain ⟨function, block, _, registers, slots, floor⟩ := frame
  subst rest
  simp only at read found
  simp only [step, allowed, Bool.false_eq_true, if_false, operation, read, found, body, refused]

/-- The end of a call from outside. -/
theorem step_ret {values : List Value} (rest : frame.rest = instruction :: behind)
    (allowed : environment.exceeds (steps + 1) = false)
    (operation : instruction.operation = .ret values)
    (read : readAll frame.registers values = some words) :
    step environment ⟨frame, [], depth, memory, steps, host⟩ =
      .halt ⟨.ok words, steps + 1, host⟩ := by
  obtain ⟨function, block, _, registers, slots, floor⟩ := frame
  subst rest
  simp only at read
  simp only [step, allowed, Bool.false_eq_true, if_false, operation, read]

end Calls

end Machine

end ExprLang.Ssa
