import ExprLang.Proofs.Ssa.Reuse

/-!
# Calls that do not depend on earlier ones

An interpreter between two calls is idle: no activation is left and no octet is in use. One that
is at work mirrors a machine that started without any memory, instruction by instruction. So it
answers as if it had answered no call before, and is idle again.
-/

namespace ExprLang.Ssa

/-- What a function of the host answers depends on its arguments only. -/
def Host.Pure (host : Host σ) : Prop :=
  ∀ name run, host name = some run →
    ∀ arguments first second, (run arguments first).1 = (run arguments second).1

/-- As many instructions were executed and the host is in the same state, unless nothing depends
on them. -/
def Alike (free : Prop) (steps : Nat) (host : σ) (otherSteps : Nat) (otherHost : σ) : Prop :=
  free ∨ (steps = otherSteps ∧ host = otherHost)

/-- The floors of activations, the innermost one first: none is above the one before it, and the
last one is the ground. -/
def Grounded : (top : Nat) → List Frame → Prop
  | top, [] => top = 0
  | top, frame :: callers => frame.floor ≤ top ∧ Grounded frame.floor callers

/-- An interpreter that is not at work. -/
structure Interpreter.Idle (interpreter : Interpreter σ) : Prop where
  whole : interpreter.stack.octets.size = Memory.capacity
  top : interpreter.stack.top = 0
  depth : interpreter.depth = 0

inductive Execution.Mirrors (free : Prop) : Execution σ → Machine σ → Prop
  | intro {frame : Frame} {callers : List (Frame × List Value)} {stack : Stack} {memory : Memory}
      {depth steps otherSteps : Nat} {host otherHost : σ} (shows : stack.Shows memory)
      (grounded : Grounded memory.size (frame :: callers.map Prod.fst))
      (entered : depth = callers.length + 1)
      (alike : Alike free steps host otherSteps otherHost) :
      Mirrors free ⟨frame, callers, ⟨stack, depth, steps, host⟩⟩
        ⟨frame, callers, depth, memory, otherSteps, otherHost⟩

inductive Progress.Matches (free : Prop) : Progress σ → Step σ → Prop
  | next {execution : Execution σ} {machine : Machine σ}
      (mirrors : execution.Mirrors free machine) : Matches free (.next execution) (.next machine)
  | done {interpreter : Interpreter σ} {outcome : Except Fault (List Int64)} {steps : Nat}
      {host : σ} (idle : interpreter.Idle)
      (alike : Alike free interpreter.steps interpreter.host steps host) :
      Matches free (.done outcome interpreter) (.halt ⟨outcome, steps, host⟩)

section

variable {environment : Environment σ} {free : Prop} {steps otherSteps depth : Nat}
  {host otherHost : σ} {frame : Frame} {callers : List (Frame × List Value)}
  {memory other : Memory} {stack : Stack}

/-! ## What two hosts answer -/

theorem Alike.exceeds (alike : Alike free steps host otherSteps otherHost)
    (regardless : free → environment.limit = none ∧ environment.host.Pure) (more : Nat) :
    environment.exceeds (steps + more) = environment.exceeds (otherSteps + more) := by
  rcases alike with isFree | ⟨rfl, _⟩
  · simp only [Environment.exceeds, (regardless isFree).1]
  · rfl

theorem Alike.count (alike : Alike free steps host otherSteps otherHost) (more : Nat) :
    Alike free (steps + more) host (otherSteps + more) otherHost :=
  alike.imp id fun same => ⟨congrArg (· + more) same.1, same.2⟩

theorem Environment.host_of_callee {id : FunctionId} {name : String} {wanted : Nat}
    {run : HostFunction σ} (leads : environment.callee id = .host name wanted run) :
    ∃ declaration, environment.module.declaration? id = some declaration ∧
      declaration.linkage = .imported ∧ declaration.name = name ∧
      declaration.prototype.results.length = wanted ∧ environment.host name = some run := by
  unfold callee at leads
  split at leads
  · cases leads
  · rename_i declaration found
    split at leads
    · cases leads
    · split at leads
      · cases leads
      · rename_i linked
        split at leads
        · cases leads
        · rename_i supplied
          cases leads
          exact ⟨declaration, found, not_not.mp linked, rfl, rfl, supplied⟩

/-- The host is called with the same outcome. -/
theorem Alike.callHost (alike : Alike free steps host otherSteps otherHost)
    (regardless : free → environment.limit = none ∧ environment.host.Pure) {name : String}
    {run : HostFunction σ} (supplied : environment.host name = some run) (wanted : Nat)
    (words : List Int64) :
    (Ssa.callHost name wanted run words host).1 = (Ssa.callHost name wanted run words otherHost).1 ∧
      Alike free steps (Ssa.callHost name wanted run words host).2 otherSteps
        (Ssa.callHost name wanted run words otherHost).2 := by
  rcases alike with isFree | ⟨rfl, rfl⟩
  · refine ⟨?_, .inl isFree⟩
    have same := (regardless isFree).2 name run supplied words host otherHost
    rw [Ssa.callHost, Ssa.callHost]
    generalize run words host = first at same
    generalize run words otherHost = second at same
    obtain ⟨outcome, host⟩ := first
    obtain ⟨_, otherHost⟩ := second
    cases same
    cases outcome with
    | error text => rfl
    | ok results =>
        dsimp only
        split <;> rfl
  · exact ⟨rfl, .inr ⟨rfl, rfl⟩⟩

/-! ## Instructions that take no notice of memory -/

inductive Step.Echoes (free : Prop) (floor : Nat) (callers : List (Frame × List Value))
    (depth : Nat) (memory other : Memory) : Step σ → Step σ → Prop
  | next {frame : Frame} {steps otherSteps : Nat} {host otherHost : σ} (kept : frame.floor = floor)
      (alike : Alike free steps host otherSteps otherHost) :
      Echoes free floor callers depth memory other
        (.next ⟨frame, callers, depth, memory, steps, host⟩)
        (.next ⟨frame, callers, depth, other, otherSteps, otherHost⟩)
  | halt {outcome : Except Fault (List Int64)} {steps otherSteps : Nat} {host otherHost : σ}
      (alike : Alike free steps host otherSteps otherHost) :
      Echoes free floor callers depth memory other (.halt ⟨outcome, steps, host⟩)
        (.halt ⟨outcome, otherSteps, otherHost⟩)

namespace Step.Echoes

theorem computed (frame : Frame) (alike : Alike free steps host otherSteps otherHost)
    (instruction : Instruction) (behind : List Instruction) (outcome : Option (Except Trap Int64)) :
    Echoes free frame.floor callers depth memory other
      (Machine.computed frame instruction behind callers depth memory steps host outcome)
      (Machine.computed frame instruction behind callers depth other otherSteps otherHost
        outcome) := by
  unfold Machine.computed
  rcases outcome with _ | trap | word
  · exact .halt alike
  · exact .halt alike
  · cases instruction.results with
    | nil => exact .halt alike
    | cons result results =>
        dsimp only
        split
        · exact .next rfl alike
        · exact .halt alike

theorem followed (frame : Frame) (alike : Alike free steps host otherSteps otherHost)
    (destination : Destination) :
    Echoes free frame.floor callers depth memory other
      (Machine.followed frame callers depth memory steps host destination)
      (Machine.followed frame callers depth other otherSteps otherHost destination) := by
  unfold Machine.followed
  split
  · exact .next rfl alike
  · exact .halt alike

end Step.Echoes

/-- Whether an operation takes no notice of memory, unless it enters a function. -/
def Operation.isAloof : Operation → Bool
  | .load _ _ _ | .store _ _ _ | .slotStore _ _ _ | .ret _ => false
  | _ => true

/-- Such an operation does the same whatever the memory is. -/
theorem Machine.step_echoes (alike : Alike free steps host otherSteps otherHost)
    (regardless : free → environment.limit = none ∧ environment.host.Pure)
    {instruction : Instruction} {rest : List Instruction} (split : frame.rest = instruction :: rest)
    (aloof : instruction.operation.isAloof = true)
    (stays : Execution.entered? environment frame.function frame.registers
      instruction.operation = none) :
    Step.Echoes free frame.floor callers depth memory other
      (Machine.step environment ⟨frame, callers, depth, memory, steps, host⟩)
      (Machine.step environment ⟨frame, callers, depth, other, otherSteps, otherHost⟩) := by
  obtain ⟨function, block, _, registers, slots, floor⟩ := frame
  cases split
  let frame : Frame := ⟨function, block, instruction :: rest, registers, slots, floor⟩
  have counted := alike.count 1
  simp only [step, ← alike.exceeds regardless]
  by_cases exceeds : environment.exceeds (steps + 1) = true
  · rw [if_pos exceeds, if_pos exceeds]
    exact .halt counted
  rw [if_neg exceeds, if_neg exceeds]
  cases operation : instruction.operation with
  | load type address offset => simp [operation, Operation.isAloof] at aloof
  | store value address offset => simp [operation, Operation.isAloof] at aloof
  | slotStore value slot offset => simp [operation, Operation.isAloof] at aloof
  | ret values => simp [operation, Operation.isAloof] at aloof
  | call reference arguments =>
      simp only
      cases read : readAll registers arguments with
      | none => exact .halt counted
      | some words =>
          cases found : function.references[reference.index]? with
          | none => exact .halt counted
          | some external =>
              dsimp only
              cases leads : environment.callee external.id with
              | absent fault => exact .halt counted
              | body callee => simp [operation, Execution.entered?, read, found, leads] at stays
              | host name wanted run =>
                  obtain ⟨_, _, _, _, _, supplied⟩ := Environment.host_of_callee leads
                  obtain ⟨same, later⟩ :=
                    counted.callHost regardless supplied wanted words
                  dsimp only
                  generalize callHost name wanted run words host = first at same later
                  generalize callHost name wanted run words otherHost = second at same later
                  obtain ⟨outcome, host⟩ := first
                  obtain ⟨_, otherHost⟩ := second
                  cases same
                  cases outcome with
                  | error fault => exact .halt later
                  | ok results =>
                      dsimp only
                      split
                      · exact .next rfl later
                      · exact .halt later
  | branch condition onTrue onFalse =>
      simp only
      split
      · exact .followed frame counted _
      · exact .halt counted
  | jump destination => exact .followed frame counted _
  | unknown code => exact .halt counted
  | malformed kind condition values => exact .halt counted
  | _ => exact .computed frame counted instruction rest _

/-! ## Leaving activations -/

theorem foldl_leave {frames : List Frame} {interpreter : Interpreter σ}
    (grounded : Grounded interpreter.stack.top frames) :
    frames.foldl (fun interpreter frame => interpreter.leave frame.floor) interpreter =
      ⟨⟨interpreter.stack.octets, 0⟩, interpreter.depth - frames.length, interpreter.steps,
        interpreter.host⟩ := by
  induction frames generalizing interpreter with
  | nil =>
      obtain ⟨⟨octets, top⟩, depth, steps, host⟩ := interpreter
      cases (grounded : top = 0)
      rfl
  | cons frame frames induction =>
      obtain ⟨⟨octets, top⟩, depth, steps, host⟩ := interpreter
      rw [List.foldl_cons, induction grounded.2, List.length_cons, Nat.add_comm, Nat.sub_add_eq]
      rfl

namespace Execution

theorem finish_matches {outcome : Except Fault (List Int64)} (shows : stack.Shows memory)
    (grounded : Grounded memory.size (frame :: callers.map Prod.fst))
    (entered : depth = callers.length + 1) (alike : Alike free steps host otherSteps otherHost) :
    Progress.Matches free (finish frame callers ⟨stack, depth, steps, host⟩ outcome)
      (.halt ⟨outcome, otherSteps, otherHost⟩) := by
  rw [← shows.top] at grounded
  have left := @foldl_leave σ (frame :: callers.map Prod.fst) ⟨stack, depth, steps, host⟩ grounded
  rw [finish, left]
  refine .done ⟨shows.whole, rfl, ?_⟩ alike
  simp [entered]

/-! ## Entering a function -/

/-- A function is entered in the same way, or not at all; then nothing has changed. -/
theorem enter_matches (shows : stack.Shows memory) (function : Function) (words : List Int64)
    (depth steps : Nat) (host : σ) :
    (∃ fault octets, Interpreter.enter function words ⟨stack, depth, steps, host⟩ =
        (.error fault, ⟨⟨octets, stack.top⟩, depth, steps, host⟩) ∧
      enter function words depth memory = .error fault ∧
      Stack.Shows ⟨octets, stack.top⟩ memory) ∨
    ∃ inner grown later, Interpreter.enter function words ⟨stack, depth, steps, host⟩ =
        (.ok inner, ⟨grown, depth + 1, steps, host⟩) ∧
      enter function words depth memory = .ok (inner, later) ∧ grown.Shows later ∧
      inner.floor = memory.size ∧ memory.size ≤ later.size := by
  obtain ⟨octets, top⟩ := stack
  have same : top = memory.size := shows.top
  subst same
  simp only [Interpreter.enter, enter]
  by_cases wanted : words.length = function.prototype.parameters.length
  · rw [if_neg (not_not_intro wanted), if_neg (not_not_intro wanted)]
    by_cases deep : maximalDepth ≤ depth
    · rw [if_pos deep, if_pos deep]
      exact .inl ⟨_, octets, rfl, rfl, shows⟩
    · rw [if_neg deep, if_neg deep, activate]
      have abandoned := shows.abandon function.slots.toList
      rcases shows.allocateAll function.slots.toList with
        ⟨left, right⟩ | ⟨slots, later, left, right, grown⟩
      · simp only [left, right]
        exact .inl ⟨_, _, rfl, rfl, abandoned⟩
      · simp only [left, right]
        split
        · rename_i missing
          rw [missing]
          exact .inl ⟨_, _, rfl, rfl, abandoned⟩
        · rename_i inner built
          rw [built]
          refine .inr ⟨inner, _, later, rfl, rfl, grown, ?_, ?_⟩
          · simp only [Option.bind_eq_bind, Option.bind_eq_some_iff, Option.pure_def,
              Option.some.injEq] at built
            obtain ⟨_, _, _, _, _, _, rfl⟩ := built
            rfl
          · rw [(allocateAll_places right).2.1]
            exact Nat.le_add_right _ _
  · rw [if_pos wanted, if_pos wanted]
    exact .inl ⟨_, octets, rfl, rfl, shows⟩

theorem of_entered {function callee : Function} {registers : Array Int64} {operation : Operation}
    {words : List Int64}
    (enters : entered? environment function registers operation = some (callee, words)) :
    ∃ reference arguments external, operation = .call reference arguments ∧
      readAll registers arguments = some words ∧
      function.references[reference.index]? = some external ∧
      environment.callee external.id = .body callee := by
  cases operation with
  | call reference arguments =>
      simp only [entered?, Option.bind_eq_bind, Option.bind_eq_some_iff] at enters
      obtain ⟨_, read, external, found, enters⟩ := enters
      split at enters
      · cases enters
        exact ⟨reference, arguments, external, rfl, read, found, ‹_›⟩
      · cases enters
  | _ => cases enters

/-! ## One instruction -/

/-- An operation that enters no function and takes no notice of memory. -/
theorem proceed_matches (shows : stack.Shows memory)
    (grounded : Grounded memory.size (frame :: callers.map Prod.fst))
    (entered : depth = callers.length + 1) {next : Step σ}
    (echoes : Step.Echoes free frame.floor callers depth .empty memory
      (Machine.step environment ⟨frame, callers, depth, .empty, steps, host⟩) next) :
    Progress.Matches free (proceed environment frame callers ⟨stack, depth, steps, host⟩) next := by
  rw [proceed]
  generalize Machine.step environment ⟨frame, callers, depth, .empty, steps, host⟩ = first at echoes
  cases echoes with
  | next kept alike =>
      refine .next (.intro shows ⟨?_, ?_⟩ entered alike)
      · rw [kept]
        exact grounded.1
      · rw [kept]
        exact grounded.2
  | halt alike => exact finish_matches shows grounded entered alike

/-- An operation that may enter a function, or else takes no notice of memory. -/
theorem aloof_matches (shows : stack.Shows memory)
    (grounded : Grounded memory.size (frame :: callers.map Prod.fst))
    (entered : depth = callers.length + 1) (alike : Alike free steps host otherSteps otherHost)
    (regardless : free → environment.limit = none ∧ environment.host.Pure)
    {instruction : Instruction} {rest : List Instruction} (split : frame.rest = instruction :: rest)
    (within : environment.exceeds (steps + 1) = false)
    (aloof : instruction.operation.isAloof = true) :
    Progress.Matches free
      (match entered? environment frame.function frame.registers instruction.operation with
      | none => proceed environment frame callers ⟨stack, depth, steps, host⟩
      | some (callee, words) =>
        match Interpreter.enter callee words ⟨stack, depth, steps + 1, host⟩ with
        | (.error fault, interpreter) =>
          finish { frame with rest } callers interpreter (.error fault)
        | (.ok inner, interpreter) =>
          .next ⟨inner, ({ frame with rest }, instruction.results) :: callers, interpreter⟩)
      (Machine.step environment ⟨frame, callers, depth, memory, otherSteps, otherHost⟩) := by
  cases stays : entered? environment frame.function frame.registers instruction.operation with
  | none =>
      exact proceed_matches shows grounded entered
        (Machine.step_echoes alike regardless split aloof stays)
  | some inside =>
      obtain ⟨callee, words⟩ := inside
      obtain ⟨reference, arguments, external, operation, read, found, leads⟩ := of_entered stays
      rw [alike.exceeds regardless] at within
      dsimp only
      rcases enter_matches shows callee words depth (steps + 1) host with
        ⟨fault, octets, left, right, abandoned⟩ |
        ⟨inner, grown, later, left, right, shown, floor, more⟩
      · rw [left, Machine.step_call_refused split within operation read found leads right]
        exact finish_matches abandoned grounded entered (alike.count 1)
      · have effect : Machine.Effect environment
            ⟨frame, callers, depth, memory, otherSteps, otherHost⟩ _ :=
          .enter split operation read found leads right
        rw [left, effect.step within]
        refine .next (.intro shown ⟨?_, ?_⟩ (congrArg (· + 1) entered) (alike.count 1))
        · rw [floor]
          exact more
        · rw [floor]
          exact grounded

theorem update_eq (function : Function) (slots registers : Array Int64) (memory : Memory)
    (operation : Operation) :
    Machine.update function slots registers memory operation =
      (written? function slots registers operation).bind fun (type, address, word) =>
        memory.stored type address word := by
  cases operation with
  | store value address offset =>
      simp only [Machine.update, Machine.write_eq, written?]
      cases registers[address.index]? <;> cases function.type? value <;>
        cases registers[value.index]? <;> rfl
  | slotStore value slot offset =>
      simp only [Machine.update, Machine.write_eq, written?]
      cases slots[slot.index]? <;> cases function.type? value <;>
        cases registers[value.index]? <;> rfl
  | _ => rfl

/-- An operation that writes to memory. -/
theorem store_matches (shows : stack.Shows memory)
    (grounded : Grounded memory.size (frame :: callers.map Prod.fst))
    (entered : depth = callers.length + 1) (alike : Alike free steps host otherSteps otherHost)
    (behind : List Instruction) (operation : Operation) :
    Progress.Matches free
      (match written? frame.function frame.slots frame.registers operation with
      | none =>
        finish { frame with rest := behind } callers ⟨stack, depth, steps, host⟩ (.error .broken)
      | some (type, address, word) =>
        if !stack.permits address type.size then
          finish { frame with rest := behind } callers ⟨stack, depth, steps, host⟩
            (.error (.trap frame.function.name (.memoryAccess address)))
        else if !stack.reaches type address then
          finish { frame with rest := behind } callers ⟨stack, depth, steps, host⟩ (.error .broken)
        else
          .next ⟨{ frame with rest := behind }, callers,
            ⟨stack.write type address word, depth, steps, host⟩⟩)
      (Machine.updated frame behind callers depth otherSteps otherHost
        (Machine.update frame.function frame.slots frame.registers memory operation)) := by
  rw [update_eq]
  cases written? frame.function frame.slots frame.registers operation with
  | none => exact finish_matches shows grounded entered alike
  | some triple =>
      obtain ⟨type, address, word⟩ := triple
      rw [Option.bind_some]
      dsimp only
      rcases shows.store type address word with
        ⟨refused, stored⟩ | ⟨permitted, missed, stored⟩ | ⟨permitted, reached, later, stored, shown⟩
      · rw [refused, stored]
        exact finish_matches shows grounded entered alike
      · rw [permitted, missed, stored]
        exact finish_matches shows grounded entered alike
      · rw [permitted, reached, stored]
        refine .next (.intro shown ?_ entered alike)
        rw [← shown.top, Stack.top_write, shows.top]
        exact grounded

/-- The return to an activation that waits. -/
theorem return_matches {caller : Frame} {results : List Value} (shows : stack.Shows memory)
    (grounded : Grounded memory.size (frame :: caller :: callers.map Prod.fst))
    (entered : depth = callers.length + 2) (alike : Alike free steps host otherSteps otherHost)
    (words : List Int64) :
    Progress.Matches free
      (match writeAll caller.registers results words with
      | none =>
        finish frame ((caller, results) :: callers) ⟨stack, depth, steps, host⟩ (.error .broken)
      | some registers =>
        .next ⟨{ caller with registers }, callers,
          (⟨stack, depth, steps, host⟩ : Interpreter σ).leave frame.floor⟩)
      (match writeAll caller.registers results words with
      | some registers =>
        .next ⟨{ caller with registers }, callers, depth - 1, memory.release frame.floor,
          otherSteps, otherHost⟩
      | none => Machine.fail otherSteps otherHost .broken) := by
  cases writeAll caller.registers results words with
  | none => exact finish_matches shows grounded entered alike
  | some registers =>
      obtain ⟨octets, top⟩ := stack
      have size := Memory.size_release_of_le grounded.1
      refine .next (.intro (shows.release grounded.1) ⟨?_, grounded.2.2⟩ ?_ alike)
      · rw [size]
        exact grounded.2.1
      · rw [entered]
        rfl

theorem Mirrors.step {execution : Execution σ} {machine : Machine σ}
    (mirrors : execution.Mirrors free machine)
    (regardless : free → environment.limit = none ∧ environment.host.Pure) :
    Progress.Matches free (execution.step environment) (machine.step environment) := by
  obtain ⟨shows, grounded, entered, alike⟩ := mirrors
  rename_i frame callers stack memory depth steps otherSteps host otherHost
  obtain ⟨function, block, rest, registers, slots, floor⟩ := frame
  cases rest with
  | nil => exact finish_matches shows grounded entered alike
  | cons instruction rest =>
      have counted := alike.count 1
      cases within : environment.exceeds (steps + 1) with
      | true =>
          have withinToo := within
          rw [alike.exceeds regardless] at withinToo
          simp only [Execution.step, Machine.step, within, withinToo, if_true]
          exact finish_matches shows grounded entered counted
      | false =>
          have withinToo := within
          rw [alike.exceeds regardless] at withinToo
          cases operation : instruction.operation with
          | load type address offset =>
              simp only [Execution.step, Machine.step, within, withinToo, operation,
                Bool.false_eq_true, if_false, Machine.compute_load, shows.load]
              cases (registers[address.index]?).bind fun start =>
                memory.loaded type (start + offset) with
              | none => exact finish_matches shows grounded entered counted
              | some outcome =>
                  cases outcome with
                  | error trap => exact finish_matches shows grounded entered counted
                  | ok word =>
                      cases instruction.results with
                      | nil => exact finish_matches shows grounded entered counted
                      | cons result results =>
                          dsimp only
                          split
                          · exact .next (.intro shows grounded entered counted)
                          · exact finish_matches shows grounded entered counted
          | store value address offset =>
              have stores := store_matches shows grounded entered counted rest
                (.store value address offset)
              simp only [Execution.step, Machine.step, within, withinToo, operation,
                Bool.false_eq_true, if_false]
              exact stores
          | slotStore value slot offset =>
              have stores := store_matches shows grounded entered counted rest
                (.slotStore value slot offset)
              simp only [Execution.step, Machine.step, within, withinToo, operation,
                Bool.false_eq_true, if_false]
              exact stores
          | ret values =>
              simp only [Execution.step, Machine.step, within, withinToo, operation,
                Bool.false_eq_true, if_false]
              cases readAll registers values with
              | none => exact finish_matches shows grounded entered counted
              | some words =>
                  cases callers with
                  | nil => exact finish_matches shows grounded entered counted
                  | cons caller callers =>
                      exact return_matches shows grounded entered counted words
          | _ =>
              have aloof := aloof_matches shows grounded entered alike regardless rfl within
                (by rw [operation]; rfl)
              simp only [Execution.step, within, operation, Bool.false_eq_true, if_false] at aloof ⊢
              exact aloof

end Execution

/-! ## Whole calls -/

/-- Answers of interpreters and ends of runs are the same; the interpreters are idle then. -/
inductive Answered (free : Prop) :
    Option (Except Fault (List Int64) × Interpreter σ) → Option (Halt σ) → Prop
  | unknown : Answered free none none
  | known {outcome : Except Fault (List Int64)} {interpreter : Interpreter σ} {steps : Nat}
      {host : σ} (idle : interpreter.Idle)
      (alike : Alike free interpreter.steps interpreter.host steps host) :
      Answered free (some (outcome, interpreter)) (some ⟨outcome, steps, host⟩)

theorem Answered.outcome {answer : Option (Except Fault (List Int64) × Interpreter σ)}
    {ending : Option (Halt σ)} (answered : Answered free answer ending) :
    answer.map Prod.fst = ending.map Halt.outcome := by
  cases answered <;> rfl

theorem Answered.idle {answer : Except Fault (List Int64) × Interpreter σ}
    {ending : Option (Halt σ)} (answered : Answered free (some answer) ending) :
    answer.2.Idle := by
  cases answered with
  | known idle _ => exact idle

theorem Answered.of_ended {answer : Option (Except Fault (List Int64) × Interpreter σ)}
    {ending : Halt σ} (answered : Answered False answer (some ending)) :
    ∃ later, answer = some (ending.outcome, later) ∧ later.host = ending.host := by
  cases answered with
  | known _ alike =>
      obtain ⟨-, same⟩ := alike.resolve_left False.elim
      exact ⟨_, rfl, same⟩

theorem Answered.of_answer {outcome : Except Fault (List Int64)} {interpreter : Interpreter σ}
    {ending : Option (Halt σ)} (answered : Answered False (some (outcome, interpreter)) ending) :
    ending = some ⟨outcome, interpreter.steps, interpreter.host⟩ := by
  cases answered with
  | known _ alike =>
      obtain ⟨steps, host⟩ := alike.resolve_left False.elim
      rw [steps, host]

theorem Execution.Mirrors.run {execution : Execution σ} {machine : Machine σ}
    (mirrors : execution.Mirrors free machine)
    (regardless : free → environment.limit = none ∧ environment.host.Pure) (fuel : Nat) :
    Answered free (execution.run environment fuel) (machine.run environment fuel) := by
  induction fuel generalizing execution machine with
  | zero => exact .unknown
  | succ fuel induction =>
      have step := mirrors.step regardless
      rw [Execution.run, Machine.run]
      generalize execution.step environment = progress at step
      generalize machine.step environment = next at step
      cases step with
      | next mirrors => exact induction mirrors
      | done idle alike => exact .known idle alike

namespace Interpreter.Idle

variable {interpreter : Interpreter σ}

theorem shows (idle : interpreter.Idle) : interpreter.stack.Shows .empty where
  whole := idle.whole
  top := idle.top
  small := Nat.zero_le _
  agree _ _ below := absurd below (Nat.not_lt_zero _)

/-- An idle interpreter answers a call as a machine does that starts without any memory, and is
idle again. -/
theorem call (idle : interpreter.Idle)
    (alike : Alike free interpreter.steps interpreter.host steps host)
    (regardless : free → environment.limit = none ∧ environment.host.Pure) (fuel : Nat)
    (name : String) (arguments : List Int64) :
    Answered free (interpreter.call environment fuel name arguments)
      (environment.call fuel name arguments steps host) := by
  rw [Interpreter.call, Environment.call, Environment.start]
  cases environment.module.find? name with
  | none => exact .known idle alike
  | some id =>
      dsimp only
      cases leads : environment.callee id with
      | absent fault => exact .known idle alike
      | host name wanted run =>
          obtain ⟨_, _, _, _, _, supplied⟩ := Environment.host_of_callee leads
          obtain ⟨same, later⟩ :=
            alike.callHost regardless supplied wanted arguments
          dsimp only
          rw [← same]
          exact .known ⟨idle.whole, idle.top, idle.depth⟩ later
      | body function =>
          obtain ⟨stack, depth, steps, host⟩ := interpreter
          have shows : stack.Shows .empty := idle.shows
          have none : depth = 0 := idle.depth
          subst none
          dsimp only
          rcases Execution.enter_matches shows function arguments 0 steps host with
            ⟨fault, octets, left, right, abandoned⟩ |
            ⟨inner, grown, later, left, right, shown, floor, _⟩
          · rw [left, right]
            exact .known ⟨abandoned.whole, shows.top, rfl⟩ alike
          · rw [left, right]
            refine Execution.Mirrors.run (.intro shown ⟨?_, ?_⟩ rfl alike) regardless fuel
            · rw [floor]
              exact Nat.zero_le _
            · exact floor

end Interpreter.Idle

end

theorem Interpreter.Idle.call_eq {environment : Environment σ} {interpreter : Interpreter σ}
    (idle : interpreter.Idle) (fuel : Nat) (name : String) (arguments : List Int64) :
    Answered False (interpreter.call environment fuel name arguments)
      (environment.call fuel name arguments interpreter.steps interpreter.host) :=
  idle.call (.inr ⟨rfl, rfl⟩) False.elim fuel name arguments

/-- If the host answers by the arguments alone, a machine that starts anew ends as well with what
an idle interpreter answers. -/
theorem Interpreter.Idle.outcome_eq {environment : Environment σ} {interpreter : Interpreter σ}
    (idle : interpreter.Idle) (unlimited : environment.limit = none)
    (pure : environment.host.Pure) (fuel : Nat) (name : String) (arguments : List Int64)
    (steps : Nat) (host : σ) :
    (interpreter.call environment fuel name arguments).map Prod.fst =
      (environment.call fuel name arguments steps host).map Halt.outcome := by
  have answered : Answered True (interpreter.call environment fuel name arguments)
      (environment.call fuel name arguments steps host) :=
    idle.call (.inl trivial) (fun _ => ⟨unlimited, pure⟩) fuel name arguments
  exact answered.outcome

/-! ## Sequences of calls -/

/-- An interpreter that has answered some calls, whatever became of them. -/
inductive Environment.Serves (environment : Environment σ) : Interpreter σ → Prop
  | start (host : σ) : Serves environment (.start host)
  | call {interpreter later : Interpreter σ} {fuel : Nat} {name : String} {arguments : List Int64}
      {outcome : Except Fault (List Int64)} (serves : Serves environment interpreter)
      (answered : interpreter.call environment fuel name arguments = some (outcome, later)) :
      Serves environment later

theorem Interpreter.Idle.of_call {environment : Environment σ} {interpreter later : Interpreter σ}
    (idle : interpreter.Idle) {fuel : Nat} {name : String} {arguments : List Int64}
    {outcome : Except Fault (List Int64)}
    (answer : interpreter.call environment fuel name arguments = some (outcome, later)) :
    later.Idle := by
  have answered : Answered False (interpreter.call environment fuel name arguments) _ :=
    idle.call_eq fuel name arguments
  rw [answer] at answered
  exact answered.idle

theorem Environment.Serves.idle {environment : Environment σ} {interpreter : Interpreter σ}
    (serves : environment.Serves interpreter) : interpreter.Idle := by
  induction serves with
  | start host => exact ⟨Array.size_replicate, rfl, rfl⟩
  | call serves answered idle => exact idle.of_call answered

/-- Two interpreters answer a call alike, whatever calls they have answered before, if the host
answers by the arguments alone. After a call the memory in use and the number of activations are
as before it. -/
theorem calls_are_independent_of_history {environment : Environment σ}
    (unlimited : environment.limit = none) (pure : environment.host.Pure)
    {left right : Interpreter σ} (leftServes : environment.Serves left)
    (rightServes : environment.Serves right) (fuel : Nat) (name : String)
    (arguments : List Int64) :
    (left.call environment fuel name arguments).map Prod.fst =
      (right.call environment fuel name arguments).map Prod.fst ∧
    ∀ outcome later, left.call environment fuel name arguments = some (outcome, later) →
      later.stack.top = left.stack.top ∧ later.depth = left.depth := by
  constructor
  · have leftOutcome := leftServes.idle.outcome_eq unlimited pure fuel name arguments 0 left.host
    have rightOutcome := rightServes.idle.outcome_eq unlimited pure fuel name arguments 0 left.host
    exact leftOutcome.trans rightOutcome.symm
  · intro outcome later answered
    have before := leftServes.idle
    have after := before.of_call answered
    exact ⟨after.top.trans before.top.symm, after.depth.trans before.depth.symm⟩

/-- A function that divides by its argument, after it has written to its slot and read from it
before, and one that calls it. -/
def dirtying : List Request := [
  .declare "inner" ⟨[.i64], [.i64]⟩ .internal,
  .build ⟨0⟩,
  .declare "main" ⟨[.i64], [.i64]⟩ .exported,
  .build ⟨1⟩,
  .command 0 .createBlock,
  .command 0 (.switchTo ⟨0⟩),
  .command 0 (.appendFunctionParameters ⟨0⟩),
  .command 0 (.createSlot 8),
  .command 0 (.emit (.slotAddress ⟨0⟩ 0)),
  .command 0 (.emit (.load .i64 ⟨1⟩ 0)),
  .command 0 (.emit (.constant .i64 14)),
  .command 0 (.emit (.slotStore ⟨3⟩ ⟨0⟩ 0)),
  .command 0 (.emit (.arithmetic .divide ⟨3⟩ ⟨0⟩)),
  .command 0 (.emit (.arithmetic .add ⟨2⟩ ⟨4⟩)),
  .command 0 (.emit (.ret [⟨5⟩])),
  .command 0 .sealAll,
  .define ⟨0⟩ (some 0),
  .command 1 .createBlock,
  .command 1 (.switchTo ⟨0⟩),
  .command 1 (.appendFunctionParameters ⟨0⟩),
  .command 1 (.importFunction (.empty "") ⟨0⟩),
  .command 1 (.emit (.call ⟨0⟩ [⟨0⟩])),
  .command 1 (.emit (.ret [⟨1⟩])),
  .command 1 .sealAll,
  .define ⟨1⟩ (some 1)]

def dirtyingEnvironment : Environment Unit where
  module := ((Workspace.empty "dirtying").handleAll dirtying).module
  host _ := none
  limit := none

theorem calls_are_independent_of_history_dirtying : ∃ used left : Interpreter Unit,
    (Workspace.empty "dirtying").AllowsAll dirtying ∧
      (Interpreter.start ()).call dirtyingEnvironment 20 "main" [7] = some (.ok [2], used) ∧
      used.call dirtyingEnvironment 20 "main" [0] =
        some (.error (.trap "inner" .divisionByZero), left) ∧
      (left.call dirtyingEnvironment 20 "main" [7]).map Prod.fst =
        ((Interpreter.start ()).call dirtyingEnvironment 20 "main" [7]).map Prod.fst ∧
      ∀ outcome later, left.call dirtyingEnvironment 20 "main" [7] = some (outcome, later) →
        later.stack.top = left.stack.top ∧ later.depth = left.depth := by
  have allowed : (Workspace.empty "dirtying").AllowsAll dirtying := by decide +kernel
  have pure : dirtyingEnvironment.host.Pure := fun _ _ supplied => nomatch supplied
  have new : dirtyingEnvironment.Serves (Interpreter.start ()) := .start ()
  obtain ⟨⟨_, used⟩, first, rfl⟩ := Option.map_eq_some_iff.mp
    ((new.idle.outcome_eq rfl pure 20 "main" [7] 0 ()).trans
      (show _ = some (.ok [2]) by decide +kernel))
  have served : dirtyingEnvironment.Serves used := new.call first
  obtain ⟨⟨_, left⟩, second, rfl⟩ := Option.map_eq_some_iff.mp
    ((served.idle.outcome_eq rfl pure 20 "main" [0] 0 ()).trans
      (show _ = some (.error (.trap "inner" .divisionByZero)) by decide +kernel))
  obtain ⟨same, back⟩ :=
    calls_are_independent_of_history rfl pure (served.call second) new 20 "main" [7]
  exact ⟨used, left, allowed, first, second, same, back⟩

end ExprLang.Ssa
