import ExprLang.Proofs.Semantics.Programs
import ExprLang.Proofs.Ssa.Independence

/-!
# Limits on the number of instructions

A limit makes every call end. Up to the instruction at which the limit is noticed a call does just
what it does without a limit: the functions of the host are called with the same arguments, and
a call that gets by with the limit ends in the same way.
-/

namespace ExprLang.Ssa

/-! ## Hosts that answer alike -/

def HostFunction.Parallel (related : σ → τ → Prop) (run : HostFunction σ)
    (other : HostFunction τ) : Prop :=
  ∀ arguments state image, related state image →
    (run arguments state).1 = (other arguments image).1 ∧
      related (run arguments state).2 (other arguments image).2

structure Environment.Parallel (related : σ → τ → Prop) (first : Environment σ)
    (second : Environment τ) : Prop where
  module : first.module = second.module
  host : ∀ name, Option.Rel (HostFunction.Parallel related) (first.host name) (second.host name)

inductive Callee.Parallel (related : σ → τ → Prop) : Callee σ → Callee τ → Prop
  | body (function : Function) : Parallel related (.body function) (.body function)
  | host {run : HostFunction σ} {other : HostFunction τ} (name : String) (wanted : Nat)
      (alike : run.Parallel related other) :
      Parallel related (.host name wanted run) (.host name wanted other)
  | absent (fault : Fault) : Parallel related (.absent fault) (.absent fault)

inductive Halt.Parallel (related : σ → τ → Prop) : Halt σ → Halt τ → Prop
  | intro {outcome : Except Fault (List Int64)} {steps : Nat} {host : σ} {other : τ}
      (holds : related host other) :
      Parallel related ⟨outcome, steps, host⟩ ⟨outcome, steps, other⟩

inductive Machine.Parallel (related : σ → τ → Prop) : Machine σ → Machine τ → Prop
  | intro {frame : Frame} {callers : List (Frame × List Value)} {depth steps : Nat}
      {memory : Memory} {host : σ} {other : τ} (holds : related host other) :
      Parallel related ⟨frame, callers, depth, memory, steps, host⟩
        ⟨frame, callers, depth, memory, steps, other⟩

inductive Step.Parallel (related : σ → τ → Prop) : Step σ → Step τ → Prop
  | next {machine : Machine σ} {image : Machine τ} (parallel : machine.Parallel related image) :
      Parallel related (.next machine) (.next image)
  | halt {ending : Halt σ} {image : Halt τ} (parallel : ending.Parallel related image) :
      Parallel related (.halt ending) (.halt image)

section Parallel

variable {related : σ → τ → Prop} {first : Environment σ} {second : Environment τ}

theorem Step.Parallel.eq {first second : Step σ} (parallel : first.Parallel Eq second) :
    first = second := by
  cases parallel with
  | next alike =>
      obtain ⟨rfl⟩ := alike
      rfl
  | halt alike =>
      obtain ⟨rfl⟩ := alike
      rfl

theorem callHost_parallel {run : HostFunction σ} {other : HostFunction τ}
    (alike : run.Parallel related other) (name : String) (wanted : Nat) (words : List Int64)
    {host : σ} {image : τ} (holds : related host image) :
    (callHost name wanted run words host).1 = (callHost name wanted other words image).1 ∧
      related (callHost name wanted run words host).2
        (callHost name wanted other words image).2 := by
  obtain ⟨same, later⟩ := alike words host image holds
  rw [callHost, callHost]
  generalize run words host = left at same later
  generalize other words image = right at same later
  obtain ⟨outcome, host⟩ := left
  obtain ⟨_, image⟩ := right
  cases same
  cases outcome with
  | error text => exact ⟨rfl, later⟩
  | ok results =>
      dsimp only
      split
      · exact ⟨rfl, later⟩
      · exact ⟨rfl, later⟩

theorem Environment.Parallel.callee (parallel : first.Parallel related second) (id : FunctionId) :
    (first.callee id).Parallel related (second.callee id) := by
  rw [Environment.callee, Environment.callee, ← parallel.module]
  cases first.module.declaration? id with
  | none => exact .absent _
  | some declaration =>
      dsimp only
      cases declaration.body with
      | some function => exact .body function
      | none =>
          dsimp only
          split
          · exact .absent _
          · have supplied := parallel.host declaration.name
            generalize first.host declaration.name = left at supplied
            generalize second.host declaration.name = right at supplied
            cases supplied with
            | none => exact .absent _
            | some alike => exact .host _ _ alike

namespace Step.Parallel

variable {callers : List (Frame × List Value)} {depth steps : Nat} {memory : Memory} {host : σ}
  {other : τ}

theorem computed (frame : Frame) (holds : related host other) (instruction : Instruction)
    (behind : List Instruction) (outcome : Option (Except Trap Int64)) :
    (Machine.computed frame instruction behind callers depth memory steps host outcome).Parallel
      related
      (Machine.computed frame instruction behind callers depth memory steps other outcome) := by
  unfold Machine.computed
  split
  · split
    · exact .next (.intro holds)
    · exact .halt (.intro holds)
  · exact .halt (.intro holds)
  · exact .halt (.intro holds)

theorem updated (frame : Frame) (holds : related host other) (behind : List Instruction)
    (outcome : Option (Except Trap Memory)) :
    (Machine.updated frame behind callers depth steps host outcome).Parallel related
      (Machine.updated frame behind callers depth steps other outcome) := by
  rcases outcome with _ | trap | memory
  · exact .halt (.intro holds)
  · exact .halt (.intro holds)
  · exact .next (.intro holds)

theorem followed (frame : Frame) (holds : related host other) (destination : Destination) :
    (Machine.followed frame callers depth memory steps host destination).Parallel related
      (Machine.followed frame callers depth memory steps other destination) := by
  unfold Machine.followed
  split
  · exact .next (.intro holds)
  · exact .halt (.intro holds)

end Step.Parallel

namespace Machine

/-- The same instruction is executed in parallel, unless it is too many for one of the two. -/
theorem Parallel.step (parallel : first.Parallel related second) {machine : Machine σ}
    {image : Machine τ} (alike : machine.Parallel related image)
    (counted : first.exceeds (machine.steps + 1) = second.exceeds (machine.steps + 1)) :
    (machine.step first).Parallel related (image.step second) := by
  obtain ⟨holds⟩ := alike
  rename_i frame callers depth steps memory host other
  obtain ⟨function, block, rest, registers, slots, floor⟩ := frame
  cases rest with
  | nil => exact .halt (.intro holds)
  | cons instruction rest =>
      let frame : Frame := ⟨function, block, instruction :: rest, registers, slots, floor⟩
      simp only at counted
      simp only [Machine.step, ← counted]
      split
      · exact .halt (.intro holds)
      cases operation : instruction.operation with
      | call reference arguments =>
          simp only
          cases read : readAll registers arguments with
          | none => exact .halt (.intro holds)
          | some words =>
              cases found : function.references[reference.index]? with
              | none => exact .halt (.intro holds)
              | some external =>
                  dsimp only
                  have leads := parallel.callee external.id
                  generalize first.callee external.id = left at leads
                  generalize second.callee external.id = right at leads
                  cases leads with
                  | absent fault => exact .halt (.intro holds)
                  | body callee =>
                      dsimp only
                      split
                      · exact .halt (.intro holds)
                      · exact .next (.intro holds)
                  | host name wanted alike =>
                      obtain ⟨same, later⟩ := callHost_parallel alike name wanted words holds
                      rename_i run otherRun
                      dsimp only
                      generalize callHost name wanted run words host = left at same later
                      generalize callHost name wanted otherRun words other = right at same later
                      obtain ⟨outcome, host⟩ := left
                      obtain ⟨_, other⟩ := right
                      cases same
                      cases outcome with
                      | error fault => exact .halt (.intro later)
                      | ok results =>
                          dsimp only
                          split
                          · exact .next (.intro later)
                          · exact .halt (.intro later)
      | branch condition onTrue onFalse =>
          simp only
          split
          · exact .followed frame holds _
          · exact .halt (.intro holds)
      | jump destination => exact .followed frame holds destination
      | ret values =>
          simp only
          split
          · cases callers with
            | nil => exact .halt (.intro holds)
            | cons caller callers =>
                dsimp only
                split
                · exact .next (.intro holds)
                · exact .halt (.intro holds)
          · exact .halt (.intro holds)
      | store value address offset => exact .updated frame holds rest _
      | slotStore value slot offset => exact .updated frame holds rest _
      | unknown code => exact .halt (.intro holds)
      | malformed kind condition values => exact .halt (.intro holds)
      | _ => exact .computed frame holds instruction rest _

theorem Parallel.run (parallel : first.Parallel related second)
    (limits : first.limit = second.limit) {machine : Machine σ} {image : Machine τ}
    (alike : machine.Parallel related image) (fuel : Nat) :
    Option.Rel (Halt.Parallel related) (machine.run first fuel) (image.run second fuel) := by
  induction fuel generalizing machine image with
  | zero => exact .none
  | succ fuel induction =>
      have step := alike.step parallel (by rw [Environment.exceeds, limits]; rfl)
      rw [Machine.run, Machine.run]
      generalize machine.step first = left at step
      generalize image.step second = right at step
      cases step with
      | next alike => exact induction alike
      | halt alike => exact .some alike

end Machine

namespace Environment.Parallel

theorem start (parallel : first.Parallel related second) (name : String)
    (arguments : List Int64) (steps : Nat) {host : σ} {other : τ} (holds : related host other) :
    (first.start name arguments steps host).Parallel related
      (second.start name arguments steps other) := by
  rw [Environment.start, Environment.start, ← parallel.module]
  cases first.module.find? name with
  | none => exact .halt (.intro holds)
  | some id =>
      dsimp only
      have leads := parallel.callee id
      generalize first.callee id = left at leads
      generalize second.callee id = right at leads
      cases leads with
      | absent fault => exact .halt (.intro holds)
      | host name wanted alike =>
          obtain ⟨same, later⟩ := callHost_parallel alike name wanted arguments holds
          dsimp only
          rw [same]
          exact .halt (.intro later)
      | body function =>
          dsimp only
          split
          · exact .halt (.intro holds)
          · exact .next (.intro holds)

theorem call (parallel : first.Parallel related second) (limits : first.limit = second.limit)
    (fuel : Nat) (name : String) (arguments : List Int64) (steps : Nat) {host : σ} {other : τ}
    (holds : related host other) :
    Option.Rel (Halt.Parallel related) (first.call fuel name arguments steps host)
      (second.call fuel name arguments steps other) := by
  have starts := parallel.start name arguments steps holds
  rw [Environment.call, Environment.call]
  generalize first.start name arguments steps host = left at starts
  generalize second.start name arguments steps other = right at starts
  cases starts with
  | next alike => exact alike.run parallel limits fuel
  | halt alike => exact .some alike

end Environment.Parallel

end Parallel

/-! ## Records of host calls -/

/-- What a call asks the host for is kept on record. -/
def Environment.recorded (environment : Environment σ) :
    Environment (σ × List (String × List Int64)) :=
  ⟨environment.module, environment.host.recorded, environment.limit⟩

theorem Environment.recorded_parallel (environment : Environment σ) :
    environment.recorded.Parallel (fun kept state => kept.1 = state) environment where
  module := rfl
  host name := by
    simp only [recorded, Host.recorded]
    cases environment.host name with
    | none => exact .none
    | some run =>
        refine .some ?_
        rintro arguments ⟨state, calls⟩ _ rfl
        exact ⟨rfl, rfl⟩

theorem Environment.recorded_behind (environment : Environment σ)
    (before : List (String × List Int64)) :
    environment.recorded.Parallel
      (fun kept other => kept.1 = other.1 ∧ kept.2 = before ++ other.2) environment.recorded where
  module := rfl
  host name := by
    simp only [recorded, Host.recorded]
    cases environment.host name with
    | none => exact .none
    | some run =>
        refine .some ?_
        rintro arguments ⟨state, _⟩ ⟨_, calls⟩ ⟨same, longer⟩
        cases same
        cases longer
        exact ⟨rfl, rfl, List.append_assoc _ _ _⟩

/-- The functions of the host that a call asks for, with their arguments, in the order in which
they are called. -/
def Interpreter.hostCalls (environment : Environment σ) (fuel : Nat) (name : String)
    (arguments : List Int64) : Interpreter σ → List (String × List Int64)
  | ⟨stack, depth, steps, host⟩ =>
    match call environment.recorded fuel name arguments ⟨stack, depth, steps, (host, [])⟩ with
    | some (_, later) => later.host.2
    | none => []

theorem Environment.recorded_call {environment : Environment σ} {fuel steps : Nat} {name : String}
    {arguments : List Int64} {state : σ} {ending : Halt σ}
    (ended : environment.call fuel name arguments steps state = some ending) :
    ∃ calls, environment.recorded.call fuel name arguments steps (state, []) =
      some ⟨ending.outcome, ending.steps, ending.host, calls⟩ := by
  have parallel := environment.recorded_parallel.call rfl fuel name arguments steps
    (show (state, ([] : List (String × List Int64))).1 = state from rfl)
  rw [ended] at parallel
  generalize environment.recorded.call fuel name arguments steps (state, []) = kept at parallel
  obtain ⟨⟨rfl⟩⟩ := parallel
  exact ⟨_, rfl⟩

theorem Machine.record_prefix {environment : Environment σ} {fuel : Nat}
    {machine : Machine (σ × List (String × List Int64))}
    {ending : Halt (σ × List (String × List Int64))}
    (ended : machine.run environment.recorded fuel = some ending) :
    machine.host.2 <+: ending.host.2 := by
  obtain ⟨frame, callers, depth, memory, steps, state, before⟩ := machine
  have parallel := Parallel.run (environment.recorded_behind before) rfl
    (.intro (show (state, before).1 = (state, []).1 ∧ before = before ++ (state, []).2 from
      ⟨rfl, (List.append_nil before).symm⟩) :
      Parallel _ ⟨frame, callers, depth, memory, steps, state, before⟩
        ⟨frame, callers, depth, memory, steps, state, []⟩) fuel
  rw [ended] at parallel
  generalize run environment.recorded fuel _ = other at parallel
  obtain ⟨⟨_, longer⟩⟩ := parallel
  exact ⟨_, longer.symm⟩

namespace Interpreter

theorem Idle.start (state : σ) : (start state).Idle :=
  ⟨Array.size_replicate, rfl, rfl⟩

section

variable {environment : Environment σ} {interpreter : Interpreter σ} {fuel : Nat} {name : String}
  {arguments : List Int64}

theorem Idle.answers (idle : interpreter.Idle) {ending : Halt σ}
    (ended : environment.call fuel name arguments interpreter.steps interpreter.host =
      some ending) :
    ∃ later, interpreter.call environment fuel name arguments = some (ending.outcome, later) ∧
      later.steps = ending.steps ∧ later.host = ending.host := by
  have answered : Answered False (interpreter.call environment fuel name arguments) _ :=
    idle.call_eq fuel name arguments
  rw [ended] at answered
  obtain ⟨later, answer, same⟩ := answered.of_ended
  rw [answer] at answered
  have counted := congrArg Halt.steps (Option.some.inj answered.of_answer)
  exact ⟨later, answer, counted.symm, same⟩

theorem Idle.ended (idle : interpreter.Idle) {outcome : Except Fault (List Int64)}
    {later : Interpreter σ}
    (answer : interpreter.call environment fuel name arguments = some (outcome, later)) :
    environment.call fuel name arguments interpreter.steps interpreter.host =
      some ⟨outcome, later.steps, later.host⟩ := by
  have answered : Answered False (interpreter.call environment fuel name arguments) _ :=
    idle.call_eq fuel name arguments
  rw [answer] at answered
  exact answered.of_answer

theorem Idle.hostCalls (environment : Environment σ) (idle : interpreter.Idle)
    {ending : Halt (σ × List (String × List Int64))}
    (ended : environment.recorded.call fuel name arguments interpreter.steps
      (interpreter.host, []) = some ending) :
    interpreter.hostCalls environment fuel name arguments = ending.host.2 := by
  obtain ⟨stack, depth, steps, host⟩ := interpreter
  have recording : Idle ⟨stack, depth, steps, (host, ([] : List (String × List Int64)))⟩ :=
    ⟨idle.whole, idle.top, idle.depth⟩
  obtain ⟨later, answer, _, same⟩ := recording.answers ended
  rw [Interpreter.hostCalls, answer, ← same]

end

end Interpreter

/-! ## Counting instructions -/

def Step.steps : Step σ → Nat
  | next machine => machine.steps
  | halt ending => ending.steps

namespace Machine

theorem step_nil {environment : Environment σ} {machine : Machine σ}
    (done : machine.frame.rest = []) :
    machine.step environment = fail machine.steps machine.host
      (.trap machine.frame.function.name (.fellOff machine.frame.block)) := by
  obtain ⟨⟨function, block, _, registers, slots, floor⟩, callers, depth, memory, steps, host⟩ :=
    machine
  cases done
  rfl

/-- An instruction counts, whatever becomes of it. -/
theorem step_steps (environment : Environment σ) {machine : Machine σ}
    (going : machine.frame.rest ≠ []) :
    (machine.step environment).steps = machine.steps + 1 := by
  obtain ⟨⟨function, block, rest, registers, slots, floor⟩, callers, depth, memory, steps, host⟩ :=
    machine
  cases rest with
  | nil => exact absurd rfl going
  | cons instruction rest =>
      simp only [step]
      split
      · rfl
      cases instruction.operation with
      | _ =>
          dsimp only
          repeat' split
          all_goals rfl

theorem step_exceeding {environment : Environment σ} {machine : Machine σ}
    (going : machine.frame.rest ≠ []) (exceeds : environment.exceeds (machine.steps + 1) = true) :
    machine.step environment = fail (machine.steps + 1) machine.host
      (.trap machine.frame.function.name .stepLimit) := by
  obtain ⟨⟨function, block, rest, registers, slots, floor⟩, callers, depth, memory, steps, host⟩ :=
    machine
  cases rest with
  | nil => exact absurd rfl going
  | cons instruction rest =>
      simp only at exceeds
      simp only [step, exceeds, if_true]

/-- A step executes at most one instruction. -/
theorem step_steps_le (environment : Environment σ) (machine : Machine σ) :
    machine.steps ≤ (machine.step environment).steps ∧
      (machine.step environment).steps ≤ machine.steps + 1 := by
  by_cases done : machine.frame.rest = []
  · rw [step_nil done]
    exact ⟨Nat.le_refl _, Nat.le_succ _⟩
  · rw [step_steps environment done]
    exact ⟨Nat.le_succ _, Nat.le_refl _⟩

theorem steps_le_run {environment : Environment σ} {fuel : Nat} {machine : Machine σ}
    {ending : Halt σ} (ended : machine.run environment fuel = some ending) :
    machine.steps ≤ ending.steps := by
  induction fuel generalizing machine with
  | zero => cases ended
  | succ fuel induction =>
      have counted := (step_steps_le environment machine).1
      rw [run] at ended
      generalize machine.step environment = next at counted ended
      cases next with
      | next later => exact counted.trans (induction ended)
      | halt last =>
          cases ended
          exact counted

end Machine

/-! ## Runs with a limit -/

section Limits

variable {module : Module} {host : Host σ} {limit : Nat}

theorem exceeds_some {steps : Nat} :
    (⟨module, host, some limit⟩ : Environment σ).exceeds steps = decide (limit < steps) :=
  rfl

theorem exceeds_none {steps : Nat} :
    (⟨module, host, none⟩ : Environment σ).exceeds steps = false :=
  rfl

namespace Machine

variable {machine : Machine σ}

theorem step_within (within : machine.steps < limit) :
    machine.step ⟨module, host, some limit⟩ = machine.step ⟨module, host, none⟩ := by
  have parallel : Environment.Parallel Eq ⟨module, host, some limit⟩ ⟨module, host, none⟩ := by
    refine ⟨rfl, fun name => ?_⟩
    change Option.Rel _ (host name) (host name)
    cases host name with
    | none => exact .none
    | some run =>
        refine .some ?_
        rintro arguments state _ rfl
        exact ⟨rfl, rfl⟩
  have counted : (⟨module, host, some limit⟩ : Environment σ).exceeds (machine.steps + 1) =
      (⟨module, host, none⟩ : Environment σ).exceeds (machine.steps + 1) := by
    rw [exceeds_some, exceeds_none, decide_eq_false_iff_not]
    omega
  have alike : Parallel Eq machine machine := .intro rfl
  have step := alike.step parallel counted
  exact step.eq

/-- With a limit every run ends, and at most one instruction is counted beyond the limit. -/
theorem run_ends {fuel : Nat} (enough : limit - machine.steps < fuel) :
    ∃ ending, machine.run ⟨module, host, some limit⟩ fuel = some ending ∧
      ending.steps ≤ machine.steps + (limit - machine.steps) + 1 := by
  induction fuel generalizing machine with
  | zero => exact absurd enough (Nat.not_lt_zero _)
  | succ fuel induction =>
      by_cases going : machine.frame.rest = []
      · refine ⟨_, by rw [run, step_nil going]; rfl, ?_⟩
        dsimp only
        omega
      · have counted := step_steps ⟨module, host, some limit⟩ going
        by_cases within : machine.steps < limit
        · rw [run]
          generalize machine.step ⟨module, host, some limit⟩ = next at counted
          cases next with
          | next later =>
              have counted : later.steps = machine.steps + 1 := counted
              obtain ⟨ending, ended, bound⟩ := @induction later (by omega)
              exact ⟨ending, ended, by omega⟩
          | halt ending =>
              have counted : ending.steps = machine.steps + 1 := counted
              exact ⟨ending, rfl, by omega⟩
        · have exceeds : (⟨module, host, some limit⟩ : Environment σ).exceeds
              (machine.steps + 1) = true := by
            rw [exceeds_some, decide_eq_true_iff]
            omega
          refine ⟨_, by rw [run, step_exceeding going exceeds]; rfl, ?_⟩
          dsimp only
          omega

/-- A run that ends without a limit ends in the same way with a limit that it does not exceed. With
one that it exceeds it goes just as far as the limit lets it. -/
theorem run_limited {fuel : Nat} {ending : Halt σ} (below : machine.steps ≤ limit)
    (ended : machine.run ⟨module, host, none⟩ fuel = some ending) :
    (ending.steps ≤ limit → machine.run ⟨module, host, some limit⟩ fuel = some ending) ∧
    (limit < ending.steps → ∃ function, ∃ reached : Machine σ, ∃ remaining,
      machine.run ⟨module, host, some limit⟩ fuel =
        some ⟨.error (.trap function .stepLimit), limit + 1, reached.host⟩ ∧
      reached.run ⟨module, host, none⟩ remaining = some ending) := by
  induction fuel generalizing machine with
  | zero => cases ended
  | succ fuel induction =>
      rcases below.lt_or_eq with within | rfl
      · have counted := (step_steps_le ⟨module, host, none⟩ machine).2
        rw [run, step_within within]
        rw [run] at ended
        generalize machine.step ⟨module, host, none⟩ = next at counted ended
        cases next with
        | next later => exact induction (counted.trans within) ended
        | halt last =>
            cases ended
            have counted : ending.steps ≤ machine.steps + 1 := counted
            exact ⟨fun _ => rfl, fun more => by omega⟩
      · by_cases done : machine.frame.rest = []
        · have same : ending.steps = machine.steps := by
            rw [run, step_nil done] at ended
            cases ended
            rfl
          rw [run, step_nil done] at ended ⊢
          exact ⟨fun _ => ended, fun more => by omega⟩
        · have exceeds : (⟨module, host, some machine.steps⟩ : Environment σ).exceeds
              (machine.steps + 1) = true := by
            rw [exceeds_some, decide_eq_true_iff]
            exact Nat.lt_succ_self _
          have more : machine.steps + 1 ≤ ending.steps := by
            have counted := step_steps ⟨module, host, none⟩ done
            rw [run] at ended
            generalize machine.step ⟨module, host, none⟩ = next at counted ended
            cases next with
            | next later =>
                have counted : later.steps = machine.steps + 1 := counted
                exact counted.ge.trans (steps_le_run ended)
            | halt last =>
                cases ended
                exact Nat.le_of_eq counted.symm
          refine ⟨fun few => by omega, fun _ => ?_⟩
          refine ⟨machine.frame.function.name, machine, fuel + 1, ?_, ended⟩
          rw [run, step_exceeding done exceeds]
          rfl

end Machine

namespace Environment

variable {fuel steps : Nat} {name : String} {arguments : List Int64} {state : σ}

theorem start_limited : start ⟨module, host, some limit⟩ name arguments steps state =
    start ⟨module, host, none⟩ name arguments steps state :=
  rfl

theorem steps_start {environment : Environment σ} {machine : Machine σ}
    (started : environment.start name arguments steps state = .next machine) :
    machine.steps = steps := by
  simp only [start] at started
  split at started
  · cases started
  · split at started
    · cases started
    · cases started
    · split at started
      · cases started
      · cases started
        rfl

theorem steps_start_halt {environment : Environment σ} {ending : Halt σ}
    (started : environment.start name arguments steps state = .halt ending) :
    ending.steps = steps := by
  simp only [start] at started
  split at started
  · cases started
    rfl
  · split at started
    · cases started
      rfl
    · cases started
      rfl
    · split at started
      · cases started
        rfl
      · cases started

theorem call_ends (name : String) (arguments : List Int64) (steps : Nat) (state : σ) :
    ∃ fuel ending, call ⟨module, host, some limit⟩ fuel name arguments steps state = some ending ∧
      ending.steps ≤ steps + (limit - steps) + 1 := by
  simp only [call]
  cases started : start ⟨module, host, some limit⟩ name arguments steps state with
  | next machine =>
      obtain rfl := steps_start started
      exact ⟨_, machine.run_ends (Nat.lt_succ_self _)⟩
  | halt ending =>
      have same : ending.steps = steps := steps_start_halt started
      exact ⟨0, ending, rfl, by omega⟩

/-- What a limit does to a call that ends without one. -/
theorem call_limited {ending : Halt σ} (below : steps ≤ limit)
    (ended : call ⟨module, host, none⟩ fuel name arguments steps state = some ending) :
    (ending.steps ≤ limit →
      call ⟨module, host, some limit⟩ fuel name arguments steps state = some ending) ∧
    (limit < ending.steps → ∃ function, ∃ reached : Machine σ, ∃ remaining,
      call ⟨module, host, some limit⟩ fuel name arguments steps state =
        some ⟨.error (.trap function .stepLimit), limit + 1, reached.host⟩ ∧
      reached.run ⟨module, host, none⟩ remaining = some ending) := by
  rw [call] at ended
  rw [call, start_limited]
  cases started : start ⟨module, host, none⟩ name arguments steps state with
  | next machine =>
      rw [started] at ended
      obtain rfl := steps_start started
      exact Machine.run_limited below ended
  | halt last =>
      rw [started] at ended
      cases ended
      have same : ending.steps = steps := steps_start_halt started
      exact ⟨fun _ => rfl, fun more => by omega⟩

end Environment

end Limits

/-- A limit on the number of instructions makes every call end, and at most one more instruction
is counted than the limit leaves. If a call of a new interpreter ends without a limit, it ends in
the same way under every limit that it does not exceed, with the same calls of the host; under the
others it ends with a trap, after some of these calls. -/
theorem limits_only_cut_calls_short (module : Module) (host : Host σ) (limit : Nat)
    (name : String) (arguments : List Int64) :
    (∀ interpreter : Interpreter σ, interpreter.Idle → ∃ fuel outcome later,
      interpreter.call ⟨module, host, some limit⟩ fuel name arguments = some (outcome, later) ∧
        later.steps ≤ interpreter.steps + (limit - interpreter.steps) + 1) ∧
    ∀ state fuel outcome later,
      (Interpreter.start state).call ⟨module, host, none⟩ fuel name arguments =
        some (outcome, later) →
      (later.steps ≤ limit → ∃ same,
        (Interpreter.start state).call ⟨module, host, some limit⟩ fuel name arguments =
          some (outcome, same) ∧ same.steps = later.steps ∧ same.host = later.host ∧
        (Interpreter.start state).hostCalls ⟨module, host, some limit⟩ fuel name arguments =
          (Interpreter.start state).hostCalls ⟨module, host, none⟩ fuel name arguments) ∧
      (limit < later.steps → ∃ function cut,
        (Interpreter.start state).call ⟨module, host, some limit⟩ fuel name arguments =
          some (.error (.trap function .stepLimit), cut) ∧
        (Interpreter.start state).hostCalls ⟨module, host, some limit⟩ fuel name arguments <+:
          (Interpreter.start state).hostCalls ⟨module, host, none⟩ fuel name arguments) := by
  constructor
  · intro interpreter idle
    obtain ⟨fuel, ending, ended, bound⟩ :=
      @Environment.call_ends _ module host limit name arguments interpreter.steps interpreter.host
    obtain ⟨later, answer, same, _⟩ := idle.answers ended
    exact ⟨fuel, _, later, answer, same.trans_le bound⟩
  · intro state fuel outcome later answer
    have idle := Interpreter.Idle.start state
    have ended := idle.ended answer
    obtain ⟨calls, recorded⟩ := Environment.recorded_call ended
    have whole := idle.hostCalls ⟨module, host, none⟩ recorded
    obtain ⟨within, beyond⟩ := Environment.call_limited (Nat.zero_le limit) ended
    obtain ⟨withinToo, beyondToo⟩ := Environment.call_limited (Nat.zero_le limit) recorded
    constructor
    · intro few
      obtain ⟨same, answer, steps, left⟩ := idle.answers (within few)
      refine ⟨same, answer, steps, left, ?_⟩
      rw [whole]
      exact idle.hostCalls ⟨module, host, some limit⟩ (withinToo few)
    · intro many
      obtain ⟨function, reached, remaining, cut, _⟩ := beyond many
      obtain ⟨_, reachedToo, remainingToo, cutToo, ends⟩ := beyondToo many
      obtain ⟨last, answer, _, _⟩ := idle.answers cut
      have part := idle.hostCalls ⟨module, host, some limit⟩ cutToo
      have longer : reachedToo.host.2 <+: calls :=
        @Machine.record_prefix _ ⟨module, host, none⟩ _ _ _ ends
      refine ⟨function, last, answer, ?_⟩
      rw [whole, part]
      exact longer

def ticking : List Request := [
  .declare "tick" ⟨[.i64], [.i64]⟩ .imported,
  .declare "main" ⟨[.i64], [.i64]⟩ .exported,
  .build ⟨1⟩,
  .command 0 .createBlock,
  .command 0 (.switchTo ⟨0⟩),
  .command 0 (.appendFunctionParameters ⟨0⟩),
  .command 0 (.importFunction (.empty "") ⟨0⟩),
  .command 0 (.emit (.call ⟨0⟩ [⟨0⟩])),
  .command 0 (.emit (.call ⟨0⟩ [⟨1⟩])),
  .command 0 (.emit (.ret [⟨2⟩])),
  .command 0 .sealAll,
  .define ⟨1⟩ (some 0)]

/-- Three instructions are executed without a limit, and one with a limit of one. -/
theorem limits_only_cut_calls_short_ticking :
    let module := ((Workspace.empty "ticking").handleAll ticking).module
    ∃ whole : Interpreter Unit, ∃ function, ∃ cut : Interpreter Unit,
      (Interpreter.start ()).call ⟨module, Host.echo, none⟩ 9 "main" [5] = some (.ok [5], whole) ∧
      whole.steps = 3 ∧
      (Interpreter.start ()).hostCalls ⟨module, Host.echo, none⟩ 9 "main" [5] =
        [("tick", [5]), ("tick", [5])] ∧
      (Interpreter.start ()).call ⟨module, Host.echo, some 1⟩ 9 "main" [5] =
        some (.error (.trap function .stepLimit), cut) ∧
      (Interpreter.start ()).hostCalls ⟨module, Host.echo, some 1⟩ 9 "main" [5] <+:
        [("tick", [5]), ("tick", [5])] := by
  intro module
  have idle := Interpreter.Idle.start ()
  obtain ⟨ending, ended, plain⟩ := Option.map_eq_some_iff.mp
    (show (Environment.call ⟨module, Host.echo, none⟩ 9 "main" [5] 0 ()).map
        (fun ending => (ending.outcome, ending.steps)) = some (.ok [5], 3) by decide +kernel)
  obtain ⟨last, recorded, calls⟩ := Option.map_eq_some_iff.mp
    (show (Environment.call ⟨module, Host.echo.recorded, none⟩ 9 "main" [5] 0 ((), [])).map
        (fun ending => ending.host.2) = some [("tick", [5]), ("tick", [5])] by decide +kernel)
  obtain ⟨outcome, count⟩ := Prod.ext_iff.mp plain
  obtain ⟨whole, answer, steps, _⟩ := idle.answers ended
  have asked := (idle.hostCalls ⟨module, Host.echo, none⟩ recorded).trans calls
  have steps : whole.steps = 3 := steps.trans count
  rw [show ending.outcome = .ok [5] from outcome] at answer
  have few : 1 < whole.steps := by
    rw [steps]
    decide
  obtain ⟨function, cut, trapped, shorter⟩ :=
    ((limits_only_cut_calls_short module Host.echo 1 "main" [5]).2 () 9 _ whole answer).2 few
  rw [asked] at shorter
  exact ⟨whole, function, cut, answer, steps, asked, trapped, shorter⟩

end ExprLang.Ssa
