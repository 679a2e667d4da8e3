import ExprLang.Proofs.Lowering.Programs
import ExprLang.Proofs.Semantics.Functions

/-!
# Compiled programs do what their definitions say

The functions of a compiled module are those of the program and the imported ones. A call of any
of them, at any depth, does what a call in the evaluator does: with fewer rounds for the calls
inside, by induction.
-/

namespace ExprLang

open Ssa

/-! ## Functions of programs -/

namespace CheckedProgram

variable {program : CheckedProgram σ} {definition : TypedDefinition} {name : String}

theorem definition?_of_mem (named : (program.definitions.map TypedDefinition.name).Nodup)
    (member : definition ∈ program.definitions) :
    program.definition? definition.name = some definition :=
  find?_of_nodup named member

end CheckedProgram

/-- A function of the module is imported and no function of the program, or its code is that of
the definition that has its name. -/
theorem Implements.cases {module : Module} {program : CheckedProgram σ}
    (implements : Implements module program.definitions) {id : FunctionId}
    {declaration : Declaration} (found : module.declaration? id = some declaration) :
    (declaration.body = none ∧ declaration.linkage = .imported ∧
        program.definition? declaration.name = none) ∨
      ∃ body, declaration.body = some body ∧ Origin program.definitions module id body := by
  cases body : declaration.body with
  | none =>
      refine .inl ⟨rfl, (implements.whole id declaration found).mpr body, ?_⟩
      rw [CheckedProgram.definition?, List.find?_eq_none]
      intro definition member same
      obtain ⟨other, known, foundThere, named, some⟩ := implements.defines definition member
      have equal := implements.distinct id other declaration known found foundThere
        (named.trans (of_decide_eq_true same)).symm
      rw [← equal, found] at foundThere
      cases foundThere
      rw [body] at some
      cases some
  | some code =>
      refine .inr ⟨code, rfl, implements.origin id code ?_⟩
      rw [Module.body?, found]
      exact body

/-! ## Calls -/

/-- A call passes as many words as are wanted. -/
theorem Ssa.Frame.Sane.arguments_length {module : Module} {frame : Frame}
    (sane : frame.Sane module) {results arguments : List Value} {reference : Reference}
    {behind : List Instruction} {external : External} {words : List Int64}
    (rest : frame.rest = ⟨results, .call reference arguments, []⟩ :: behind)
    (placed : frame.function.references[reference.index]? = some external)
    (read : readAll frame.registers arguments = some words) :
    words.length = external.prototype.parameters.length := by
  obtain ⟨other, known, wanted, -⟩ := (sane.equipped rest).sustained
  cases placed.symm.trans known
  rw [← wanted]
  exact (readAll_eq_some.mp read).length_eq.symm

structure Executes (environment : Environment σ) (program : CheckedProgram σ) : Prop where
  implements : Implements environment.module program.definitions
  host : environment.host = program.host
  unlimited : environment.limit = none

/-- An activation leaves its memory and returns to the one that waits for it. -/
theorem Realizes.leave {environment : Environment σ} {budget : Nat} {patient : Prop}
    {machine : Machine σ} {arrives reaches : α → Store σ → Machine σ → Prop}
    {answer : Answer σ α} {caller : Store σ}
    (realizes : Realizes environment budget patient machine arrives answer)
    (returns : ∀ result store later, arrives result store later →
      ∃ last, Machine.Reaches environment later last ∧
        reaches result ⟨caller.cells, store.memory.release caller.memory.size, store.host⟩ last) :
    Realizes environment budget patient machine reaches (answer.leave caller) := by
  cases answer with
  | value result store =>
      obtain ⟨later, reached, arrived⟩ := realizes
      obtain ⟨last, ahead, arrived⟩ := returns result store later arrived
      exact ⟨last, reached.trans ahead, arrived⟩
  | fault cause host => exact realizes
  | unfinished => exact realizes

section Calls

variable {environment : Environment σ} {program : CheckedProgram σ}

/-- A function is entered with words as an answer says, which is that of its call. -/
inductive Entered (environment : Environment σ) (rounds : Nat) (patient : Prop) (depth : Nat)
    (body : Function) (words : List Int64) (store : Store σ) : Answer σ Int64 → Prop
  | refused {fault : Fault} (refused : enter body words depth store.memory = .error fault) :
      Entered environment rounds patient depth body words store (.fault fault store.host)
  | started {frame : Frame} {grown : Memory} {answer : Answer σ Int64}
      (started : enter body words depth store.memory = .ok (frame, grown))
      (floor : frame.floor = store.memory.size)
      (runs : ∀ callers steps,
        Realizes environment rounds patient
          ⟨frame, callers, depth + 1, grown, steps, store.host⟩
          (Lowering.Leaves ⟨frame, callers, depth + 1, grown, steps, store.host⟩) answer) :
      Entered environment rounds patient depth body words store (answer.leave store)

/-- There are enough rounds for every loop that has an end in an activation of a function, and in
those that it waits for: they are of functions with smaller numbers, and have a round less each. -/
def Patient (rounds : Nat) (id : FunctionId) : Prop :=
  2 ^ 63 + id.index < rounds

theorem Patient.of_earlier {rounds : Nat} {id other : FunctionId}
    (earlier : other.index < id.index) (patient : Patient (rounds + 1) id) :
    Patient rounds other := by
  change 2 ^ 63 + id.index < rounds + 1 at patient
  change 2 ^ 63 + other.index < rounds
  omega

namespace Executes

theorem allowed (executes : Executes environment program) (steps : Nat) :
    environment.exceeds steps = false := by
  rw [Environment.exceeds, executes.unlimited]

/-- An imported function is called. -/
theorem calls_host (executes : Executes environment program) (rounds : Nat) (patient : Prop)
    (depth : Nat) {id : FunctionId} {declaration : Declaration}
    (found : environment.module.declaration? id = some declaration)
    (empty : declaration.body = none) (imported : declaration.linkage = .imported) :
    Lowering.CallsAs environment rounds patient depth id
      (program.host.evaluate declaration.name) := by
  have one := (executes.implements.wordy id declaration found).2
  rintro ⟨frame, callers, depth, memory, steps, host⟩ store reference arguments result behind
    external words rfl rfl rfl sane rest placed rfl read
  have inside : result.index < frame.registers.size := by
    rw [sane.registers]
    exact (sane.equipped rest).results result List.mem_cons_self
  cases supplied : program.host declaration.name with
  | none =>
      have callee : environment.callee external.id = .absent (.noHost declaration.name) := by
        simp [Environment.callee, found, empty, imported, executes.host, supplied]
      rw [Host.evaluate, supplied]
      exact .halt (Machine.step_call_absent rest (executes.allowed _) rfl read placed callee)
  | some run =>
      have callee : environment.callee external.id = .host declaration.name 1 run := by
        simp [Environment.callee, found, empty, imported, executes.host, supplied, one]
      rw [Host.evaluate, supplied]
      dsimp only
      rcases ran : run words store.host with ⟨answer, after⟩
      rcases answer with text | _ | ⟨word, _ | ⟨second, others⟩⟩
      · exact .halt (Machine.step_call_failed rest (executes.allowed _) rfl read placed callee
          (by rw [callHost, ran]))
      · exact .halt (Machine.step_call_failed rest (executes.allowed _) rfl read placed callee
          (by rw [callHost, ran]; rfl))
      · have effect : Machine.Effect environment
            ⟨frame, callers, depth, store.memory, steps, store.host⟩ _ :=
          .host rest rfl read placed callee ran rfl (by rw [writeAll, if_pos inside]; rfl)
        have step := effect.step (executes.allowed (steps + 1))
        exact (Realizes.value ⟨rfl, rfl⟩).reach (.single step)
      · exact .halt (Machine.step_call_failed rest (executes.allowed _) rfl read placed callee
          (by rw [callHost, ran]; simp))

/-- A function with a body is entered as the evaluator says, if the functions that it calls do
what the evaluator says. -/
theorem entered (executes : Executes environment program) (rounds depth : Nat)
    {id : FunctionId} {declaration : Declaration} {body : Function}
    (found : environment.module.declaration? id = some declaration)
    (origin : Origin program.definitions environment.module id body)
    (inner : ∀ other known, environment.module.declaration? other = some known →
      Lowering.CallsAs environment rounds (Patient rounds other) (depth + 1) other
        (program.call rounds (depth + 1) known.name))
    {words : List Int64} (count : words.length = declaration.prototype.parameters.length)
    (store : Store σ) :
    Entered environment rounds (Patient (rounds + 1) id) depth body words store
      (program.call (rounds + 1) depth declaration.name words store) := by
  have supports := origin.supports
  have idiomatic := origin.idiomatic
  obtain ⟨_, foundThere, name, typed⟩ := origin.declared
  cases found.symm.trans foundThere
  obtain ⟨member, coherent, compiles, accepted, rfl, early, named, prototype, wordy, precedes,
    callable⟩ := origin
  rename_i setting definition first bound lowered last value
  have finished := compiles.finished accepted
  have same : declaration.name = definition.name := by
    obtain ⟨later, foundLater, becomes⟩ := precedes id first early
    cases found.symm.trans foundLater
    exact becomes.name.trans named
  have defined := CheckedProgram.definition?_of_mem executes.implements.named member
  rw [← same] at defined
  have wanted : words.length = last.recording.builder.function.prototype.parameters.length := by
    rw [count, typed]
  rw [CheckedProgram.call, defined]
  dsimp only
  by_cases deep : maximalDepth ≤ depth
  · rw [if_pos deep]
    refine .refused ?_
    rw [enter, if_neg (not_not.mpr wanted), if_pos deep, ← name]
  have entered : enter last.recording.builder.function words depth store.memory =
      activate last.recording.builder.function words store.memory.size store.memory := by
    rw [enter, if_neg (not_not.mpr wanted), if_neg deep]
  rw [if_neg deep, TypedDefinition.evaluate, ← compiles.slots.1]
  obtain ⟨full, refused⟩ | ⟨slots, grown, frame, reserved, started, sane, -, seated, floor⟩ :=
    activate_cases supports wanted store.memory.size store.memory
  · rw [full]
    refine .refused ?_
    rw [entered, refused, ← same, name]
  rw [reserved]
  refine .started (entered.trans started) floor fun callers steps => ?_
  -- The activation executes the code of the definition.
  have proper : Lowering.Site.Proper ⟨environment, last.recording,
      ⟨definition.name, slots, rounds, program.call rounds (depth + 1)⟩, depth + 1,
      Patient (rounds + 1) id⟩ := by
    refine ⟨⟨finished, finished.handsAvailable compiles.handsGrounded, supports,
      executes.unlimited⟩, idiomatic, name.symm.trans same, ?_, ?_⟩
    · change last.recording.builder.function.slots.size ≤ slots.length
      rw [allocateAll_length reserved, Array.length_toList]
    · intro patient
      change 2 ^ 63 + id.index < rounds + 1 at patient
      change 2 ^ 63 ≤ rounds
      omega
  refine compiles.runs proper (fun name other listed => ?_) rfl ?_ started sane seated _ _ _
  · obtain ⟨earlier, known, foundEarly, rfl⟩ := callable name other listed
    obtain ⟨later, foundLater, becomes⟩ := precedes other known foundEarly
    rw [← becomes.name]
    exact Lowering.CallsAs.hasten (inner other later foundLater) (Patient.of_earlier earlier)
  · rw [wanted, (Moves.grows compiles.moves).prototype]
    rfl

/-- A function with a body is called, if the functions that it calls do what the evaluator
says. -/
theorem calls_body (executes : Executes environment program) (rounds depth : Nat)
    {id : FunctionId} {declaration : Declaration} {body : Function}
    (found : environment.module.declaration? id = some declaration)
    (code : declaration.body = some body)
    (origin : Origin program.definitions environment.module id body)
    (inner : ∀ other known, environment.module.declaration? other = some known →
      Lowering.CallsAs environment rounds (Patient rounds other) (depth + 1) other
        (program.call rounds (depth + 1) known.name)) :
    Lowering.CallsAs environment (rounds + 1) (Patient (rounds + 1) id) depth id
      (program.call (rounds + 1) depth declaration.name) := by
  rintro ⟨frame, callers, depth, memory, steps, host⟩ store reference arguments result behind
    external words rfl rfl rfl sane rest placed rfl read
  have callee : environment.callee external.id = .body body := by
    simp [Environment.callee, found, code]
  have count : words.length = declaration.prototype.parameters.length := by
    obtain ⟨_, foundThere, same⟩ :=
      sane.supports.references external (Array.mem_of_getElem? placed)
    cases found.symm.trans foundThere
    rw [same]
    exact sane.arguments_length rest placed read
  have entered := executes.entered rounds depth found origin inner count store
  generalize program.call (rounds + 1) depth declaration.name words store = answer at entered
  cases entered with
  | refused refused =>
      exact .halt (Machine.step_call_refused rest (executes.allowed _) rfl read placed callee
        refused)
  | started started floor runs =>
      have effect : Machine.Effect environment
          ⟨frame, callers, depth, store.memory, steps, store.host⟩ _ :=
        .enter rest rfl read placed callee started
      refine Realizes.step (effect.step (executes.allowed (steps + 1)))
        ((runs _ _).leave fun word after later leaves => ?_)
      have inside : result.index < frame.registers.size := by
        rw [sane.registers]
        exact (sane.equipped rest).results result List.mem_cons_self
      have back := leaves.returns rfl inside (executes.allowed _)
      rw [floor, Nat.add_sub_cancel] at back
      exact ⟨_, .single back, rfl, rfl⟩

theorem calls (executes : Executes environment program) (rounds depth : Nat) {id : FunctionId}
    {declaration : Declaration} (found : environment.module.declaration? id = some declaration) :
    Lowering.CallsAs environment rounds (Patient rounds id) depth id
      (program.call rounds depth declaration.name) := by
  induction rounds generalizing depth id declaration with
  | zero =>
      unfold Lowering.CallsAs
      intros
      exact ⟨rfl, fun patient => absurd patient (Nat.not_lt_zero _)⟩
  | succ rounds induction =>
      obtain ⟨empty, imported, other⟩ | ⟨body, code, origin⟩ := executes.implements.cases found
      · have host := executes.calls_host (rounds + 1) (Patient (rounds + 1) id) depth found empty
          imported
        rintro machine store reference arguments result behind external words
        rw [CheckedProgram.call, other]
        exact host machine store reference arguments result behind external words
      · exact executes.calls_body rounds depth found code origin
          fun _ _ known => induction (depth + 1) known

/-- A call from outside ends as the evaluator says. If the evaluator is unfinished with one round
more than there is fuel, so is the call, which comes to a loop without end if the rounds suffice
for all others. -/
theorem call (executes : Executes environment program) {definition : TypedDefinition}
    (member : definition ∈ program.definitions) {arguments : List Int64}
    (count : arguments.length = definition.parameters.length) (rounds before : Nat) (state : σ) :
    (∀ outcome last, program.run (rounds + 1) definition.name arguments state =
        some (outcome, last) →
      ∃ fuel steps, environment.call fuel definition.name arguments before state =
        some ⟨outcome, steps, last⟩) ∧
    (program.run (rounds + 1) definition.name arguments state = none →
      environment.call rounds definition.name arguments before state = none ∧
      (2 ^ 63 + environment.module.declarations.size ≤ rounds →
        ∃ machine, environment.start definition.name arguments before state = .next machine ∧
          machine.Endless environment)) := by
  obtain ⟨id, declaration, body, found, named, code, origin, wanted⟩ :=
    executes.implements.definition member
  have entered := executes.entered rounds 0 found origin
    (fun _ _ known => executes.calls rounds 1 known) (count.trans wanted.symm)
    ⟨fun _ => 0, .empty, state⟩
  have there : environment.module.find? definition.name = some id :=
    named ▸ executes.implements.distinct.find? found
  have callee : environment.callee id = .body body := by
    simp [Environment.callee, found, code]
  rw [CheckedProgram.run, ← named]
  generalize program.call (rounds + 1) 0 declaration.name arguments ⟨fun _ => 0, .empty, state⟩ =
    answer at entered
  cases entered with
  | @refused fault refused =>
      have halted : environment.start declaration.name arguments before state =
          .halt ⟨.error fault, before, state⟩ := by
        rw [Environment.start, named, there]
        dsimp only
        rw [callee]
        dsimp only
        rw [refused]
        rfl
      refine ⟨fun outcome last same => ?_, fun unfinished => ?_⟩
      · cases same
        exact ⟨0, before, by rw [Environment.call, halted]⟩
      · cases unfinished
  | @started frame grown answer started floor runs =>
      have begun : environment.start declaration.name arguments before state =
          .next ⟨frame, [], 1, grown, before, state⟩ := by
        rw [Environment.start, named, there]
        dsimp only
        rw [callee]
        dsimp only
        rw [started]
      have calls : ∀ fuel, environment.call fuel declaration.name arguments before state =
          Machine.run environment fuel ⟨frame, [], 1, grown, before, state⟩ := fun fuel => by
        rw [Environment.call, begun]
      simp only [calls]
      have runs := runs [] before
      cases answer with
      | value word store =>
          obtain ⟨later, reached, leaves⟩ := runs
          obtain ⟨fuel, ended⟩ :=
            Machine.run_of_reaches reached (leaves.ends rfl (executes.allowed _))
          refine ⟨fun outcome last same => ?_, fun unfinished => ?_⟩
          · cases same
            exact ⟨fuel, _, ended⟩
          · cases unfinished
      | fault cause host =>
          refine ⟨fun outcome last same => ?_, fun unfinished => ?_⟩
          · cases same
            exact runs
          · cases unfinished
      | unfinished =>
          obtain ⟨running, endless⟩ := runs
          refine ⟨fun outcome last same => (by cases same), fun _ => ⟨running, fun enough => ?_⟩⟩
          have inside : id.index < environment.module.declarations.size :=
            (Array.getElem?_eq_some_iff.mp found).1
          exact ⟨_, begun, endless (show _ < _ by omega)⟩

end Executes

end Calls

/-! ## Agreement -/

theorem Ssa.Environment.call_unique {environment : Environment σ} {name : String}
    {arguments : List Int64} {steps fuel more : Nat} {state : σ} {first second : Halt σ}
    (left : environment.call fuel name arguments steps state = some first)
    (right : environment.call more name arguments steps state = some second) : first = second := by
  rw [call] at left right
  cases begun : environment.start name arguments steps state with
  | next machine =>
      rw [begun] at left right
      exact Machine.run_unique left right
  | halt halt =>
      rw [begun] at left right
      exact Option.some.inj (left.symm.trans right)

/-- Calls of a function from outside end the same way in the evaluator and in the machine, if they
end at all: with the same results or the same fault, and the same last state of the host. -/
def CheckedProgram.Agrees (program : CheckedProgram σ) (environment : Environment σ) (name : String)
    (arguments : List Int64) (state : σ) : Prop :=
  ∀ outcome last, (∃ rounds, program.run rounds name arguments state = some (outcome, last)) ↔
    ∃ fuel steps, environment.call fuel name arguments 0 state = some ⟨outcome, steps, last⟩

theorem Executes.agrees {environment : Environment σ} {program : CheckedProgram σ}
    (executes : Executes environment program) {definition : TypedDefinition}
    (member : definition ∈ program.definitions) {arguments : List Int64}
    (count : arguments.length = definition.parameters.length) (state : σ) :
    program.Agrees environment definition.name arguments state := by
  intro outcome last
  constructor
  · rintro ⟨rounds, ended⟩
    cases rounds with
    | zero => cases ended
    | succ rounds => exact (executes.call member count rounds 0 state).1 outcome last ended
  · rintro ⟨fuel, steps, ended⟩
    obtain ⟨agrees, unfinished⟩ := executes.call member count fuel 0 state
    refine ⟨fuel + 1, ?_⟩
    cases run : program.run (fuel + 1) definition.name arguments state with
    | none =>
        rw [(unfinished run).1] at ended
        cases ended
    | some result =>
        obtain ⟨other, lastOther⟩ := result
        obtain ⟨more, stepsOther, endedOther⟩ := agrees other lastOther run
        cases Environment.call_unique ended endedOther
        rfl

/-- A host that also keeps a record of the calls, in the order in which they come. -/
def Ssa.Host.recorded (host : Host σ) : Host (σ × List (String × List Int64)) := fun name =>
  (host name).map fun run arguments state =>
    ((run arguments state.1).1, (run arguments state.1).2, state.2 ++ [(name, arguments)])

/-- Take a checked program that was compiled, a function of it, as many arguments as it has
parameters, and any host. Evaluating the body of the function ends if and only if the execution of
the compiled code ends, with the same result or the same fault and the same last state of the host;
and the functions of the host are called with the same arguments in the same order. -/
theorem compiled_programs_agree {σ : Type} {known : SignatureTable}
    {definitions : List (Definition Position)} {functions : List TypedDefinition}
    {name entry : String} {registry : Registry} {module : Module}
    (checked : (Definition.checkAll known definitions).1 = .ok functions)
    (compiled : compileProgram name registry entry functions = .ok module) (host : Host σ)
    {function : TypedDefinition} (member : function ∈ functions) {arguments : List Int64}
    (count : arguments.length = function.parameters.length) (state : σ) :
    CheckedProgram.Agrees ⟨functions, host⟩ ⟨module, host, none⟩ function.name arguments state ∧
      CheckedProgram.Agrees ⟨functions, host.recorded⟩ ⟨module, host.recorded, none⟩ function.name
        arguments (state, []) := by
  obtain ⟨checks, -⟩ := Definition.checkAll_eq_ok_iff.mp (Prod.ext checked rfl)
  have implements := compileProgram_implements checks compiled
  exact ⟨Executes.agrees ⟨implements, rfl, rfl⟩ member count state,
    Executes.agrees ⟨implements, rfl, rfl⟩ member count (state, [])⟩

def doubles : List (Definition Position) :=
  let here := Position.unknown
  [{ name := "double"
     parameters := [⟨"number", .int, here⟩]
     body := .binary here (.arithmetic .add) (.ident here "number") (.ident here "number")
     position := here },
   { name := "main"
     parameters := [⟨"limit", .int, here⟩]
     body := .each here "round" (.ident here "limit")
       (.call here "printint" [.call here "double" [.ident here "round"]])
     position := here }]

def Ssa.Host.echo : Host Unit :=
  fun _ => some fun arguments state => (.ok (arguments.take 1), state)

theorem compiled_programs_agree_doubles : ∃ functions module,
    (Definition.checkAll .standard doubles).1 = .ok functions ∧
      compileProgram "doubles" .standard "main" functions = .ok module ∧
      ∃ fuel steps, Environment.call ⟨module, Host.echo.recorded, none⟩ fuel "main" [3] 0
        ((), []) = some ⟨.ok [0], steps, (),
          [("printint", [2]), ("printint", [4]), ("printint", [6])]⟩ := by
  have evaluated : ((Definition.checkAll .standard doubles).1.toOption.bind fun functions =>
      (compileProgram "doubles" .standard "main" functions).toOption.bind fun _ =>
        functions[1]?.bind fun function =>
          if function.name = "main" ∧ function.parameters.length = 1 then
            CheckedProgram.run ⟨functions, Host.echo.recorded⟩ 9 "main" [3] ((), [])
          else none) = some (.ok [0], (),
            [("printint", [2]), ("printint", [4]), ("printint", [6])]) := by
    decide +kernel
  obtain ⟨functions, checked, evaluated⟩ := Option.bind_eq_some_iff.mp evaluated
  obtain ⟨module, compiled, evaluated⟩ := Option.bind_eq_some_iff.mp evaluated
  obtain ⟨function, found, evaluated⟩ := Option.bind_eq_some_iff.mp evaluated
  obtain ⟨⟨named, count⟩, evaluated⟩ := Option.ite_none_right_eq_some.mp evaluated
  have checked := eq_ok_of_toOption checked
  have compiled := eq_ok_of_toOption compiled
  have agrees := (compiled_programs_agree checked compiled Host.echo
    (List.mem_of_getElem? found) (show [3].length = _ from count.symm) ()).2
  rw [named] at agrees
  exact ⟨functions, module, checked, compiled, (agrees _ _).mp ⟨9, evaluated⟩⟩

end ExprLang
