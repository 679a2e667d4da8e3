import ExprLang.Proofs.Semantics.Programs
import ExprLang.Proofs.Ssa.Independence

/-!
# Programs come to an end

A function calls only functions that come before it, and the counter of a loop is increased until
it is above the limit, unless the limit is the largest number. So every call of a function ends,
if no loop has that limit.
-/

namespace ExprLang

open Ssa

/-! ## Rounds -/

/-- A loop with enough rounds does something for one number after the other, up to its limit. -/
theorem Evaluation.iterate_eq {bound : Int64} (finite : bound ≠ Int64.maxValue)
    (body : Int64 → Evaluation σ Unit) {rounds first : Nat} (positive : 0 < first)
    (small : first < 2 ^ 63)
    (few : (bound.toInt - (Int64.ofNat first).toInt + 1).toNat < rounds) :
    iterate bound body rounds (Int64.ofNat first) =
      (List.range' first (bound.toInt.toNat + 1 - first)).forM fun count =>
        body (Int64.ofNat count) := by
  induction rounds generalizing first with
  | zero => exact absurd few (Nat.not_lt_zero _)
  | succ rounds induction =>
      obtain ⟨none, more⟩ := Lowering.range'_limit finite positive small
      rw [iterate]
      by_cases above : bound < Int64.ofNat first
      · rw [if_pos above, none above]
        rfl
      · obtain ⟨small, more⟩ := more above
        have next : Int64.ofNat first + 1 = Int64.ofNat (first + 1) :=
          (Int64.ofNat_add first 1).symm
        have fewer := Lowering.needs_succ finite above few
        rw [next] at fewer
        rw [if_neg above, more, next, induction (Nat.succ_pos first) small fewer]
        rfl

/-- A loop does its body for each number from one up to its limit, whatever is done to the variable
in between. -/
theorem Expr.evaluate_each {activation : Activation σ} {names : List String} {literals : Nat}
    {note : α} {round : String} {bound body : Expr α} {store after : Store σ} {number : Int64}
    (enough : 2 ^ 63 ≤ activation.rounds)
    (came : bound.evaluate activation names literals store = .value number after)
    (finite : number ≠ Int64.maxValue) :
    (Expr.each note round bound body).evaluate activation names literals store =
      (do
        (List.range' 1 number.toInt.toNat).forM fun count => do
          .write (bound.scope names).length (Int64.ofNat count)
          let _ ← body.evaluate activation (round :: bound.scope names)
            (literals + bound.literals.length)
          pure ()
        pure 0 : Evaluation σ Int64) after := by
  rw [Expr.evaluate]
  change (bound.evaluate activation names literals store).bind _ = _
  rw [came]
  have few := Lowering.needs_one finite enough
  have rounds := Evaluation.iterate_eq finite (fun count => do
    Evaluation.write (bound.scope names).length count
    let _ ← body.evaluate activation (round :: bound.scope names)
      (literals + bound.literals.length)
    pure ()) Nat.one_pos (by decide) few
  rw [Nat.add_sub_cancel] at rounds
  rw [← rounds]
  rfl

/-- The machine goes through the same rounds. Where a loop was lowered, the machine enters its body
with each number from one up to the limit, and does there what the evaluation of the body says. If
the body does not come to its end in a round, that was the last one. -/
theorem Lowering.Lowers.each_rounds {site : Site σ} {setting : Setting} (proper : site.Proper)
    (calls : ∀ name id, setting.callable.lookup name = some id →
      CallsAs site.environment site.activation.rounds site.patient site.depth id
        (site.activation.call name))
    {note : Typing} {round : String} {bound body : Expr Typing} {values : List Value}
    {first last : Stage}
    (lowers : Lowers setting (.expression (.each note round bound body)) first values last)
    {names : List String} {literals : Nat} (placed : Placed setting names literals first)
    (ends : Ends last site.final) (sound : Sound first.recording) {source : Label}
    (active : first.shape.Active source) {store after : Store σ} {machine : Machine σ}
    (rests : Rests site.environment site.final first store machine) (serves : site.Serves machine)
    {number : Int64}
    (came : bound.evaluate site.activation names literals store = .value number after)
    (finite : number ≠ Int64.maxValue) (enough : 2 ^ 63 ≤ site.activation.rounds) :
    let step : Int64 → Evaluation σ Unit := fun count => do
      .write (bound.scope names).length count
      let _ ← body.evaluate site.activation (round :: bound.scope names)
        (literals + bound.literals.length)
      pure ()
    let looped := Evaluation.iterate number step site.activation.rounds 1 after
    ∃ (entry behind : Stage) (counter value one : Value) (start header : Machine σ)
      (counts : List Int64), Machine.Reaches site.environment machine header ∧
      header.limit? = some number ∧
      Rounds site entry behind counter value one start number step 1 counts after header looped ∧
      counts <+: (List.range' 1 number.toInt.toNat).map Int64.ofNat ∧
      ∀ final, looped = .value () final →
        counts = (List.range' 1 number.toInt.toNat).map Int64.ofNat := by
  cases lowers with
  | each onBound enters binds inLoop advances leaves emits =>
      have limits := onBound.simulates proper calls placed
      have opened := enters.placed (onBound.placed placed)
      have trips := binds.trips proper (inLoop.simulates proper calls (binds.placed opened))
        advances
      have count := opened.tabled.count
      rw [Work.scope] at count
      rw [count] at trips
      -- The limit is evaluated in front of the loop.
      have soundLimited := limits.fills.reaches.sound sound
      obtain ⟨between, toLimited⟩ := limits.fills.flows sound active
      have loops := enters.reaches.trans ((trips 0).fills.reaches.trans leaves.reaches)
      have endsLeft := ends.earlier emits.reaches (loops.sound soundLimited)
      have ran := limits.runs (endsLeft.earlier loops soundLimited) sound active rests serves .nil
      rw [came] at ran
      obtain ⟨later, reached, arrives⟩ := ran
      obtain ⟨counter, header, counts, onwards, limited, goes, numbers⟩ :=
        enters.inRounds proper binds inLoop.fills advances leaves trips
          (arrives.shows.inside List.mem_cons_self) endsLeft soundLimited toLimited.active
          arrives.rests (serves.stays arrives.stays) (arrives.shows.holds 0 rfl rfl) finite enough
      exact ⟨_, _, counter, _, _, later, header, counts, reached.trans onwards, limited, goes,
        numbers⟩

/-! ## Calls -/

/-- What is executed is a function of the program, which got as many arguments as it has
parameters. -/
theorem Executes.of_start {environment : Environment σ} {program : CheckedProgram σ}
    (executes : Executes environment program) {name : String} {arguments : List Int64}
    {steps : Nat} {state : σ} {first : Machine σ}
    (started : environment.start name arguments steps state = .next first) :
    ∃ definition ∈ program.definitions, definition.name = name ∧
      arguments.length = definition.parameters.length := by
  rw [Environment.start] at started
  split at started
  · cases started
  · rename_i id known
    obtain ⟨declaration, found, rfl⟩ := Module.find?_eq_some known
    split at started
    · cases started
    · cases started
    · rename_i body callee
      have origin := executes.implements.origin id body (Environment.body?_of_callee callee)
      obtain ⟨definition, member, named, parameters⟩ := origin.definition
      obtain ⟨other, foundThere, same, _⟩ := origin.declared
      cases found.symm.trans foundThere
      refine ⟨definition, member, named.symm.trans same.symm, ?_⟩
      by_contra different
      rw [enter, if_pos (parameters ▸ different)] at started
      cases started

/-- A call of a function of the program ends as the evaluator says if that has enough rounds, unless
the call comes to a loop without end. -/
theorem Executes.ends {environment : Environment σ} {program : CheckedProgram σ}
    (executes : Executes environment program) {definition : TypedDefinition}
    (member : definition ∈ program.definitions) {arguments : List Int64}
    (count : arguments.length = definition.parameters.length) {steps : Nat} {state : σ}
    (finite : ∀ first machine,
      environment.start definition.name arguments steps state = .next first →
        Machine.Reaches environment first machine → machine.limit? ≠ some Int64.maxValue)
    {rounds : Nat} (enough : 2 ^ 63 + environment.module.declarations.size < rounds) :
    ∃ fuel ending, environment.call fuel definition.name arguments steps state = some ending ∧
      program.run rounds definition.name arguments state =
        some (ending.outcome, ending.host) := by
  obtain ⟨rounds, rfl⟩ := Nat.exists_eq_succ_of_ne_zero (Nat.ne_zero_of_lt enough)
  obtain ⟨agrees, unfinished⟩ := executes.call member count rounds steps state
  cases ran : program.run (rounds + 1) definition.name arguments state with
  | none =>
      obtain ⟨first, started, machine, reached, limit⟩ :=
        (unfinished ran).2 (Nat.le_of_lt_succ enough)
      exact absurd limit (finite first machine started reached)
  | some ending =>
      obtain ⟨outcome, last⟩ := ending
      obtain ⟨fuel, later, ended⟩ := agrees outcome last ran
      exact ⟨fuel, _, ended, rfl⟩

/-- A call of an interpreter ends, unless it comes to a loop without end. If a function of the
program is called as it should be, it ends as the evaluator says. -/
theorem Executes.terminates {environment : Environment σ} {program : CheckedProgram σ}
    (executes : Executes environment program) {interpreter : Interpreter σ}
    (idle : interpreter.Idle) (name : String) (arguments : List Int64)
    (finite : ∀ first machine,
      environment.start name arguments interpreter.steps interpreter.host = .next first →
        Machine.Reaches environment first machine → machine.limit? ≠ some Int64.maxValue) :
    ∃ fuel outcome later,
      interpreter.call environment fuel name arguments = some (outcome, later) ∧
      ∀ definition ∈ program.definitions, definition.name = name →
        arguments.length = definition.parameters.length →
        ∀ rounds, 2 ^ 63 + environment.module.declarations.size < rounds →
          program.run rounds name arguments interpreter.host = some (outcome, later.host) := by
  obtain ⟨fuel, ending, ended⟩ : ∃ fuel ending,
      environment.call fuel name arguments interpreter.steps interpreter.host = some ending := by
    cases started : environment.start name arguments interpreter.steps interpreter.host with
    | halt halt => exact ⟨0, halt, by rw [Environment.call, started]⟩
    | next first =>
        obtain ⟨definition, member, rfl, count⟩ := executes.of_start started
        obtain ⟨fuel, ending, ended, _⟩ :=
          executes.ends member count finite (Nat.lt_succ_self _)
        exact ⟨fuel, ending, ended⟩
  have answered : Answered False (interpreter.call environment fuel name arguments) _ :=
    idle.call_eq fuel name arguments
  rw [ended] at answered
  obtain ⟨later, answer, same⟩ := answered.of_ended
  refine ⟨fuel, ending.outcome, later, answer, ?_⟩
  rintro definition member rfl count rounds enough
  obtain ⟨more, other, endedToo, ran⟩ := executes.ends member count finite enough
  cases Environment.call_unique ended endedToo
  rw [ran, same]

/-! ## Programs -/

/-- Every program comes to an end. The functions of a compiled module refer only to functions with
smaller numbers. Whatever an interpreter has answered before, it answers a call, if no limit of a
loop in this call is the largest number: with what the evaluator says, which has so many rounds
that a loop whose limit is another number does its body for each number from one up to the limit
and, unless it ends with a fault, for no others. The machine does so too, by
`Lowering.Lowers.each_rounds`. -/
theorem compiled_programs_terminate {σ : Type} {known : SignatureTable}
    {definitions : List (Definition Position)} {functions : List TypedDefinition}
    {name entry : String} {registry : Registry} {module : Module}
    (checked : (Definition.checkAll known definitions).1 = .ok functions)
    (compiled : compileProgram name registry entry functions = .ok module) (host : Host σ) :
    let environment : Environment σ := ⟨module, host, none⟩
    (∀ id body, module.body? id = some body → ∀ external ∈ body.references,
      external.id.index < id.index) ∧
    (∀ interpreter, environment.Serves interpreter → ∀ name arguments,
      (∀ first machine,
        environment.start name arguments interpreter.steps interpreter.host = .next first →
          Machine.Reaches environment first machine →
          machine.limit? ≠ some Int64.maxValue) →
      ∃ fuel outcome later,
        interpreter.call environment fuel name arguments = some (outcome, later) ∧
        ∀ function ∈ functions, function.name = name →
          arguments.length = function.parameters.length →
          ∀ rounds, 2 ^ 63 + module.declarations.size < rounds →
            CheckedProgram.run ⟨functions, host⟩ rounds name arguments interpreter.host =
              some (outcome, later.host)) ∧
    ∀ (activation : Activation σ) names literals note round (bound body : Expr Typing) store
        number after, 2 ^ 63 ≤ activation.rounds →
      bound.evaluate activation names literals store = .value number after →
      number ≠ Int64.maxValue →
      (Expr.each note round bound body).evaluate activation names literals store =
        (do
          (List.range' 1 number.toInt.toNat).forM fun count => do
            .write (bound.scope names).length (Int64.ofNat count)
            let _ ← body.evaluate activation (round :: bound.scope names)
              (literals + bound.literals.length)
            pure ()
          pure 0 : Evaluation σ Int64) after := by
  obtain ⟨checks, -⟩ := Definition.checkAll_eq_ok_iff.mp (Prod.ext checked rfl)
  have implements := compileProgram_implements checks compiled
  refine ⟨fun id body found external member =>
    ((implements.origin id body found).external member).1, ?_, ?_⟩
  · intro interpreter serves name arguments finite
    have executes : Executes (⟨module, host, none⟩ : Environment σ) ⟨functions, host⟩ :=
      ⟨implements, rfl, rfl⟩
    exact executes.terminates serves.idle name arguments finite
  · intro activation names literals note round bound body store number after enough came finite
    exact Expr.evaluate_each enough came finite

def Ssa.Machine.always (environment : Environment σ) (test : Machine σ → Bool) :
    (most : Nat) → Machine σ → Bool
  | 0, _ => false
  | most + 1, machine =>
    test machine && match machine.step environment with
      | .next later => always environment test most later
      | .halt _ => true

theorem Ssa.Machine.of_always {environment : Environment σ} {test : Machine σ → Bool} {most : Nat}
    {machine later : Machine σ} (holds : machine.always environment test most = true)
    (reached : Reaches environment machine later) : test later = true := by
  induction most generalizing machine with
  | zero => cases holds
  | succ most induction =>
      rw [always, Bool.and_eq_true] at holds
      rcases reached.cases_head with rfl | ⟨middle, stepped, rest⟩
      · exact holds.1
      · rw [stepped] at holds
        exact induction holds.2 rest

theorem compiled_programs_terminate_doubles : ∃ functions module,
    (Definition.checkAll .standard doubles).1 = .ok functions ∧
      compileProgram "doubles" .standard "main" functions = .ok module ∧
      ∃ fuel later, (Interpreter.start ()).call ⟨module, Host.echo, none⟩ fuel "main" [3] =
        some (.ok [0], later) := by
  have evaluated : ((Definition.checkAll .standard doubles).1.toOption.bind fun functions =>
      (compileProgram "doubles" .standard "main" functions).toOption.bind fun module =>
        functions[1]?.bind fun function =>
          (Environment.start ⟨module, Host.echo, none⟩ "main" [3] 0 ()).machine?.bind fun first =>
            if function.name = "main" ∧ function.parameters.length = 1 ∧
              first.always ⟨module, Host.echo, none⟩
                (fun machine => machine.limit? ≠ some Int64.maxValue) 90 = true ∧
              CheckedProgram.run ⟨functions, Host.echo⟩
                (2 ^ 63 + module.declarations.size + 1) "main" [3] () = some (.ok [0], ())
            then some () else none) = some () := by
    decide +kernel
  obtain ⟨functions, checked, evaluated⟩ := Option.bind_eq_some_iff.mp evaluated
  obtain ⟨module, compiled, evaluated⟩ := Option.bind_eq_some_iff.mp evaluated
  obtain ⟨function, found, evaluated⟩ := Option.bind_eq_some_iff.mp evaluated
  obtain ⟨first, started, evaluated⟩ := Option.bind_eq_some_iff.mp evaluated
  obtain ⟨⟨named, count, finite, ran⟩, _⟩ := Option.ite_none_right_eq_some.mp evaluated
  have checked := eq_ok_of_toOption checked
  have compiled := eq_ok_of_toOption compiled
  obtain ⟨-, ends, -⟩ := compiled_programs_terminate checked compiled Host.echo
  obtain ⟨fuel, outcome, later, answer, agrees⟩ :=
    ends (Interpreter.start ()) (.start ()) "main" [3] fun other machine begun reached => by
      cases begun.symm.trans (Step.machine?_eq_some started)
      exact of_decide_eq_true (Machine.of_always finite reached)
  have same := agrees function (List.mem_of_getElem? found) named count.symm _ (Nat.lt_succ_self _)
  cases same.symm.trans ran
  exact ⟨functions, module, checked, compiled, fuel, later, answer⟩

end ExprLang
