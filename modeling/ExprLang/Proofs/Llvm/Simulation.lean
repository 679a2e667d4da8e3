import ExprLang.Proofs.Llvm.Tracking
import ExprLang.Proofs.Semantics.Termination

/-!
# What is written runs as the machine does

The machine that executes the functions of a module without memory, and the one that executes what
is written for them. Each step of the first one is followed by some steps of the second one. Main
statement: calls that return give the same word, and they leave the host in the same state.
-/

namespace ExprLang

def Ssa.Machine.overflows (machine : Machine σ) : Bool :=
  machine.frame.rest.head?.any fun instruction =>
    instruction.operation.overflows machine.frame.registers

namespace Llvm

open Ssa (Value Label)

/-! ## Modules -/

/-- A module has what is written for the functions of another one, which have no memory. -/
structure Transcribes (module : Ssa.Module) (translated : Module) : Prop where
  functions : List.Forall₂ RendersDeclaration module.declarations.toList translated.functions
  names : (translated.functions.map Function.name).Nodup
  wordy : module.Wordy
  scalar : ∀ id body, module.body? id = some body → body.Scalar
  external : ∀ id body, module.body? id = some body → ∀ external ∈ body.references,
    ∃ declaration, module.declaration? external.id = some declaration ∧
      declaration.name = external.name

namespace Transcribes

variable {module : Ssa.Module} {translated : Module} {id : Ssa.FunctionId}
  {declaration : Ssa.Declaration}

theorem function?_eq (transcribes : Transcribes module translated)
    (found : module.declaration? id = some declaration) :
    ∃ function, translated.function? declaration.name = some function ∧
      RendersDeclaration declaration function := by
  obtain ⟨inside, equal⟩ := Array.getElem?_eq_some_iff.mp found
  have bound : id.index < translated.functions.length := by
    rw [← transcribes.functions.length_eq]
    simpa using inside
  have renders := transcribes.functions.get (by simpa using inside) bound
  simp only [List.get_eq_getElem, Array.getElem_toList, equal] at renders
  have known := Ssa.find?_of_nodup transcribes.names (List.getElem_mem bound)
  rw [renders.named] at known
  exact ⟨_, known, renders⟩

/-- A function of the host is imported by what is written, and answers as it does for the
machine. -/
theorem ask_eq {environment : Ssa.Environment σ}
    (transcribes : Transcribes environment.module translated)
    (found : environment.module.declaration? id = some declaration) {name : String} {wanted : Nat}
    {run : Ssa.HostFunction σ} (callee : environment.callee id = .host name wanted run)
    {words results : List Int64} {host after : σ}
    (answered : run words host = (.ok results, after)) (count : results.length = wanted) :
    ∃ function word, translated.function? declaration.name = some function ∧
      function.blocks = [] ∧ results = [word] ∧
      Environment.ask ⟨translated, environment.host⟩ declaration.name (words.map .word) host =
        some (word, after) := by
  obtain ⟨other, again, linked, rfl, same, supplied⟩ := Ssa.Environment.host_of_callee callee
  cases found.symm.trans again
  obtain ⟨function, known, renders⟩ := transcribes.function?_eq found
  rw [(transcribes.wordy id declaration found).2] at same
  obtain ⟨word, rfl⟩ := List.length_eq_one_iff.mp (count.trans same.symm)
  refine ⟨function, word, known, ?_, rfl, ?_⟩
  · rw [(renders.imported linked).2]
    rfl
  · rw [Environment.ask, mapM_word?]
    simp only [supplied, Option.bind_eq_bind, Option.bind_some, answered]

/-- A function with a body has one in what is written. -/
theorem enter?_eq {environment : Ssa.Environment σ}
    (transcribes : Transcribes environment.module translated)
    (found : environment.module.declaration? id = some declaration) {body : Ssa.Function}
    (callee : environment.callee id = .body body) {words : List Int64} {depth : Nat}
    {memory grown : Ssa.Memory} {frame : Ssa.Frame}
    (entered : Ssa.enter body words depth memory = .ok (frame, grown)) :
    ∃ function activation progress, translated.function? declaration.name = some function ∧
      function.blocks ≠ [] ∧ function.enter? (words.map .word) = some activation ∧
      Tracks environment.module progress frame [] activation := by
  have inside := Ssa.Environment.body?_of_callee callee
  obtain ⟨function, known, renders⟩ := transcribes.function?_eq found
  have code : declaration.body = some body := by
    rwa [Ssa.Module.body?, found] at inside
  have linked : declaration.linkage ≠ .imported := by
    intro imported
    rw [(renders.imported imported).1] at code
    cases code
  obtain ⟨other, entry, progress, same, written⟩ := renders.defined linked
  cases code.symm.trans same
  obtain ⟨nonempty, activation, begun, tracks⟩ :=
    written.enter?_eq (transcribes.scalar id body inside) inside entered
  exact ⟨function, activation, progress, known, nonempty, begun, tracks⟩

end Transcribes

/-! ## Machines -/

inductive Awaits (module : Ssa.Module) :
    Ssa.Frame × List Value → Activation × Option Name → Prop
  | intro {frame : Ssa.Frame} {activation : Activation} {progress : Progress} {result : Value}
      (known : progress.operands.lookup result = some (.result (.value result) .word))
      (tracks : Tracks module progress frame [result] activation) :
      Awaits module (frame, [result]) (activation, some (.value result))

/-- A machine executes what is written for the functions that another one executes. -/
structure Simulates (module : Ssa.Module) (machine : Ssa.Machine σ) (simulated : Machine σ) :
    Prop where
  current : ∃ progress, Tracks module progress machine.frame [] simulated.current
  waiting : List.Forall₂ (Awaits module) machine.callers simulated.waiting
  host : simulated.host = machine.host

namespace Simulates

variable {environment : Ssa.Environment σ} {translated : Module} {machine later : Ssa.Machine σ}
  {simulated : Machine σ}

theorem effect (simulates : Simulates environment.module machine simulated)
    (transcribes : Transcribes environment.module translated)
    (effect : Ssa.Machine.Effect environment machine later) (fits : machine.overflows = false) :
    ∃ after, Machine.Reaches ⟨translated, environment.host⟩ simulated after ∧
      Simulates environment.module later after := by
  obtain ⟨⟨progress, tracks⟩, waiting, same⟩ := simulates
  obtain ⟨id, inside⟩ := tracks.body?
  have scalar := transcribes.scalar id _ inside
  have named := transcribes.external id _ inside
  obtain ⟨current, awaiting, host⟩ := simulated
  cases same
  cases effect with
  | compute next computed results bound =>
      rw [Ssa.Machine.overflows, next] at fits
      obtain ⟨after, reaches, ahead⟩ :=
        tracks.compute scalar next computed results bound fits
      exact ⟨⟨after, awaiting, _⟩, reaches awaiting _, ⟨progress, ahead⟩, waiting, rfl⟩
  | write next updated => exact absurd updated (tracks.update_ne scalar next)
  | host next operation read found callee answered count written =>
      obtain ⟨result, inputs, more, single, known, split, arguments, ahead⟩ :=
        tracks.call next operation read found
      obtain ⟨declaration, declared, name⟩ := named _ (Array.mem_of_getElem? found)
      obtain ⟨function, word, called, empty, rfl, asked⟩ :=
        transcribes.ask_eq declared callee answered count
      rw [name] at called asked
      rw [single] at written
      obtain ⟨_, _, _, _, _⟩ := current
      subst split
      exact ⟨_, .single (Machine.step_ask arguments called empty asked),
        ⟨progress, ahead.resume known written⟩, waiting, rfl⟩
  | enter next operation read found callee entered =>
      obtain ⟨result, inputs, more, single, known, split, arguments, ahead⟩ :=
        tracks.call next operation read found
      obtain ⟨declaration, declared, name⟩ := named _ (Array.mem_of_getElem? found)
      obtain ⟨function, activation, own, called, nonempty, begun, inner⟩ :=
        transcribes.enter?_eq declared callee entered
      rw [name] at called
      rw [single]
      obtain ⟨_, _, _, _, _⟩ := current
      subst split
      exact ⟨_, .single (Machine.step_enter arguments called nonempty begun), ⟨own, inner⟩,
        .cons (.intro known ahead) waiting, rfl⟩
  | branch next operation tested went =>
      obtain ⟨after, reaches, ahead⟩ := tracks.branch scalar next operation tested went
      exact ⟨⟨after, awaiting, _⟩, reaches awaiting _, ⟨progress, ahead⟩, waiting, rfl⟩
  | jump next operation went =>
      obtain ⟨after, reaches, ahead⟩ := tracks.jump scalar next operation went
      exact ⟨⟨after, awaiting, _⟩, reaches awaiting _, ⟨progress, ahead⟩, waiting, rfl⟩
  | ret next operation read written =>
      obtain ⟨operand, word, rfl, rest, terminator, holds⟩ := tracks.ret next operation read
      obtain ⟨_, _, _, _, _⟩ := current
      subst rest terminator
      cases waiting with
      | cons awaits waiting =>
          cases awaits with
          | intro known caller =>
              exact ⟨_, .single (Machine.step_ret holds), ⟨_, caller.resume known written⟩,
                waiting, rfl⟩

theorem halt (simulates : Simulates environment.module machine simulated) {words : List Int64}
    {steps : Nat} {host : σ}
    (halted : machine.step environment = .halt ⟨.ok words, steps, host⟩) :
    ∃ word, words = [word] ∧
      simulated.step ⟨translated, environment.host⟩ = .done (.word word) host := by
  obtain ⟨instruction, behind, values, next, operation, read, outermost, -, rfl⟩ :=
    Ssa.Machine.step_eq_halt_ok halted
  obtain ⟨⟨progress, tracks⟩, waiting, same⟩ := simulates
  obtain ⟨operand, word, rfl, rest, terminator, holds⟩ := tracks.ret next operation read
  obtain ⟨⟨_, _, _, _, _⟩, _, _⟩ := simulated
  subst rest terminator
  cases same
  rw [outermost] at waiting
  cases waiting
  exact ⟨word, rfl, Machine.step_done holds⟩

/-- A run of the machine that returns is followed to its end. -/
theorem run (simulates : Simulates environment.module machine simulated)
    (transcribes : Transcribes environment.module translated)
    (fits : ∀ later, Ssa.Machine.Reaches environment machine later → later.overflows = false)
    {fuel steps : Nat} {words : List Int64} {host : σ}
    (ran : machine.run environment fuel = some ⟨.ok words, steps, host⟩) :
    ∃ word last, words = [word] ∧
      Machine.Reaches ⟨translated, environment.host⟩ simulated last ∧
      last.step ⟨translated, environment.host⟩ = .done (.word word) host := by
  induction fuel generalizing machine simulated with
  | zero => cases ran
  | succ fuel induction =>
      rw [Ssa.Machine.run] at ran
      cases stepped : machine.step environment with
      | halt ending =>
          rw [stepped] at ran
          cases ran
          obtain ⟨word, single, ends⟩ := simulates.halt stepped
          exact ⟨word, simulated, single, .refl, ends⟩
      | next later =>
          rw [stepped] at ran
          obtain ⟨after, reaches, ahead⟩ := simulates.effect transcribes
            (Ssa.Machine.effect_of_step stepped) (fits machine .refl)
          obtain ⟨word, last, single, rest, ends⟩ :=
            induction ahead (fun last reached => fits last (.head stepped reached)) ran
          exact ⟨word, last, single, reaches.trans rest, ends⟩

end Simulates

/-! ## Calls -/

/-- What is written for a function returns the word that the function returns. -/
theorem Transcribes.call {environment : Ssa.Environment σ} {translated : Module}
    (transcribes : Transcribes environment.module translated) {name : String}
    {arguments words : List Int64} {steps later fuel : Nat} {host last : σ}
    (fits : ∀ first machine, environment.start name arguments steps host = .next first →
      Ssa.Machine.Reaches environment first machine → machine.overflows = false)
    (ended : environment.call fuel name arguments steps host = some ⟨.ok words, later, last⟩) :
    ∃ word more, words = [word] ∧
      Environment.call ⟨translated, environment.host⟩ more name (arguments.map .word) host =
        some (.word word, last) := by
  rw [Ssa.Environment.call, Ssa.Environment.start] at ended
  rw [Ssa.Environment.start] at fits
  cases known : environment.module.find? name with
  | none => simp [known, Ssa.Machine.fail] at ended
  | some id =>
      obtain ⟨declaration, found, rfl⟩ := Ssa.Module.find?_eq_some known
      simp only [known] at ended fits
      cases callee : environment.callee id with
      | absent fault => simp [callee, Ssa.Machine.fail] at ended
      | host name wanted run =>
          simp only [callee, Option.some.injEq, Ssa.Halt.mk.injEq] at ended
          obtain ⟨answered, count⟩ := Ssa.Machine.callHost_eq_ok (Prod.ext ended.1 ended.2.2)
          obtain ⟨function, word, called, empty, rfl, asked⟩ :=
            transcribes.ask_eq found callee answered count
          refine ⟨word, 0, rfl, ?_⟩
          simp [Environment.call, called, empty, asked]
      | body function =>
          simp only [callee] at ended fits
          cases entered : Ssa.enter function arguments 0 .empty with
          | error fault => simp [entered, Ssa.Machine.fail] at ended
          | ok entry =>
              obtain ⟨frame, memory⟩ := entry
              simp only [entered] at ended fits
              obtain ⟨called, activation, progress, there, nonempty, begun, tracks⟩ :=
                transcribes.enter?_eq found callee entered
              have simulates : Simulates environment.module
                  ⟨frame, [], 1, memory, steps, host⟩ ⟨activation, [], host⟩ :=
                ⟨⟨progress, tracks⟩, .nil, rfl⟩
              obtain ⟨word, final, single, reaches, ends⟩ :=
                simulates.run transcribes (fun later => fits _ later rfl) ended
              obtain ⟨more, ran⟩ := reaches.run ends
              refine ⟨word, more, single, ?_⟩
              simp [Environment.call, there, nonempty, begun, ran]

end Llvm

/-! ## Programs -/

/-- What is written for the functions of a module returns what they return: whatever an interpreter
has answered before, if it returns words from a call of a function in which the smallest word is
never divided by minus one, then there is one word, the call of what is written returns it too, and
both leave the host in the same state. -/
def Llvm.Module.Follows (translated : Llvm.Module) (environment : Ssa.Environment σ) : Prop :=
  ∀ interpreter, environment.Serves interpreter → ∀ name arguments fuel words later,
    (∀ first machine,
      environment.start name arguments interpreter.steps interpreter.host = .next first →
        Ssa.Machine.Reaches environment first machine → machine.overflows = false) →
    interpreter.call environment fuel name arguments = some (.ok words, later) →
    ∃ word more, words = [word] ∧
      Llvm.Environment.call ⟨translated, environment.host⟩ more name (arguments.map .word)
        interpreter.host = some (.word word, later.host)

theorem Llvm.Transcribes.follows {environment : Ssa.Environment σ} {translated : Llvm.Module}
    (transcribes : Llvm.Transcribes environment.module translated) :
    translated.Follows environment := by
  intro interpreter serves name arguments fuel words later fits answer
  have answered : Ssa.Answered False (interpreter.call environment fuel name arguments) _ :=
    serves.idle.call_eq fuel name arguments
  rw [answer] at answered
  exact transcribes.call fits answered.of_answer

/-- Take a checked program in which no array is made or looked at, compiled, and any host. Then its
module can be written in the LLVM language for every target, and what is written for any of its
functions returns the same word as the function, for all arguments and after any calls, if the
function returns and the smallest word is never divided by minus one. The functions of the host are
called with the same arguments in the same order. -/
theorem translated_programs_agree {σ : Type} {known : SignatureTable}
    {definitions : List (Definition Position)} {functions : List TypedDefinition}
    {name entry : String} {registry : Registry} {module : Ssa.Module}
    (checked : (Definition.checkAll known definitions).1 = .ok functions)
    (compiled : compileProgram name registry entry functions = .ok module)
    (scalar : ∀ function ∈ functions, function.body.isScalar = true) (triple : String)
    (host : Ssa.Host σ) (limit : Option Nat) :
    ∃ translated, Llvm.Module.ofSsa module triple = .ok translated ∧
      translated.Follows (⟨module, host, limit⟩ : Ssa.Environment σ) ∧
      translated.Follows
        (⟨module, host.recorded, limit⟩ : Ssa.Environment (σ × List (String × List Int64))) := by
  obtain ⟨checks, -⟩ := Definition.checkAll_eq_ok_iff.mp (Prod.ext checked rfl)
  obtain ⟨first, compiler, started, added, rfl⟩ := compileProgram_eq_ok.mp compiled
  have regular := Compiler.regular_of_addAll checks.sources started added
  obtain ⟨translated, written, all⟩ := Llvm.ofSsa_eq_ok regular triple
  have transcribes : Llvm.Transcribes compiler.module translated := by
    refine ⟨all, (Llvm.Module.wellFormed regular all).names, regular.wordy, ?_, ?_⟩
    · intro id body found
      exact (regular.origin id body found).scalar scalar
    · intro id body found external member
      obtain ⟨_, declaration, declared, named, _⟩ :=
        (regular.origin id body found).external member
      exact ⟨declaration, declared, named⟩
  exact ⟨translated, written, Llvm.Transcribes.follows transcribes,
    Llvm.Transcribes.follows transcribes⟩

theorem translated_programs_agree_doubles : ∃ functions module translated,
    (Definition.checkAll .standard doubles).1 = .ok functions ∧
      compileProgram "doubles" .standard "main" functions = .ok module ∧
      Llvm.Module.ofSsa module "x86_64-unknown-linux-gnu" = .ok translated ∧
      ∃ fuel, Llvm.Environment.call ⟨translated, Ssa.Host.echo.recorded⟩ fuel "main" [.word 3]
        ((), []) = some (.word 0, (),
          [("printint", [2]), ("printint", [4]), ("printint", [6])]) := by
  have evaluated : ((Definition.checkAll .standard doubles).1.toOption.bind fun functions =>
      (compileProgram "doubles" .standard "main" functions).toOption.bind fun module =>
        let environment : Ssa.Environment (Unit × List (String × List Int64)) :=
          ⟨module, Ssa.Host.echo.recorded, none⟩
        (environment.start "main" [3] 0 ((), [])).machine?.bind fun first =>
          (environment.call 90 "main" [3] 0 ((), [])).bind fun ending =>
            if (∀ function ∈ functions, function.body.isScalar = true) ∧
              first.always environment (fun machine => !machine.overflows) 90 = true ∧
              ending.outcome.toOption = some [0]
            then some ending.host else none) =
      some ((), [("printint", [2]), ("printint", [4]), ("printint", [6])]) := by
    decide +kernel
  obtain ⟨functions, checked, evaluated⟩ := Option.bind_eq_some_iff.mp evaluated
  obtain ⟨module, compiled, evaluated⟩ := Option.bind_eq_some_iff.mp evaluated
  obtain ⟨first, started, evaluated⟩ := Option.bind_eq_some_iff.mp evaluated
  obtain ⟨⟨outcome, steps, host⟩, ended, evaluated⟩ := Option.bind_eq_some_iff.mp evaluated
  obtain ⟨⟨scalar, fits, returned⟩, same⟩ := Option.ite_none_right_eq_some.mp evaluated
  have checked := eq_ok_of_toOption checked
  have compiled := eq_ok_of_toOption compiled
  cases Option.some.inj same
  cases eq_ok_of_toOption returned
  obtain ⟨translated, written, -, follows⟩ := translated_programs_agree checked compiled scalar
    "x86_64-unknown-linux-gnu" Ssa.Host.echo none
  have serves : Ssa.Environment.Serves ⟨module, Ssa.Host.echo.recorded, none⟩
    (Ssa.Interpreter.start ((), [])) := .start _
  have answered : Ssa.Answered False ((Ssa.Interpreter.start ((), [])).call
      ⟨module, Ssa.Host.echo.recorded, none⟩ 90 "main" [3]) _ :=
    serves.idle.call_eq 90 "main" [3]
  obtain ⟨later, answer, host⟩ := (ended ▸ answered).of_ended
  obtain ⟨word, fuel, single, called⟩ := follows _ serves "main" [3] 90 [0] later
    (fun other machine begun reached => by
      cases begun.symm.trans (Ssa.Step.machine?_eq_some started)
      exact (Bool.not_eq_true' _).mp (Ssa.Machine.of_always fits reached))
    answer
  cases single
  rw [host] at called
  exact ⟨functions, module, translated, checked, compiled, written, fuel, called⟩

end ExprLang
