import ExprLang.Proofs.Ssa.Stack
import ExprLang.Proofs.Ssa.Truths

/-!
# Runs that keep promises

If all functions of a module keep promises, then truths stay truths while the module runs. An
activation that waits has called a function of some name, so whatever that function gives back is a
truth if one was promised. Main statement: at every point of a run the truths of all activations
are truths, and so are the results in the end.
-/

namespace ExprLang.Ssa

/-! ## Functions -/

def Function.Truth (promises : Promises) (function : Function) (value : Value) : Prop :=
  ∃ entry bools recording, Recording.Truthful promises entry bools recording ∧
    recording.builder.function = function ∧ recording.Truth promises entry bools value

theorem Function.holdTruths_iff {promises : Promises} {function : Function}
    {registers : Array Int64} :
    HoldTruths (function.Truth promises) registers ↔
      ∀ entry bools recording, Recording.Truthful promises entry bools recording →
        recording.builder.function = function →
          HoldTruths (recording.Truth promises entry bools) registers := by
  constructor
  · exact fun holds entry bools recording truthful same value truth =>
      holds value ⟨entry, bools, recording, truthful, same, truth⟩
  · rintro each value ⟨entry, bools, recording, truthful, same, truth⟩
    exact each entry bools recording truthful same value truth

/-- The functions of a module keep promises. Nothing is promised for functions that have no body,
and calls are to functions of the names that they give. -/
structure Module.Truthful (promises : Promises) (module : Module) : Prop where
  bodies : ∀ id body, module.body? id = some body →
    ∃ entry bools recording, Recording.Truthful promises entry bools recording ∧
      recording.builder.function = body
  named : ∀ id body, module.body? id = some body → ∀ external ∈ body.references,
    ∀ callee, module.body? external.id = some callee → callee.name = external.name
  hosted : ∀ id body, module.body? id = some body → ∀ external ∈ body.references,
    module.body? external.id = none → ¬ promises.gives external.name

theorem Environment.body?_of_host {environment : Environment σ} {id : FunctionId} {name : String}
    {wanted : Nat} {run : HostFunction σ} (callee : environment.callee id = .host name wanted run) :
    environment.module.body? id = none := by
  rw [Environment.callee] at callee
  split at callee
  · cases callee
  · rename_i found
    rw [Module.body?, found, Option.bind_some]
    split at callee
    · cases callee
    · assumption

/-! ## Activations -/

structure Frame.Awaits (promises : Promises) (caller : Frame) (results : List Value)
    (name : String) : Prop where
  holds : HoldTruths (caller.function.Truth promises) caller.registers
  calls : ∃ label, ∃ instruction ∈ (caller.function.block label).instructions,
    instruction.results = results ∧ ∃ reference arguments external,
      instruction.operation = .call reference arguments ∧
        caller.function.references[reference.index]? = some external ∧ external.name = name

/-- Each activation waits for the one above it, and the last of them is of the outermost
function. -/
def Awaited (promises : Promises) (outermost : String) :
    String → List (Frame × List Value) → Prop
  | name, [] => name = outermost
  | name, (caller, results) :: callers =>
    caller.Awaits promises results name ∧
      Awaited promises outermost caller.function.name callers

theorem Awaited.awaits {promises : Promises} {outermost name : String}
    {callers : List (Frame × List Value)} (awaited : Awaited promises outermost name callers)
    {caller : Frame} {results : List Value} (member : (caller, results) ∈ callers) :
    ∃ name, caller.Awaits promises results name := by
  induction callers generalizing name with
  | nil => cases member
  | cons first callers induction =>
      rcases List.mem_cons.mp member with rfl | later
      · exact ⟨name, awaited.1⟩
      · exact induction awaited.2 later

section Frames

variable {promises : Promises} {module : Module} {frame : Frame} {instruction : Instruction}
  {behind : List Instruction}

/-- What an instruction of an activation hands on are truths where they are wanted, for it is one
that the caller of the builder has appended. -/
theorem Frame.Seated.keeps (seated : frame.Seated module) (truthful : module.Truthful promises)
    (rest : frame.rest = instruction :: behind)
    (plain : instruction.operation.destinations = [])
    (other : ∀ type, instruction.operation ≠ .constant type 0) :
    instruction.operation.Keeps promises frame.function (frame.function.Truth promises) := by
  obtain ⟨id, known⟩ := seated.known
  obtain ⟨entry, bools, recording, keeps, same⟩ := truthful.bodies id _ known
  have member := seated.member rest
  rw [← same] at member
  obtain ⟨original, emittedHere, operation⟩ := keeps.appended member plain other
  have kept := keeps.keeps _ _ (mem_emitted.mp emittedHere)
  rw [Event.Keeps, operation, same] at kept
  have truth : ∀ value, recording.Truth promises entry bools value →
      frame.function.Truth promises value :=
    fun value isTruth => ⟨entry, bools, recording, keeps, same, isTruth⟩
  cases operation : instruction.operation with
  | call reference arguments =>
      rw [operation] at kept
      exact fun external found index argument takes given =>
        truth _ (kept external found index argument takes given)
  | ret values =>
      rw [operation] at kept
      exact fun gives value member => truth _ (kept gives value member)
  | _ => trivial

/-- What an activation gives back are truths if a truth was promised for its function. -/
theorem Frame.Seated.returns (seated : frame.Seated module) (truthful : module.Truthful promises)
    (holds : HoldTruths (frame.function.Truth promises) frame.registers)
    (rest : frame.rest = instruction :: behind) {values : List Value} {words : List Int64}
    (operation : instruction.operation = .ret values)
    (read : readAll frame.registers values = some words)
    (gives : promises.gives frame.function.name) : ∀ word ∈ words, IsTruth word := by
  have keeps := seated.keeps truthful rest (by rw [operation]; rfl) (by simp [operation])
  rw [operation] at keeps
  intro word member
  obtain ⟨index, given⟩ := List.mem_iff_getElem?.mp member
  obtain ⟨inside, _⟩ := List.getElem?_eq_some_iff.mp given
  rw [← (readAll_eq_some.mp read).length_eq] at inside
  have found := List.getElem?_eq_getElem inside
  exact holds.read read found given (keeps gives _ (List.mem_of_getElem? found))

/-- A function that is called is given truths where they are wanted. -/
theorem Frame.Seated.passes (seated : frame.Seated module) (truthful : module.Truthful promises)
    (holds : HoldTruths (frame.function.Truth promises) frame.registers)
    (rest : frame.rest = instruction :: behind) {reference : Reference} {arguments : List Value}
    {words : List Int64} {external : External}
    (operation : instruction.operation = .call reference arguments)
    (read : readAll frame.registers arguments = some words)
    (found : frame.function.references[reference.index]? = some external) {index : Nat}
    {word : Int64} (takes : promises.takes external.name index)
    (given : words[index]? = some word) : IsTruth word := by
  have keeps := seated.keeps truthful rest (by rw [operation]; rfl) (by simp [operation])
  rw [operation] at keeps
  obtain ⟨inside, _⟩ := List.getElem?_eq_some_iff.mp given
  rw [← (readAll_eq_some.mp read).length_eq] at inside
  have argument := List.getElem?_eq_getElem inside
  exact holds.read read argument given (keeps external found index _ takes argument)

/-- A function is entered. -/
theorem HoldTruths.enter {function : Function} {arguments : List Int64} {depth : Nat}
    {memory grown : Memory}
    (entered : enter function arguments depth memory = .ok (frame, grown))
    (promised : ∀ index word, promises.takes function.name index →
      arguments[index]? = some word → IsTruth word) :
    frame.function = function ∧
      HoldTruths (frame.function.Truth promises) frame.registers := by
  rw [Ssa.enter] at entered
  split at entered
  · cases entered
  · rename_i count
    split at entered
    · cases entered
    · have same : frame.function = function := by
        obtain ⟨_, _, _, _, _, _, _, _, rfl⟩ := activate_eq_ok.mp entered
        rfl
      refine ⟨same, Function.holdTruths_iff.mpr fun entry bools recording truthful equal => ?_⟩
      obtain rfl := equal.trans same
      exact truthful.activate entered (not_not.mp count) promised

end Frames

/-! ## Machines -/

namespace Machine

structure Truthful (promises : Promises) (outermost : String) (machine : Machine σ) : Prop where
  holds : HoldTruths (machine.frame.function.Truth promises) machine.frame.registers
  awaited : Awaited promises outermost machine.frame.function.name machine.callers

variable {promises : Promises} {outermost : String} {environment : Environment σ}
  {machine later : Machine σ}

theorem Truthful.next (truthful : machine.Truthful promises outermost)
    (keeps : environment.module.Truthful promises) (stacked : machine.Stacked environment.module)
    (next : machine.step environment = .next later) : later.Truthful promises outermost := by
  have seated : machine.frame.Seated environment.module := stacked.1
  obtain ⟨holds, awaited⟩ := truthful
  have each := Function.holdTruths_iff.mp holds
  cases effect_of_step next with
  | compute rest computed results inside =>
      refine ⟨Function.holdTruths_iff.mpr fun entry bools recording known same => ?_, awaited⟩
      have member := seated.member rest
      rw [← same] at member computed
      exact known.compute (each entry bools recording known same) member computed results
  | write rest updated => exact ⟨holds, awaited⟩
  | host rest operation read found callee answered count written =>
      refine ⟨Function.holdTruths_iff.mpr fun entry bools recording known same => ?_, awaited⟩
      have member := seated.member rest
      obtain ⟨id, body⟩ := seated.known
      have nothing := keeps.hosted id _ body _ (Array.mem_of_getElem? found)
        (Environment.body?_of_host callee)
      rw [← same] at member found
      exact known.answer (each entry bools recording known same) member operation found
        (fun gives => absurd gives nothing) written
  | @enter frame inner _ _ _ _ _ _ instruction _ _ _ _ external callee rest operation read found
      body entered =>
      obtain ⟨id, known⟩ := seated.known
      have called : callee.name = external.name := keeps.named id _ known external
        (Array.mem_of_getElem? found) callee (Environment.body?_of_callee body)
      obtain ⟨same, holdsInner⟩ := HoldTruths.enter entered fun index word takes given =>
        seated.passes keeps holds rest operation read found (called ▸ takes) given
      refine ⟨holdsInner, ⟨holds, ?_⟩, awaited⟩
      exact ⟨frame.block, instruction, seated.member rest, rfl, _, _, external, operation, found,
        by rw [same, called]⟩
  | branch rest operation tested went =>
      refine ⟨Function.holdTruths_iff.mpr fun entry bools recording known same => ?_, awaited⟩
      have member := seated.member rest
      rw [← same] at member went
      refine known.follow (each entry bools recording known same) member ?_ went
      rw [operation]
      split <;> simp [Operation.destinations]
  | jump rest operation went =>
      refine ⟨Function.holdTruths_iff.mpr fun entry bools recording known same => ?_, awaited⟩
      have member := seated.member rest
      rw [← same] at member went
      exact known.follow (each entry bools recording known same) member
        (by simp [operation, Operation.destinations]) went
  | ret rest operation read written =>
      have words := seated.returns keeps holds rest operation read
      obtain ⟨⟨waiting, label, instruction, member, rfl, reference, arguments, external, called,
        found, named⟩, others⟩ := awaited
      refine ⟨Function.holdTruths_iff.mpr fun entry bools recording known same => ?_, others⟩
      have before := Function.holdTruths_iff.mp waiting entry bools recording known same
      rw [← named] at words
      simp only at same
      rw [← same] at member found
      exact known.answer before member called found words written

/-- The state in which a call from outside starts. -/
theorem Truthful.start {name : String} {arguments : List Int64} {steps : Nat} {host : σ}
    {function : Function} {id : FunctionId} (found : environment.module.find? name = some id)
    (body : environment.module.body? id = some function)
    (promised : ∀ index word, promises.takes function.name index →
      arguments[index]? = some word → IsTruth word)
    (started : environment.start name arguments steps host = .next machine) :
    machine.Truthful promises function.name := by
  simp only [Environment.start, found] at started
  split at started
  · cases started
  · cases started
  · rename_i callee
    cases body.symm.trans (Environment.body?_of_callee callee)
    split at started
    · cases started
    · rename_i entered
      cases started
      obtain ⟨same, holds⟩ := HoldTruths.enter entered promised
      exact ⟨holds, congrArg Function.name same⟩

theorem Truthful.run (truthful : machine.Truthful promises outermost)
    (keeps : environment.module.Truthful promises) (stacked : machine.Stacked environment.module)
    (reached : Reaches environment machine later) : later.Truthful promises outermost := by
  induction reached with
  | refl => exact truthful
  | tail before next induction => exact induction.next keeps (stacked.run before) next

theorem Truthful.frame (truthful : machine.Truthful promises outermost) {frame : Frame}
    (member : frame ∈ machine.frames) :
    HoldTruths (frame.function.Truth promises) frame.registers := by
  rcases List.mem_cons.mp member with rfl | waiting
  · exact truthful.holds
  · obtain ⟨⟨caller, results⟩, listed, rfl⟩ := List.mem_map.mp waiting
    obtain ⟨name, awaits⟩ := truthful.awaited.awaits listed
    exact awaits.holds

theorem Truthful.ends (truthful : machine.Truthful promises outermost)
    (keeps : environment.module.Truthful promises) (stacked : machine.Stacked environment.module)
    {words : List Int64} {steps : Nat} {host : σ}
    (halted : machine.step environment = .halt ⟨.ok words, steps, host⟩)
    (gives : promises.gives outermost) : ∀ word ∈ words, IsTruth word := by
  obtain ⟨instruction, behind, values, rest, operation, read, none, -, -⟩ := step_eq_halt_ok halted
  have seated : machine.frame.Seated environment.module := stacked.1
  have awaited := truthful.awaited
  rw [none] at awaited
  exact seated.returns keeps truthful.holds rest operation read (awaited.symm ▸ gives)

end Machine

end ExprLang.Ssa
