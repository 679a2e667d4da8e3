import ExprLang.Proofs.Ssa.History
import ExprLang.Proofs.Ssa.Stepping

/-!
# Activations

The states that one activation of a function comes to, while the functions that it calls run in
between.
-/

namespace ExprLang.Ssa

namespace Machine

/-- The activation that is executed comes to another state. It executes its own instructions,
after which the same activations wait, or waits itself until a function that it has called
returns. -/
inductive Runs (environment : Environment σ) : Machine σ → Machine σ → Prop
  | refl (machine : Machine σ) : Runs environment machine machine
  | step {machine middle later : Machine σ}
      (first : machine.step environment = .next middle)
      (same : middle.callers = machine.callers)
      (rest : Runs environment middle later) : Runs environment machine later
  | call {machine inner last middle later : Machine σ}
      (first : machine.step environment = .next inner)
      (deeper : inner.callers.length = machine.callers.length + 1)
      (body : Runs environment inner last)
      (back : last.step environment = .next middle)
      (same : middle.callers = machine.callers)
      (rest : Runs environment middle later) : Runs environment machine later

def Proceeds (environment : Environment σ) (machine later : Machine σ) : Prop :=
  (machine.step environment = .next later ∧ later.callers = machine.callers) ∨
    ∃ inner last, machine.step environment = .next inner ∧
      inner.callers.length = machine.callers.length + 1 ∧ Runs environment inner last ∧
      last.step environment = .next later ∧ later.callers = machine.callers

variable {environment : Environment σ} {machine middle later : Machine σ}

namespace Runs

theorem callers (runs : Runs environment machine later) : later.callers = machine.callers := by
  induction runs with
  | refl => rfl
  | step _ same _ induction => rw [induction, same]
  | call _ _ _ _ same _ _ induction => rw [induction, same]

end Runs

namespace Proceeds

theorem effect (proceeds : Proceeds environment machine later) :
    ∃ instruction, machine.frame.rest.head? = some instruction ∧
      (Continues machine.frame later.frame instruction ∨ ∃ destination words,
        Branches machine.frame later.frame instruction destination words) := by
  rcases proceeds with ⟨step, same⟩ | ⟨inner, last, first, deeper, body, back, same⟩
  · obtain ⟨instruction, head, cases⟩ := step_next step
    refine ⟨instruction, head, ?_⟩
    rcases cases with ⟨_, continues⟩ | ⟨_, branches⟩ | ⟨_, entered⟩ |
      ⟨caller, results, words, registers, returned, _, _⟩
    · exact .inl continues
    · exact .inr branches
    · rw [same] at entered
      have length := congrArg List.length entered
      simp at length
    · rw [same] at returned
      have length := congrArg List.length returned
      simp at length
  · -- The function that was called returns to the activation as it was left.
    obtain ⟨instruction, head, cases⟩ := step_next first
    refine ⟨instruction, head, .inl ?_⟩
    rcases cases with ⟨stays, _⟩ | ⟨stays, _⟩ | ⟨plain, entered⟩ |
      ⟨caller, results, words, registers, returned, _, _⟩
    · rw [stays] at deeper
      omega
    · rw [stays] at deeper
      omega
    · obtain ⟨_, _, cases⟩ := step_next back
      rw [body.callers, entered, same] at cases
      rcases cases with ⟨stays, _⟩ | ⟨stays, _⟩ | ⟨_, longer⟩ |
        ⟨caller, results, words, registers, returned, written, frame⟩
      · have length := congrArg List.length stays
        simp at length
      · have length := congrArg List.length stays
        simp at length
      · have length := congrArg List.length longer
        simp only [List.length_cons] at length
        omega
      · simp only [List.cons.injEq, Prod.mk.injEq, and_true] at returned
        obtain ⟨rfl, rfl⟩ := returned
        have split : machine.frame.rest = instruction :: machine.frame.rest.tail := by
          cases rest : machine.frame.rest with
          | nil => simp [rest] at head
          | cons first behind =>
              simp only [rest, List.head?_cons, Option.some.injEq] at head
              rw [head]
              rfl
        rw [frame]
        exact ⟨split, plain, rfl, rfl, rfl, rfl, writeAll_size written,
          fun _ => writeAll_of_not_mem written⟩
    · rw [returned, List.length_cons] at deeper
      omega

theorem constant (proceeds : Proceeds environment machine later) {type : MachineType}
    {word : Int64} {value : Value} {stray : List Destination} {behind : List Instruction}
    (rest : machine.frame.rest = ⟨[value], .constant type word, stray⟩ :: behind) :
    later.frame.registers[value.index]? = some word := by
  have own : ∀ next, machine.step environment = .next next →
      next.callers = machine.callers ∧ next.frame.registers[value.index]? = some word := by
    obtain ⟨⟨function, block, _, registers, slots, floor⟩, callers, depth, memory, steps, host⟩ :=
      machine
    simp only at rest
    subst rest
    intro next went
    simp only [step] at went
    split at went
    · cases went
    · simp only [compute] at went
      split at went
      · cases went
        rename_i inside
        exact ⟨rfl, by simp [inside]⟩
      · cases went
  rcases proceeds with ⟨step, _⟩ | ⟨inner, last, first, deeper, _⟩
  · exact (own later step).2
  · rw [(own inner first).1] at deeper
    omega

end Proceeds

end Machine

/-! ## The way through the scripts -/

/-- An activation that starts with `start` passes along the scripts of the blocks. The list
holds the events of the current block that are still to come, and the function what each
variable was given last, or zero. Instructions that are not part of a script are passed
first. -/
inductive Visits (environment : Environment σ) (script : Label → List Event)
    (start : Machine σ) : Machine σ → List Event → (Variable → Int64) → Prop
  | enter : Visits environment script start start (script start.frame.block) fun _ => 0
  | skip {machine later : Machine σ} {events : List Event} {contents : Variable → Int64}
      (visits : Visits environment script start machine events contents)
      (early : (emitted events).length < machine.frame.rest.length)
      (proceeds : machine.Proceeds environment later) :
      Visits environment script start later events contents
  | define {machine : Machine σ} {var : Variable} {value : Value} {events : List Event}
      {contents : Variable → Int64} {word : Int64}
      (visits : Visits environment script start machine (.define var value :: events) contents)
      (here : machine.frame.rest.length = (emitted events).length)
      (holds : machine.frame.registers[value.index]? = some word) :
      Visits environment script start machine events (Function.update contents var word)
  | use {machine : Machine σ} {var : Variable} {value : Value} {events : List Event}
      {contents : Variable → Int64}
      (visits : Visits environment script start machine (.use var value :: events) contents)
      (here : machine.frame.rest.length = (emitted events).length) :
      Visits environment script start machine events contents
  | instruction {machine later : Machine σ} {instruction : Instruction} {events : List Event}
      {contents : Variable → Int64}
      (visits : Visits environment script start machine (.instruction instruction :: events)
        contents)
      (here : machine.frame.rest.length = (emitted events).length + 1)
      (proceeds : machine.Proceeds environment later) :
      Visits environment script start later
        (if instruction.isTerminator then script later.frame.block else events) contents

end ExprLang.Ssa
