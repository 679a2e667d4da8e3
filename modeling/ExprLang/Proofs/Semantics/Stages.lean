import ExprLang.Proofs.Semantics.Evaluation
import ExprLang.Proofs.Ssa.Contents
import ExprLang.Proofs.Ssa.Numbering

/-!
# Machines at the stages of lowering

While the code of a finished function is executed, the machine comes past the ends of what was
emitted at the stages of lowering. There the variables of the builder have the contents of the
cells of an evaluation, and values that were made before hold the words that they held.
-/

/-!
## Machines that do what an evaluation says

If an evaluation gives a value, the machine comes to a state that shows it; if it ends with a
fault, so does the run; and if it is unfinished after some rounds, the machine still runs after as
many steps. Evaluations and runs that do this can be put behind each other.
-/

namespace ExprLang

open Ssa

namespace Ssa.Machine

variable {environment : Environment σ} {machine later : Machine σ} {fuel less : Nat}

theorem run_succ (next : machine.step environment = .next later) (fuel : Nat) :
    machine.run environment (fuel + 1) = later.run environment fuel := by
  rw [run, next]

theorem run_eq_none_of_le (fewer : less ≤ fuel) (running : machine.run environment fuel = none) :
    machine.run environment less = none := by
  induction fuel generalizing machine less with
  | zero =>
      cases Nat.le_zero.mp fewer
      exact running
  | succ fuel induction =>
      cases less with
      | zero => rfl
      | succ less =>
          rw [run] at running ⊢
          cases next : machine.step environment with
          | next later =>
              rw [next] at running
              exact induction (Nat.le_of_succ_le_succ fewer) running
          | halt ending =>
              rw [next] at running
              cases running

theorem run_eq_some_of_le {halt : Halt σ} (more : less ≤ fuel)
    (ended : machine.run environment less = some halt) :
    machine.run environment fuel = some halt := by
  induction less generalizing machine fuel with
  | zero => cases ended
  | succ less induction =>
      cases fuel with
      | zero => cases more
      | succ fuel =>
          rw [run] at ended ⊢
          cases next : machine.step environment with
          | next later =>
              rw [next] at ended
              exact induction (Nat.le_of_succ_le_succ more) ended
          | halt ending =>
              rw [next] at ended
              exact ended

theorem run_unique {first second : Halt σ} {more : Nat}
    (left : machine.run environment fuel = some first)
    (right : machine.run environment more = some second) : first = second := by
  have left := run_eq_some_of_le (Nat.le_max_left fuel more) left
  have right := run_eq_some_of_le (Nat.le_max_right fuel more) right
  exact Option.some.inj (left.symm.trans right)

theorem run_of_reaches {halt : Halt σ} (reached : Reaches environment machine later)
    (halted : later.step environment = .halt halt) :
    ∃ fuel, machine.run environment fuel = some halt := by
  induction reached using Relation.ReflTransGen.head_induction_on with
  | refl => exact ⟨1, by rw [run, halted]⟩
  | head next _ induction =>
      obtain ⟨fuel, ended⟩ := induction
      exact ⟨fuel + 1, by rw [run_succ next, ended]⟩

theorem reaches_of_run {halt : Halt σ} (ended : machine.run environment fuel = some halt) :
    ∃ later, Reaches environment machine later ∧ later.step environment = .halt halt := by
  induction fuel generalizing machine with
  | zero => cases ended
  | succ fuel induction =>
      rw [run] at ended
      cases next : machine.step environment with
      | next following =>
          rw [next] at ended
          obtain ⟨later, reached, halted⟩ := induction ended
          exact ⟨later, reached.head next, halted⟩
      | halt ending =>
          rw [next] at ended
          cases ended
          exact ⟨machine, .refl, next⟩

end Ssa.Machine

/-- The number that the counter of a loop is about to be compared with. Behind no other comparison
there is a branch: the result of a comparison that the source asks for is widened first. -/
def Ssa.Machine.limit? (machine : Machine σ) : Option Int64 :=
  match machine.frame.rest with
  | ⟨[result], .compare .greater _ limit, _⟩ :: ⟨_, .branch test _ _, _⟩ :: _ =>
    if test = result then machine.frame.registers[limit.index]? else none
  | _ => none

def Ssa.Machine.Endless (environment : Environment σ) (machine : Machine σ) : Prop :=
  ∃ later, Reaches environment machine later ∧ later.limit? = some Int64.maxValue

theorem Ssa.Machine.Endless.reach {environment : Environment σ} {machine later : Machine σ}
    (endless : later.Endless environment) (reached : Reaches environment machine later) :
    machine.Endless environment := by
  obtain ⟨last, further, limit⟩ := endless
  exact ⟨last, reached.trans further, limit⟩

/-- A machine does what an answer says. Patience means that there are enough rounds for every loop
that has an end; then only a loop that has none is unfinished. -/
def Realizes (environment : Environment σ) (budget : Nat) (patient : Prop) (machine : Machine σ)
    (arrives : α → Store σ → Machine σ → Prop) : Answer σ α → Prop
  | .value result store => ∃ later, Machine.Reaches environment machine later ∧
      arrives result store later
  | .fault fault host => ∃ fuel steps,
      machine.run environment fuel = some ⟨.error fault, steps, host⟩
  | .unfinished => machine.run environment budget = none ∧
      (patient → machine.Endless environment)

namespace Realizes

variable {environment : Environment σ} {budget : Nat} {patient : Prop}
  {machine later : Machine σ} {arrives : α → Store σ → Machine σ → Prop} {answer : Answer σ α}

theorem value {result : α} {store : Store σ} (arrived : arrives result store machine) :
    Realizes environment budget patient machine arrives (.value result store) :=
  ⟨machine, .refl, arrived⟩

theorem halt {fault : Fault} {host : σ} {steps : Nat}
    (halted : machine.step environment = .halt ⟨.error fault, steps, host⟩) :
    Realizes environment budget patient machine arrives (.fault fault host) := by
  refine ⟨1, steps, ?_⟩
  rw [Machine.run, halted]

theorem mono (realizes : Realizes environment budget patient machine arrives answer)
    {reaches : α → Store σ → Machine σ → Prop}
    (weaker : ∀ result store later, arrives result store later → reaches result store later) :
    Realizes environment budget patient machine reaches answer := by
  cases answer with
  | value result store =>
      obtain ⟨later, reached, arrived⟩ := realizes
      exact ⟨later, reached, weaker result store later arrived⟩
  | fault cause host => exact realizes
  | unfinished => exact realizes

theorem further (realizes : Realizes environment budget patient machine arrives answer)
    {reaches : α → Store σ → Machine σ → Prop}
    (onwards : ∀ result store later, arrives result store later →
      ∃ last, Machine.Reaches environment later last ∧ reaches result store last) :
    Realizes environment budget patient machine reaches answer := by
  cases answer with
  | value result store =>
      obtain ⟨later, reached, arrived⟩ := realizes
      obtain ⟨last, ahead, arrived⟩ := onwards result store later arrived
      exact ⟨last, reached.trans ahead, arrived⟩
  | fault cause host => exact realizes
  | unfinished => exact realizes

theorem fewer {less : Nat} (realizes : Realizes environment budget patient machine arrives answer)
    (smaller : less ≤ budget) : Realizes environment less patient machine arrives answer := by
  cases answer with
  | value result store => exact realizes
  | fault cause host => exact realizes
  | unfinished => exact ⟨Machine.run_eq_none_of_le smaller realizes.1, realizes.2⟩

theorem hasten {hasty : Prop}
    (realizes : Realizes environment budget patient machine arrives answer)
    (implies : hasty → patient) : Realizes environment budget hasty machine arrives answer := by
  cases answer with
  | value result store => exact realizes
  | fault cause host => exact realizes
  | unfinished => exact ⟨realizes.1, fun holds => realizes.2 (implies holds)⟩

theorem step (next : machine.step environment = .next later)
    (realizes : Realizes environment budget patient later arrives answer) :
    Realizes environment (budget + 1) patient machine arrives answer := by
  cases answer with
  | value result store =>
      obtain ⟨last, reached, arrived⟩ := realizes
      exact ⟨last, .head next reached, arrived⟩
  | fault cause host =>
      obtain ⟨fuel, steps, ended⟩ := realizes
      exact ⟨fuel + 1, steps, by rw [Machine.run_succ next, ended]⟩
  | unfinished =>
      obtain ⟨running, endless⟩ := realizes
      exact ⟨(Machine.run_succ next budget).trans running, fun holds =>
        (endless holds).reach (.single next)⟩

theorem reach (reached : Machine.Reaches environment machine later)
    (realizes : Realizes environment budget patient later arrives answer) :
    Realizes environment budget patient machine arrives answer := by
  induction reached using Relation.ReflTransGen.head_induction_on with
  | refl => exact realizes
  | head next _ induction => exact (induction.step next).fewer (Nat.le_succ budget)

theorem bind {next : α → Store σ → Answer σ β} {reaches : β → Store σ → Machine σ → Prop}
    (first : Realizes environment budget patient machine arrives answer)
    (second : ∀ result store later, answer = .value result store → arrives result store later →
      Realizes environment budget patient later reaches (next result store)) :
    Realizes environment budget patient machine reaches (answer.bind next) := by
  cases answer with
  | value result store =>
      obtain ⟨later, reached, arrived⟩ := first
      exact (second result store later rfl arrived).reach reached
  | fault cause host => exact first
  | unfinished => exact first

theorem of_map {change : α → β} {arrives : β → Store σ → Machine σ → Prop}
    (realizes : Realizes environment budget patient machine arrives
      (answer.bind fun result store => .value (change result) store)) :
    Realizes environment budget patient machine (fun result => arrives (change result))
      answer := by
  cases answer with
  | value result store => exact realizes
  | fault cause host => exact realizes
  | unfinished => exact realizes

end Realizes

end ExprLang

/-! ## Stages -/

namespace ExprLang.Lowering

open Ssa

abbrev Stage.size (stage : Stage) : Nat :=
  stage.recording.builder.function.values.size

theorem Reaches.size_le {first last : Stage} (reaches : Reaches first last) :
    first.size ≤ last.size :=
  (Moves.grows reaches.moves).size_le

structure Executed (environment : Environment σ) (final : Recording) : Prop where
  finished : Finished firstBlock final
  handed : final.HandsAvailable
  supports : environment.module.Supports final.builder.function
  unlimited : environment.limit = none

theorem Executed.allowed {environment : Environment σ} {final : Recording}
    (executed : Executed environment final) (steps : Nat) :
    environment.exceeds steps = false := by
  rw [Environment.exceeds, executed.unlimited]

/-! ## Places -/

/-- A machine is at a point of the script of its block, and it agrees with a store. -/
structure Stands (environment : Environment σ) (final : Recording) (events : List Event)
    (store : Store σ) (machine : Machine σ) : Prop where
  faithful : Faithful firstBlock final machine.frame events
    (fun var => store.cells var.index) []
  sane : machine.frame.Sane environment.module
  memory : machine.memory = store.memory
  host : machine.host = store.host

structure Rests (environment : Environment σ) (final : Recording) (stage : Stage)
    (store : Store σ) (machine : Machine σ) : Prop where
  current : stage.shape.current = some machine.frame.block
  stands : ∃ events,
    final.script machine.frame.block = stage.shape.script machine.frame.block ++ events ∧
      Stands environment final events store machine

structure Opens (environment : Environment σ) (final : Recording) (label : Label)
    (store : Store σ) (machine : Machine σ) : Prop where
  block : machine.frame.block = label
  stands : Stands environment final (final.script label) store machine

/-- The same activation is executed, and the registers below some number are as they were. -/
structure Stays (count : Nat) (machine later : Machine σ) : Prop where
  callers : later.callers = machine.callers
  depth : later.depth = machine.depth
  slots : later.frame.slots = machine.frame.slots
  floor : later.frame.floor = machine.frame.floor
  kept : ∀ value : Value, value.index < count →
    later.frame.registers[value.index]? = machine.frame.registers[value.index]?

def Shows (stage : Stage) (machine : Machine σ) : List Value → List Int64 → Prop :=
  List.Forall₂ fun value word => value.index < stage.size ∧
    machine.frame.registers[value.index]? = some word

section Places

variable {environment : Environment σ} {final : Recording} {first last stage : Stage}
  {events : List Event} {store : Store σ} {machine middle later : Machine σ} {label : Label}
  {values others : List Value} {words more : List Int64} {value : Value} {word : Int64}

theorem Stays.refl (count : Nat) (machine : Machine σ) : Stays count machine machine :=
  ⟨rfl, rfl, rfl, rfl, fun _ _ => rfl⟩

theorem Stays.fewer {count larger : Nat} (stays : Stays larger machine later)
    (smaller : count ≤ larger) : Stays count machine later where
  callers := stays.callers
  depth := stays.depth
  slots := stays.slots
  floor := stays.floor
  kept value inside := stays.kept value (Nat.lt_of_lt_of_le inside smaller)

theorem Stays.trans {count larger : Nat} (left : Stays count machine middle)
    (right : Stays larger middle later) (smaller : count ≤ larger) :
    Stays count machine later where
  callers := right.callers.trans left.callers
  depth := right.depth.trans left.depth
  slots := right.slots.trans left.slots
  floor := right.floor.trans left.floor
  kept value inside := ((right.fewer smaller).kept value inside).trans (left.kept value inside)

theorem Shows.nil : Shows stage machine [] [] :=
  List.Forall₂.nil

theorem Shows.single (inside : value.index < stage.size)
    (holds : machine.frame.registers[value.index]? = some word) :
    Shows stage machine [value] [word] :=
  .cons ⟨inside, holds⟩ .nil

theorem Shows.append (left : Shows stage machine values words)
    (right : Shows stage machine others more) :
    Shows stage machine (values ++ others) (words ++ more) :=
  List.rel_append left right

theorem Shows.kept (shows : Shows first machine values words)
    (stays : Stays first.size machine later) (larger : first.size ≤ last.size) :
    Shows last later values words :=
  shows.imp fun value _ ⟨inside, holds⟩ =>
    ⟨Nat.lt_of_lt_of_le inside larger, (stays.kept value inside).trans holds⟩

theorem Shows.read (shows : Shows stage machine values words) :
    readAll machine.frame.registers values = some words :=
  readAll_eq_some.mpr (shows.imp fun _ _ holds => holds.2)

theorem Shows.holds (shows : Shows stage machine values words) (index : Nat)
    (chosen : values[index]? = some value) (given : words[index]? = some word) :
    machine.frame.registers[value.index]? = some word := by
  obtain ⟨inside, rfl⟩ := List.getElem?_eq_some_iff.mp chosen
  obtain ⟨within, rfl⟩ := List.getElem?_eq_some_iff.mp given
  exact ((List.forall₂_iff_get.mp shows).2 index inside within).2

theorem Opens.rests (opens : Opens environment final label store machine)
    (current : stage.shape.current = some label) (empty : stage.shape.script label = []) :
    Rests environment final stage store machine := by
  obtain ⟨rfl, stands⟩ := opens
  exact ⟨current, _, by rw [empty, List.nil_append], stands⟩

theorem Shows.inside (shows : Shows stage machine values words) (member : value ∈ values) :
    value.index < stage.size := by
  obtain ⟨_, _, inside, _⟩ := forall₂_mem_left shows member
  exact inside

theorem Rests.same (rests : Rests environment final first store machine)
    (shape : last.shape = first.shape) : Rests environment final last store machine := by
  obtain ⟨current, events, split, stands⟩ := rests
  exact ⟨by rw [shape]; exact current, events, by rw [shape]; exact split, stands⟩

/-- What comes next in the block that is executed. -/
theorem Rests.ahead (rests : Rests environment final first store machine) {next : List Event}
    (shape : last.shape.script machine.frame.block =
      first.shape.script machine.frame.block ++ next)
    (longer : last.shape.script machine.frame.block <+: final.script machine.frame.block) :
    ∃ events, final.script machine.frame.block =
        last.shape.script machine.frame.block ++ events ∧
      Stands environment final (next ++ events) store machine := by
  obtain ⟨_, events, split, stands⟩ := rests
  obtain ⟨rest, equal⟩ := longer
  rw [← equal, shape, List.append_assoc] at split
  cases List.append_cancel_left split
  exact ⟨rest, equal.symm, stands⟩

theorem Rests.next (rests : Rests environment final first store machine) {event : Event}
    (shape : last.shape.script machine.frame.block =
      first.shape.script machine.frame.block ++ [event])
    (longer : last.shape.script machine.frame.block <+: final.script machine.frame.block) :
    ∃ events, final.script machine.frame.block =
        last.shape.script machine.frame.block ++ events ∧
      Stands environment final (event :: events) store machine :=
  rests.ahead shape longer

end Places

/-! ## Steps -/

section Steps

variable {environment : Environment σ} {final : Recording} {first last stage : Stage}
  {events : List Event} {store after : Store σ} {machine later : Machine σ} {label : Label}
  {instruction : Instruction}

theorem Stands.rest
    (stands : Stands environment final (.instruction instruction :: events) store machine) :
    machine.frame.rest = (instruction.extend fun side =>
      final.appended ⟨machine.frame.block, side⟩) ::
        final.code machine.frame.block events := by
  rw [stands.faithful.rest, Recording.code, emitted_instruction]
  rfl

/-- The machine goes on to the next instruction of the block. -/
theorem Stands.proceed (executed : Executed environment final)
    (stands : Stands environment final (.instruction instruction :: events) store machine)
    (plain : instruction.isTerminator = false)
    (continues : Machine.Continues machine.frame later.frame instruction)
    (cells : after.cells = store.cells) (memory : later.memory = after.memory)
    (host : later.host = after.host) :
    Stands environment final events after later := by
  have rest := stands.rest
  rw [instruction.extend_of_plain plain] at rest
  refine ⟨?_, ?_, memory, host⟩
  · rw [cells]
    refine stands.faithful.advance executed.finished executed.handed ?_
    rwa [instruction.extend_of_plain plain]
  · have behind : later.frame.rest = final.code machine.frame.block events := by
      have same := continues.rest.symm.trans rest
      exact (List.cons.inj same).2
    obtain ⟨frame, callers, depth, memory, steps, host⟩ := later
    obtain ⟨function, block, tail, registers, slots, floor⟩ := frame
    obtain ⟨-, -, rfl, rfl, rfl, rfl, size, -⟩ := continues
    cases behind
    exact stands.sane.proceed rest plain size

end Steps

end ExprLang.Lowering
