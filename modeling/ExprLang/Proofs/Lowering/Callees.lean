import ExprLang.Proofs.Lowering.Arrays
import ExprLang.Proofs.Ssa.Accesses

/-!
# Callees and the memory of their callers

The functions of a compiled module write to memory only where their own slots are. So whatever
addresses a program computes and passes around, what a function does leaves the memory of the
functions that wait for it as it was.
-/

namespace ExprLang

open Ssa

namespace Ssa.Machine

def operation? (machine : Machine σ) : Option Operation :=
  machine.frame.rest.head?.map Instruction.operation

variable {environment : Environment σ} {machine later : Machine σ}

theorem operation?_eq_some {operation : Operation}
    (found : machine.operation? = some operation) :
    ∃ instruction behind, machine.frame.rest = instruction :: behind ∧
      instruction.operation = operation := by
  obtain ⟨instruction, head, same⟩ := Option.map_eq_some_iff.mp found
  obtain ⟨behind, rest⟩ := List.head?_eq_some_iff.mp head
  exact ⟨instruction, behind, rest, same⟩

/-- A call is answered by the host, or it enters a function above all memory in use. -/
theorem Stacked.call (stacked : machine.Stacked environment.module) {reference : Reference}
    {arguments : List Value} (calls : machine.operation? = some (.call reference arguments))
    (next : machine.step environment = .next later) :
    (later.memory = machine.memory ∧ later.callers = machine.callers) ∨
      (Memory.Agree 0 machine.memory.size machine.memory later.memory ∧
        later.Holds (machine.callers.length + 1) later.frame.function machine.memory.size) := by
  obtain ⟨instruction, behind, same, operation⟩ := operation?_eq_some calls
  cases effect_of_step next with
  | compute rest computed =>
      cases rest.symm.trans same
      rw [operation] at computed
      cases computed
  | write rest updated =>
      cases rest.symm.trans same
      rw [operation] at updated
      cases updated
  | host => exact .inl ⟨rfl, rfl⟩
  | @enter frame inner callers _ _ _ _ _ _ _ _ _ _ _ _ rest other read found body entered =>
      obtain ⟨seated, top, _⟩ := stacked
      obtain ⟨_, floor, _, keeps⟩ :=
        Frame.Seated.start (Environment.body?_of_callee body) (top ▸ seated.bounded) entered
      exact .inr ⟨keeps, [], inner, _, rfl, by simp, rfl, floor⟩
  | branch rest other | jump rest other | ret rest other =>
      cases rest.symm.trans same
      rw [operation] at other
      cases other

/-- A store in a slot of some size that starts at some address names a word inside the slot. The
slot lies in the part of the memory that belongs to the innermost activation, and nothing else
is changed. -/
structure StoresInside (environment : Environment σ) (machine : Machine σ) (slot : Slot)
    (offset : Int64) (size : UInt32) (start : Int64) : Prop where
  sized : machine.frame.function.slots[slot.index]? = some size
  placed : machine.frame.slots[slot.index]? = some start
  access : machine.access? = some (start + offset, 8)
  above : Memory.place start ≤ Memory.place (start + offset)
  below : Memory.place (start + offset) + 8 ≤ Memory.place start + size.toNat
  own : machine.frame.floor ≤ Memory.place start
  used : Memory.place start + size.toNat ≤ machine.memory.size
  keeps : ∀ later, machine.step environment = .next later →
    later.memory.size = machine.memory.size ∧
      Memory.Agree 0 (Memory.place start) machine.memory later.memory ∧
      Memory.Agree (Memory.place start + size.toNat) machine.memory.size machine.memory
        later.memory

theorem Stacked.storesInside
    (contained : ∀ id body, environment.module.body? id = some body → body.Contained)
    (stacked : machine.Stacked environment.module) {value : Value} {slot : Slot}
    {offset : Int64} (stores : machine.operation? = some (.slotStore value slot offset)) :
    ∃ size start, machine.StoresInside environment slot offset size start := by
  obtain ⟨instruction, behind, rest, operation⟩ := operation?_eq_some stores
  obtain ⟨seated, top, _⟩ := stacked
  obtain ⟨_, known⟩ := seated.known
  obtain ⟨size, found, typed, placed, nonnegative, inside, ends, lower⟩ :=
    seated.store_inside (contained _ _ known) rest operation
  have bounded := seated.bounded
  have bottom := machine.frame.function.slotStart_mono machine.frame.floor
    (Nat.zero_le slot.index)
  have floor : machine.frame.function.slotStart machine.frame.floor 0 = machine.frame.floor := by
    rw [Function.slotStart]
    simp
  have whole : machine.frame.function.slotStart machine.frame.floor slot.index + size.toNat ≤
      machine.memory.size := by
    rw [← ends, ← top]
    exact lower
  have small : machine.frame.function.slotStart machine.frame.floor slot.index ≤
      Memory.capacity := by omega
  have first := Memory.place_start small
  have next : Memory.place _ = _ := Memory.place_eq small nonnegative (by omega)
  refine ⟨size, _, found, placed, ?_, ?_, ?_, ?_, ?_, fun later stepped => ?_⟩
  · simp [Machine.access?, rest, operation, Frame.access?, placed, typed, MachineType.size]
  · rw [first, next]
    exact Nat.le_add_right _ _
  · rw [first, next]
    omega
  · rw [first, ← floor]
    exact bottom
  · rw [first]
    exact whole
  · rw [first]
    cases effect_of_step stepped with
    | write same updated =>
        obtain ⟨_, other, _, equal, _, keeps⟩ :=
          seated.update (contained _ _ known) same updated
        cases rest.symm.trans same
        rw [operation] at equal
        cases equal
        exact ⟨size_update updated, keeps _ _ (.inl (Nat.le_refl _)), keeps _ _ (.inr ends.le)⟩
    | compute same computed =>
        cases rest.symm.trans same
        rw [operation] at computed
        cases computed
    | host same other | enter same other | branch same other | jump same other | ret same other =>
        cases rest.symm.trans same
        rw [operation] at other
        cases other

end Ssa.Machine

/-- Take a compiler that has taken any checked definitions, and any run of a function of its
module. From the moment at which a function is called until it has returned or the run has ended,
and at both of these moments, every octet that was in use at the call is what it was. And every
store in a slot stays inside the slot. -/
theorem calls_keep_memory_in_use {σ : Type} {name entry : String} {registry : Registry}
    {definitions : List TypedDefinition} {first compiler : Compiler}
    (checked : ∀ definition ∈ definitions, ∃ (known : SignatureTable)
      (source : Definition Position), source.check known = .ok definition)
    (started : Compiler.start name registry entry = .ok first)
    (added : first.addAll definitions = .ok compiler)
    {environment : Environment σ} (same : environment.module = compiler.module)
    {function : String} {arguments : List Int64} {steps : Nat} {host : σ}
    {start machine : Machine σ}
    (begun : environment.start function arguments steps host = .next start)
    (reached : Machine.Reaches environment start machine) :
    (∀ reference arguments inner later,
      machine.operation? = some (.call reference arguments) →
        machine.step environment = .next inner →
          Machine.During environment (machine.callers.length + 1) inner later →
            Memory.Agree 0 machine.memory.size machine.memory later.memory) ∧
    ∀ value slot offset, machine.operation? = some (.slotStore value slot offset) →
      ∃ size start, machine.StoresInside environment slot offset size start := by
  have regular := Compiler.regular_of_addAll checked started added
  have contained : ∀ id body, environment.module.body? id = some body → body.Contained := by
    intro id body found
    rw [same] at found
    exact (regular.origin id body found).idiomatic.contained
  have stacked := (Machine.Stacked.start begun).run reached
  constructor
  · intro reference arguments inner later calls next during
    rcases stacked.call calls next with ⟨memory, callers⟩ | ⟨agree, holds⟩
    · rcases during.cases_head with rfl | ⟨_, ⟨_, alive⟩, _⟩
      · rw [memory]
        exact .refl _ _ _
      · rw [callers] at alive
        omega
    · exact agree.trans (during.agree contained (stacked.next next) holds).2.2
  · intro value slot offset stores
    exact stacked.storesInside contained stores

def probe : Definition Position :=
  let here := Position.unknown
  { name := "probe"
    parameters := [⟨"given", .int, here⟩]
    body := .sequence here (.bind here "copy" (.array here [.ident here "given"]))
      (.index here (.ident here "copy") (.integer here 0))
    position := here }

/-- A function that calls `probe` while it has an array itself. -/
def probing : Definition Position :=
  let here := Position.unknown
  { name := "main"
    parameters := []
    body := .sequence here (.bind here "own" (.array here [.integer here 7]))
      (.binary here (.arithmetic .add) (.call here "probe" [.integer here 3])
        (.index here (.ident here "own") (.integer here 0)))
    position := here }

def probingTable : SignatureTable :=
  SignatureTable.standard.push "probe" ⟨[.int], .int⟩

/-- The array of the caller is what it was when `probe` has returned, and `probe` stores its
argument inside its own slot. -/
theorem calls_keep_memory_in_use_probing : ∃ typed others first compiler start caller inner later
    storing, probe.check .standard = .ok typed ∧ probing.check probingTable = .ok others ∧
      Compiler.start "calls" Registry.standard "main" = .ok first ∧
      first.addAll [typed, others] = .ok compiler ∧
      compiler.module.alone.start "main" [] 0 () = .next start ∧
      Machine.Reaches compiler.module.alone start caller ∧
      Machine.Reaches compiler.module.alone start storing ∧
      caller.operation? = some (.call ⟨0⟩ [⟨3⟩]) ∧
      caller.step compiler.module.alone = .next inner ∧ caller.callers.length = 0 ∧
      Machine.During compiler.module.alone 1 inner later ∧ later.callers.length = 0 ∧
      Memory.Agree 0 caller.memory.size caller.memory later.memory ∧
      storing.operation? = some (.slotStore ⟨0⟩ ⟨0⟩ 8) ∧ storing.callers.length = 1 ∧
      ∃ size start, storing.StoresInside compiler.module.alone ⟨0⟩ 8 size start := by
  have computed : ((probe.check .standard).toOption.bind fun typed =>
      (probing.check probingTable).toOption.bind fun others =>
      (Compiler.start "calls" Registry.standard "main").toOption.bind fun first =>
      (first.addAll [typed, others]).toOption.bind fun compiler =>
      (compiler.module.alone.start "main" [] 0 ()).machine?.bind fun start =>
      (start.walk compiler.module.alone (fun _ _ => true) 6).bind fun caller =>
      (start.walk compiler.module.alone (fun _ _ => true) 9).bind fun storing =>
      (caller.step compiler.module.alone).machine?.bind fun inner =>
      (inner.walk compiler.module.alone
        (fun machine _ => decide (1 ≤ machine.callers.length)) 12).bind fun later =>
      if caller.operation? = some (.call ⟨0⟩ [⟨3⟩]) ∧ caller.callers.length = 0 ∧
        later.callers.length = 0 ∧ storing.operation? = some (.slotStore ⟨0⟩ ⟨0⟩ 8) ∧
        storing.callers.length = 1 then some () else none) = some () := by
    decide +kernel
  obtain ⟨typed, checked, computed⟩ := Option.bind_eq_some_iff.mp computed
  obtain ⟨others, checkedToo, computed⟩ := Option.bind_eq_some_iff.mp computed
  obtain ⟨first, started, computed⟩ := Option.bind_eq_some_iff.mp computed
  obtain ⟨compiler, added, computed⟩ := Option.bind_eq_some_iff.mp computed
  obtain ⟨start, begun, computed⟩ := Option.bind_eq_some_iff.mp computed
  obtain ⟨caller, reached, computed⟩ := Option.bind_eq_some_iff.mp computed
  obtain ⟨storing, reachedToo, computed⟩ := Option.bind_eq_some_iff.mp computed
  obtain ⟨inner, next, computed⟩ := Option.bind_eq_some_iff.mp computed
  obtain ⟨later, during, computed⟩ := Option.bind_eq_some_iff.mp computed
  obtain ⟨⟨calls, outermost, returned, stores, deeper⟩, _⟩ :=
    Option.ite_none_right_eq_some.mp computed
  have checked := eq_ok_of_toOption checked
  have checkedToo := eq_ok_of_toOption checkedToo
  have started := eq_ok_of_toOption started
  have added := eq_ok_of_toOption added
  have begun := Step.machine?_eq_some begun
  have next := Step.machine?_eq_some next
  have reached := Machine.reaches_of_plain_walk reached
  have reachedToo := Machine.reaches_of_plain_walk reachedToo
  have during : Machine.During compiler.module.alone 1 inner later :=
    Relation.ReflTransGen.mono (fun _ _ step => ⟨step.1, of_decide_eq_true step.2⟩) _ _
      (Machine.reaches_of_walk during)
  have each : ∀ definition ∈ [typed, others], ∃ (known : SignatureTable)
      (source : Definition Position), source.check known = .ok definition := by
    simp only [List.forall_mem_cons, List.not_mem_nil, false_imp_iff, implies_true, and_true]
    exact ⟨⟨_, _, checked⟩, _, _, checkedToo⟩
  refine ⟨typed, others, first, compiler, start, caller, inner, later, storing, checked,
    checkedToo, started, added, begun, reached, reachedToo, calls, next, outermost, during,
    returned, ?_, stores, deeper, ?_⟩
  · exact (calls_keep_memory_in_use each started added rfl begun reached).1 _ _ inner later calls
      next (outermost ▸ during)
  · exact (calls_keep_memory_in_use each started added rfl begun reachedToo).2 _ _ _ stores

end ExprLang
