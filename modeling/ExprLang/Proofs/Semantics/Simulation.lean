import ExprLang.Proofs.Lowering.Arrays
import ExprLang.Proofs.Semantics.Instructions

/-!
# Pieces of code that do what an evaluation says

While a piece of lowered code is executed the machine does what an evaluation says: it comes to
the end of the piece with the results in registers, or ends with the same fault, or goes on for
as many steps as there were rounds. Pieces are put behind each other as evaluations are.
-/

namespace ExprLang

open Ssa

theorem Ssa.Operation.Idiomatic.stored {function : Function} {value : Value} {slot : Slot}
    {offset : Int64} {types : List MachineType}
    (idiomatic : Operation.Idiomatic function (.slotStore value slot offset) types) :
    function.type? value = some .i64 := by
  generalize same : Operation.slotStore value slot offset = operation at idiomatic
  cases idiomatic <;> cases same
  assumption

namespace Lowering

structure Site (σ : Type) where
  environment : Environment σ
  final : Recording
  activation : Activation σ
  depth : Nat
  patient : Prop

/-- The finished function is one as lowering makes it, and its name is that of the activation. -/
structure Site.Proper (site : Site σ) : Prop where
  executed : Executed site.environment site.final
  idiomatic : site.final.builder.function.Idiomatic
  named : site.final.builder.function.name = site.activation.function
  seats : site.final.builder.function.slots.size ≤ site.activation.slots.length
  rounds : site.patient → 2 ^ 63 ≤ site.activation.rounds

/-- A machine executes the code of the activation. -/
structure Site.Serves (site : Site σ) (machine : Machine σ) : Prop where
  depth : machine.depth = site.depth
  slots : machine.frame.slots = site.activation.slots.toArray

/-- A machine has come from one stage to another, at which some values hold words. -/
structure Arrives (site : Site σ) (first last : Stage) (values : List Value) (words : List Int64)
    (machine : Machine σ) (store : Store σ) (later : Machine σ) : Prop where
  rests : Rests site.environment site.final last store later
  stays : Stays first.size machine later
  shows : Shows last later values words

/-- The code from one stage to another does what an evaluation says, if some values hold words
when it starts. -/
structure Simulates (site : Site σ) (first last : Stage) (known : List Value)
    (facts : List Int64) (values : List Value) (result : α → List Int64)
    (evaluation : Evaluation σ α) : Prop where
  fills : Fills first last
  runs : ∀ {source : Label} {store : Store σ} {machine : Machine σ}, Ends last site.final →
    Sound first.recording → first.shape.Active source →
    Rests site.environment site.final first store machine → site.Serves machine →
    Shows first machine known facts →
    Realizes site.environment site.activation.rounds site.patient machine
      (fun outcome after later => Arrives site first last values (result outcome) machine after
        later) (evaluation store)

section Pieces

variable {site : Site σ} {first middle last : Stage} {known values others : List Value}
  {facts more : List Int64} {evaluation : Evaluation σ α} {result : α → List Int64}
  {machine later : Machine σ} {count : Nat}

theorem Site.Serves.stays (serves : site.Serves machine) (stays : Stays count machine later) :
    site.Serves later :=
  ⟨stays.depth.trans serves.depth, stays.slots.trans serves.slots⟩

theorem Fills.refl (stage : Stage) : Fills stage stage :=
  ⟨⟨_, .nil⟩, fun _ active => ⟨_, .refl active⟩⟩

theorem Fills.trans (left : Fills first middle) (right : Fills middle last) :
    Fills first last where
  reaches := left.reaches.trans right.reaches
  flows sound active := by
    obtain ⟨between, toMiddle⟩ := left.flows sound active
    obtain ⟨target, toLast⟩ := right.flows (left.reaches.sound sound) toMiddle.active
    exact ⟨target, toMiddle.trans toLast⟩

theorem Stage.HasType.index_lt {value : Value} {type : MachineType}
    (typed : first.HasType value type) : value.index < first.size :=
  Function.index_lt_of_type? typed

namespace Simulates

protected theorem pure {outcome : α}
    (holds : ∀ machine : Machine σ, Shows first machine known facts →
      Shows first machine values (result outcome)) :
    Simulates site first first known facts values result (pure outcome) where
  fills := .refl first
  runs _ _ _ rests _ shows := .value ⟨rests, .refl _ _, holds _ shows⟩

theorem behind (reaches : Reaches first middle) (same : middle.shape = first.shape)
    (simulates : Simulates site middle last known facts values result evaluation) :
    Simulates site first last known facts values result evaluation where
  fills := by
    refine Fills.trans ⟨reaches, fun {source} _ active => ⟨source, ?_⟩⟩ simulates.fills
    rw [same]
    exact .refl active
  runs ends sound active rests serves shows := by
    rw [← same] at active
    refine (simulates.runs ends (reaches.sound sound) active (rests.same same) serves
      (shows.kept (.refl _ _) reaches.size_le)).mono ?_
    intro outcome after later arrives
    exact ⟨arrives.rests, arrives.stays.fewer reaches.size_le, arrives.shows⟩

theorem weaken (simulates : Simulates site first last [] [] values result evaluation) :
    Simulates site first last known facts values result evaluation where
  fills := simulates.fills
  runs ends sound active rests serves _ := simulates.runs ends sound active rests serves .nil

/-- One piece of code behind another, which may use what was known before and what came out. -/
theorem chain (left : Simulates site first middle known facts values result evaluation)
    {next : α → Evaluation σ β} {words : β → List Int64} (fills : Fills middle last)
    (right : ∀ outcome, (∃ store after, evaluation store = .value outcome after) →
      Simulates site middle last (known ++ values) (facts ++ result outcome) others words
        (next outcome)) :
    Simulates site first last known facts others words (evaluation >>= next) where
  fills := left.fills.trans fills
  runs ends sound active rests serves shows := by
    have soundThen := left.fills.reaches.sound sound
    obtain ⟨between, toMiddle⟩ := left.fills.flows sound active
    have larger := left.fills.reaches.size_le
    refine (left.runs (ends.earlier fills.reaches soundThen) sound active rests serves
      shows).bind ?_
    intro outcome after later came arrived
    refine ((right outcome ⟨_, _, came⟩).runs ends soundThen toMiddle.active arrived.rests
      (serves.stays arrived.stays) ((shows.kept arrived.stays larger).append arrived.shows)).mono ?_
    intro final store machine arrives
    exact ⟨arrives.rests, arrived.stays.trans arrives.stays larger, arrives.shows⟩

theorem bind [Nonempty α] (left : Simulates site first middle known facts values result evaluation)
    {next : α → Evaluation σ β} {words : β → List Int64}
    (right : ∀ outcome, Simulates site middle last (known ++ values) (facts ++ result outcome)
      others words (next outcome)) :
    Simulates site first last known facts others words (evaluation >>= next) :=
  left.chain (right (Classical.arbitrary α)).fills fun outcome _ => right outcome

/-- One piece of code behind another whose outcome is certain. -/
theorem followed {outcome : α}
    (left : Simulates site first middle known facts values result (Pure.pure outcome))
    {next : Evaluation σ β} {words : β → List Int64}
    (right : Simulates site middle last (known ++ values) (facts ++ result outcome) others words
      next) :
    Simulates site first last known facts others words next := by
  have whole : Simulates site first last known facts others words
      (Pure.pure outcome >>= fun _ => next) := by
    refine left.chain right.fills fun other came => ?_
    obtain ⟨store, after, came⟩ := came
    cases came
    exact right
  exact whole

end Simulates

/-! ## Single instructions -/

/-- Behind something that was put into the block that is filled, the machine rests again. -/
theorem Rests.behind {events : List Event} {store : Store σ}
    (passes : Passes site.environment site.final events count machine store later)
    (current : last.shape.current = some machine.frame.block)
    (split : site.final.script machine.frame.block =
      last.shape.script machine.frame.block ++ events) :
    Rests site.environment site.final last store later := by
  rw [← passes.block] at current split
  exact ⟨current, events, split, passes.stands⟩

/-- An instruction computes what an evaluation says. -/
theorem Does.computes (proper : site.Proper) {operation : Operation} {type : MachineType}
    (does : Does [.emit operation [type]] first last) (computes : operation.computes = true)
    (outcome : Memory → Option (Except Trap Int64))
    (same : ∀ machine : Machine σ, Shows first machine known facts →
      machine.frame.slots = site.activation.slots.toArray →
      Instruction.Idiomatic machine.frame.function ⟨[first.next], operation, []⟩ →
      Machine.compute machine.frame.function machine.frame.slots machine.frame.registers
        machine.memory operation = outcome machine.memory) :
    Simulates site first last known facts [first.next] (fun word => [word])
      (fun store => site.activation.attempt (outcome store.memory) store) where
  fills := by
    have plain : operation.isTerminator = false := by
      cases operation <;> first | rfl | cases computes
    exact ⟨does.reaches, fun _ active => ⟨_, does.emit_flows plain active⟩⟩
  runs {source store machine} ends sound active rests serves shows := by
    have plain : Instruction.isTerminator ⟨[first.next], operation, []⟩ = false := by
      cases operation <;> first | rfl | cases computes
    have shape : last.shape = first.shape.emit machine.frame.block
        ⟨[first.next], operation, []⟩ := does.emit_shape rests.current
    rw [Shape.emit_of_plain _ _ plain] at shape
    obtain ⟨events, split, stands⟩ := rests.next
      (by rw [shape]; exact Function.update_self _ _ _) (ends.script _)
    have idiomatic := stands.idiomatic proper.idiomatic plain
    rw [← stands.faithful.function] at idiomatic
    have agrees := same machine shows serves.slots idiomatic
    rw [stands.memory] at agrees
    refine (stands.compute proper.executed proper.named computes (Nat.le_refl first.size)
      (stands.memory ▸ agrees)).mono ?_
    rintro word after later ⟨passes, holds⟩
    refine ⟨.behind passes ?_ split, passes.stays, .single does.emit_hasType.index_lt holds⟩
    rw [shape]
    exact rests.current

/-- An instruction computes what does not depend on the memory. -/
theorem Does.attempts (proper : site.Proper) {operation : Operation} {type : MachineType}
    (does : Does [.emit operation [type]] first last) (computes : operation.computes = true)
    {outcome : Option (Except Trap Int64)}
    (same : ∀ machine : Machine σ, Shows first machine known facts →
      machine.frame.slots = site.activation.slots.toArray →
      Instruction.Idiomatic machine.frame.function ⟨[first.next], operation, []⟩ →
      Machine.compute machine.frame.function machine.frame.slots machine.frame.registers
        machine.memory operation = outcome) :
    Simulates site first last known facts [first.next] (fun word => [word])
      (site.activation.attempt outcome) :=
  does.computes proper computes (fun _ => outcome) same

/-- An instruction computes a word. -/
theorem Does.gives (proper : site.Proper) {operation : Operation} {type : MachineType}
    (does : Does [.emit operation [type]] first last) (computes : operation.computes = true)
    {word : Int64}
    (same : ∀ machine : Machine σ, Shows first machine known facts →
      machine.frame.slots = site.activation.slots.toArray →
      Instruction.Idiomatic machine.frame.function ⟨[first.next], operation, []⟩ →
      Machine.compute machine.frame.function machine.frame.slots machine.frame.registers
        machine.memory operation = some (.ok word)) :
    Simulates site first last known facts [first.next] (fun word => [word]) (pure word) :=
  does.attempts proper computes same

theorem Does.loadsWord (proper : site.Proper) {base : Value} {address : Int64}
    (does : Does [.emit (.load .i64 base (wordOffset 0)) [.i64]] first last) (place : Nat)
    (chosen : known[place]? = some base) (given : facts[place]? = some address) :
    Simulates site first last known facts [first.next] (fun word => [word])
      (site.activation.load address) := by
  have none : address + wordOffset 0 = address := Int64.add_zero address
  refine does.computes proper rfl (fun memory => memory.fetch address) ?_
  intro machine shows _ _
  simp only [Machine.compute, shows.holds place chosen given, Option.bind_eq_bind,
    Option.bind_some, none]
  rfl

/-- An instruction puts a word into a slot as an evaluation says. -/
theorem Does.puts (proper : site.Proper) {value : Value} {slot : Slot} {index : Nat}
    (does : Does [.emit (.slotStore value slot (wordOffset index)) []] first last)
    {address word : Int64} (seat : site.activation.slots[slot.index]? = some address)
    (place : Nat) (chosen : known[place]? = some value) (given : facts[place]? = some word) :
    Simulates site first last known facts [] (fun _ => [])
      (site.activation.put (address + wordOffset index) word) where
  fills := ⟨does.reaches, fun _ active => ⟨_, does.emit_flows rfl active⟩⟩
  runs {source store machine} ends sound active rests serves shows := by
    have shape : last.shape = first.shape.emit machine.frame.block
        ⟨[], .slotStore value slot (wordOffset index), []⟩ := does.emit_shape rests.current
    rw [Shape.emit_of_plain _ _ rfl] at shape
    obtain ⟨events, split, stands⟩ := rests.next
      (by rw [shape]; exact Function.update_self _ _ _) (ends.script _)
    refine (stands.put proper.executed proper.named first.size ?_).mono ?_
    · obtain ⟨types, idiomatic, _⟩ := stands.idiomatic proper.idiomatic rfl
      have typed := idiomatic.stored
      rw [← stands.faithful.function] at typed
      have seat : machine.frame.slots[slot.index]? = some address := by
        rw [serves.slots]
        simpa using seat
      simp only [Machine.update, Machine.write, seat, shows.holds place chosen given, typed,
        Option.bind_eq_bind, Option.bind_some, stands.memory]
      rfl
    · intro _ after later passes
      refine ⟨.behind passes ?_ split, passes.stays, .nil⟩
      rw [shape]
      exact rests.current

/-- The slot of an array literal has an address. -/
theorem Does.seats (proper : site.Proper) {reserved : Stage} {size : UInt32}
    (does : Does [.reserve size] first reserved) (behind : Reaches reserved last)
    (fills : Fills first last) {next : Int64 → Evaluation σ α}
    (rest : ∀ address, site.activation.slots[first.slots.length]? = some address →
      Simulates site first last known facts values result (next address)) :
    Simulates site first last known facts values result
      (site.activation.slot first.slots.length >>= next) where
  fills := fills
  runs {source store machine} ends sound active rests serves shows := by
    have made : reserved.recording.builder.function.slots[first.slots.length]? = some size := by
      have slots : reserved.slots = first.slots ++ [size] := does.performs.slots
      rw [← Array.getElem?_toList]
      change reserved.slots[first.slots.length]? = some size
      rw [slots, List.getElem?_concat_length]
    have final := (Moves.grows ends.moves).slot _ _ ((Moves.grows behind.moves).slot _ _ made)
    have inside := (Array.getElem?_eq_some_iff.mp final).1.trans_le proper.seats
    obtain ⟨address, seat⟩ : ∃ address, site.activation.slots[first.slots.length]? =
        some address := ⟨_, List.getElem?_eq_getElem inside⟩
    have same : (site.activation.slot first.slots.length >>= next) store =
        next address store := by
      change (site.activation.slot first.slots.length store).bind next = _
      rw [Activation.slot, seat]
      rfl
    rw [same]
    exact (rest address seat).runs ends sound active rests serves shows

/-! ## Calls -/

/-- At some depth, calls of a function do what an evaluation says, and the activation that calls
has the result afterwards. -/
def CallsAs (environment : Environment σ) (budget : Nat) (patient : Prop) (depth : Nat)
    (id : FunctionId) (evaluation : List Int64 → Evaluation σ Int64) : Prop :=
  ∀ (machine : Machine σ) (store : Store σ) (reference : Reference) (arguments : List Value)
    (result : Value) (behind : List Instruction) (external : External) (words : List Int64),
    machine.depth = depth → machine.memory = store.memory → machine.host = store.host →
    machine.frame.Sane environment.module →
    machine.frame.rest = ⟨[result], .call reference arguments, []⟩ :: behind →
    machine.frame.function.references[reference.index]? = some external → external.id = id →
    readAll machine.frame.registers arguments = some words →
    Realizes environment budget patient machine (fun word after later => after.cells = store.cells ∧
      later = ⟨{ machine.frame with
          rest := behind
          registers := machine.frame.registers.setIfInBounds result.index word },
        machine.callers, machine.depth, after.memory, later.steps, after.host⟩)
      (evaluation words store)

theorem CallsAs.hasten {environment : Environment σ} {budget depth : Nat} {patient hasty : Prop}
    {id : FunctionId} {evaluation : List Int64 → Evaluation σ Int64}
    (calls : CallsAs environment budget patient depth id evaluation) (implies : hasty → patient) :
    CallsAs environment budget hasty depth id evaluation :=
  fun machine store reference arguments result behind external words sameDepth sameMemory sameHost
      sane rest placed same read =>
    (calls machine store reference arguments result behind external words sameDepth sameMemory
      sameHost sane rest placed same read).hasten implies

/-- A function is called. -/
theorem Does.calls (proper : site.Proper) {reference : Reference} {arguments : List Value}
    {external : External} {words : List Int64} {evaluation : List Int64 → Evaluation σ Int64}
    (does : Does [.emit (.call reference arguments) [.i64]] first last)
    (found : first.recording.builder.function.references[reference.index]? = some external)
    (calls : CallsAs site.environment site.activation.rounds site.patient site.depth external.id
      evaluation)
    (shown : ∀ machine : Machine σ, Shows first machine known facts →
      Shows first machine arguments words) :
    Simulates site first last known facts [first.next] (fun word => [word])
      (evaluation words) where
  fills := ⟨does.reaches, fun _ active => ⟨_, does.emit_flows rfl active⟩⟩
  runs {source store machine} ends sound active rests serves shows := by
    have plain : Instruction.isTerminator ⟨[first.next], .call reference arguments, []⟩ = false :=
      rfl
    have shape : last.shape = first.shape.emit machine.frame.block
        ⟨[first.next], .call reference arguments, []⟩ := does.emit_shape rests.current
    rw [Shape.emit_of_plain _ _ plain] at shape
    obtain ⟨events, split, stands⟩ := rests.next
      (by rw [shape]; exact Function.update_self _ _ _) (ends.script _)
    have rest := stands.rest
    rw [Instruction.extend_of_plain plain] at rest
    have inside : first.next.index < machine.frame.registers.size := by
      rw [stands.sane.registers]
      exact (stands.sane.equipped rest).results _ List.mem_cons_self
    have placed : machine.frame.function.references[reference.index]? = some external := by
      rw [stands.faithful.function]
      exact (Moves.grows ends.moves).reference _ _
        ((Moves.grows does.reaches.moves).reference _ _ found)
    refine (calls machine store reference arguments first.next _ external words serves.depth
      stands.memory stands.host stands.sane rest placed rfl (shown machine shows).read).mono ?_
    rintro word after later ⟨cells, same⟩
    rw [same]
    have continues := Machine.continues_single rest plain rfl word
    have passes : Passes site.environment site.final events first.size machine after
        ⟨_, machine.callers, machine.depth, after.memory, later.steps, after.host⟩ :=
      ⟨stands.proceed proper.executed plain continues cells rfl rfl, rfl, rfl, rfl, rfl, rfl,
        fun value below => Array.getElem?_setIfInBounds_ne
          (show first.size ≠ value.index by omega)⟩
    refine ⟨.behind passes ?_ split, passes.stays,
      .single does.emit_hasType.index_lt (Array.getElem?_setIfInBounds_self_of_lt inside)⟩
    rw [shape]
    exact rests.current

/-! ## Variables -/

theorem Does.reads (proper : site.Proper) {setting : Setting} {names : List String} {cell : Nat}
    {value : Value} (tabled : Tabled setting names first)
    (does : Does [.use ⟨cell⟩ value] first last) :
    Simulates site first last known facts [value] (fun word => [word])
      (Evaluation.read cell) where
  fills := ⟨does.reaches, fun _ active => ⟨_, does.use_flows active⟩⟩
  runs {source store machine} ends sound active rests serves shows := by
    have shape := does.use_shape rests.current
    obtain ⟨events, split, stands⟩ := rests.next
      (by rw [shape]; exact Function.update_self _ _ _) (ends.script _)
    have passes : Passes site.environment site.final events first.size machine store machine :=
      ⟨⟨stands.faithful.use, stands.sane, stands.memory, stands.host⟩, rfl, .refl _ _⟩
    refine .value ⟨.behind passes ?_ split, passes.stays,
      .single (does.use_hasType sound tabled).index_lt
        (stands.faithful.holds_use proper.executed.finished)⟩
    rw [shape]
    exact rests.current

theorem Binds.writes {name : String} {value : Value} {word : Int64}
    (binds : Binds name value first last) (place : Nat) (chosen : known[place]? = some value)
    (given : facts[place]? = some word) :
    Simulates site first last known facts [] (fun _ => [])
      (Evaluation.write first.variableCount word) where
  fills := ⟨binds.reaches, fun _ active => ⟨_, binds.flows active⟩⟩
  runs {source store machine} ends sound active rests serves shows := by
    have shape := binds.shape rests.current
    obtain ⟨events, split, stands⟩ := rests.next
      (by rw [shape]; exact Function.update_self _ _ _) (ends.script _)
    have passes : Passes site.environment site.final events first.size machine
        { store with cells := Function.update store.cells first.variableCount word } machine := by
      refine ⟨⟨?_, stands.sane, stands.memory, stands.host⟩, rfl, .refl _ _⟩
      have defined := stands.faithful.define (shows.holds place chosen given)
      refine Eq.mp (congrArg (fun contents => Faithful _ _ _ _ contents _) ?_) defined
      funext var
      obtain ⟨index⟩ := var
      simp [Function.update_apply]
    refine .value ⟨.behind passes ?_ split, passes.stays, .nil⟩
    rw [shape]
    exact rests.current

end Pieces

end Lowering

end ExprLang
