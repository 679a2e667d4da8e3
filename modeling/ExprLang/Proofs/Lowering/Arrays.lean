import ExprLang.Proofs.Lowering.Origin
import ExprLang.Proofs.Ssa.Slots
import ExprLang.Proofs.Ssa.Stack

/-!
# Arrays stay as they are

Every array literal has a slot of its own in each activation, which only the code of the literal
writes. Main statement: the length and the elements of an array stay what they are until the
activation ends or evaluates the same literal once more.
-/

namespace ExprLang

open Ssa

/-! ## Array literals -/

namespace Expr

mutual

/-- The numbers of elements of the array literals in an expression, from left to right. A literal
comes before those among its elements. -/
def literals : Expr α → List Nat
  | integer _ _ | boolean _ _ | ident _ _ | unknown _ _ _ => []
  | array _ elements => elements.length :: literalsAll elements
  | binary _ _ left right => left.literals ++ right.literals
  | bind _ _ value => value.literals
  | sequence _ first second => first.literals ++ second.literals
  | call _ _ arguments => literalsAll arguments
  | conditional _ condition onTrue onFalse =>
    condition.literals ++ (onTrue.literals ++ onFalse.literals)
  | index _ target position => target.literals ++ position.literals
  | length _ target => target.literals
  | each _ _ bound body => bound.literals ++ body.literals

def literalsAll : List (Expr α) → List Nat
  | [] => []
  | tree :: trees => tree.literals ++ literalsAll trees

end

end Expr

namespace Lowering

/-! ## Code of array literals -/

def literalSize (count : Nat) : UInt32 :=
  UInt32.ofNat (wordSize * (count + 1))

def wordStores (slot : Slot) (index count : Nat) : List SlotUse :=
  (List.range' index count).map fun index => .store slot (wordOffset index)

/-- What the code of an array literal does with its slot: it stores the length and the elements
and gives the address. -/
def literalUses (slot : Slot) (count : Nat) : List SlotUse :=
  .store slot (wordOffset 0) :: wordStores slot 1 count ++ [.address slot]

def literalsUses : (next : Nat) → List Nat → List SlotUse
  | _, [] => []
  | next, count :: counts => literalUses ⟨next⟩ count ++ literalsUses (next + 1) counts

theorem literalsUses_append (next : Nat) (first second : List Nat) :
    literalsUses next (first ++ second) =
      literalsUses next first ++ literalsUses (next + first.length) second := by
  induction first generalizing next with
  | nil => rfl
  | cons count first induction =>
      rw [List.cons_append, literalsUses, induction, literalsUses, List.append_assoc,
        List.length_cons, Nat.add_right_comm, Nat.add_assoc next]

def Work.literals : Work → List Nat
  | .expression tree => tree.literals
  | .expressions trees | .elements _ _ trees => Expr.literalsAll trees

def Work.slotUses (next : Nat) : Work → List SlotUse
  | .elements slot index trees =>
    wordStores slot index trees.length ++ literalsUses next (Expr.literalsAll trees)
  | work => literalsUses next work.literals

namespace Stage

def slots (stage : Stage) : List UInt32 :=
  stage.recording.builder.function.slots.toList

def slotUses (stage : Stage) : List SlotUse :=
  stage.recording.builder.function.slotUses

end Stage

structure Plots (counts : List Nat) (uses : List SlotUse) (first last : Stage) : Prop where
  slots : last.slots = first.slots ++ counts.map literalSize
  uses : Sound first.recording → last.slotUses.Perm (first.slotUses ++ uses)
  reaches : Reaches first last

namespace Plots

variable {counts others : List Nat} {uses more : List SlotUse} {first middle last : Stage}

theorem refl (stage : Stage) : Plots [] [] stage stage :=
  ⟨(List.append_nil _).symm, fun _ => by rw [List.append_nil], _, .nil⟩

theorem trans (left : Plots counts uses first middle) (right : Plots others more middle last) :
    Plots (counts ++ others) (uses ++ more) first last where
  slots := by rw [right.slots, left.slots, List.map_append, List.append_assoc]
  uses sound := by
    rw [← List.append_assoc]
    exact (right.uses (left.reaches.sound sound)).trans ((left.uses sound).append_right _)
  reaches := left.reaches.trans right.reaches

theorem before (left : Plots counts uses first middle) (right : Plots [] [] middle last) :
    Plots counts uses first last := by
  simpa using left.trans right

theorem perm (plots : Plots counts uses first last) (same : counts = others)
    (order : uses.Perm more) : Plots others more first last :=
  ⟨same ▸ plots.slots, fun sound => (plots.uses sound).trans (order.append_left _), plots.reaches⟩

theorem length (plots : Plots counts uses first last) :
    last.slots.length = first.slots.length + counts.length := by
  rw [plots.slots, List.length_append, List.length_map]

theorem append (left : Plots counts (literalsUses first.slots.length counts) first middle)
    (right : Plots others (literalsUses middle.slots.length others) middle last) :
    Plots (counts ++ others) (literalsUses first.slots.length (counts ++ others)) first last := by
  rw [left.length] at right
  rw [literalsUses_append]
  exact left.trans right

end Plots

section Literals

variable {setting : Setting} {first middle last : Stage}

theorem Does.plots {deeds : List Deed} (does : Does deeds first last)
    (unreserved : deeds.flatMap Deed.reserved = []) (unused : deeds.flatMap Deed.slotUses = []) :
    Plots [] [] first last where
  slots := by
    rw [Stage.slots, does.performs.slots, unreserved]
    rfl
  uses sound := by
    have uses := does.performs.slotUses sound
    rwa [unused] at uses
  reaches := does.reaches

theorem Does.plots_store {value : Value} {slot : Slot} {index : Nat}
    (does : Does [.emit (.slotStore value slot (wordOffset index)) []] first last) :
    Plots [] [.store slot (wordOffset index)] first last where
  slots := does.performs.slots
  uses sound := does.performs.slotUses sound
  reaches := does.reaches

theorem Does.plots_address {slot : Slot}
    (does : Does [.emit (.slotAddress .i64 slot (wordOffset 0)) [.i64]] first last) :
    Plots [] [.address slot] first last where
  slots := does.performs.slots
  uses sound := does.performs.slotUses sound
  reaches := does.reaches

theorem Does.plots_reserve {count : Nat} (does : Does [.reserve (literalSize count)] first last) :
    Plots [count] [] first last where
  slots := does.performs.slots
  uses sound := does.performs.slotUses sound
  reaches := does.reaches

theorem Binds.plots {name : String} {value : Value} (binds : Binds name value first last) :
    Plots [] [] first last where
  slots := binds.performs.slots
  uses sound := binds.performs.slotUses sound
  reaches := binds.reaches

theorem Refers.plots {name : String} {reference : Reference}
    (refers : Refers setting name first reference last) : Plots [] [] first last := by
  cases refers with
  | known => exact .refl _
  | again => exact ⟨(List.append_nil _).symm, fun _ => .of_eq (List.append_nil _).symm, _, .nil⟩
  | @new id declaration fresh callable unknown declared =>
      have performs : PerformsAll (some firstBlock) _ _ _ := .single
        (.refer ⟨id, declaration.name, declaration.prototype⟩ unknown)
      exact ⟨performs.slots, performs.slotUses, _, performs⟩

theorem Forks.plots {test result : Value} (forks : Forks test first result last) :
    Plots [] [] first last := by
  obtain ⟨creates, merges, branches⟩ := forks
  exact ((creates.plots rfl rfl).before (merges.plots rfl rfl)).before (branches.plots rfl rfl)

theorem Enters.plots {limit round one : Value} (enters : Enters limit first round one last) :
    Plots [] [] first last := by
  obtain ⟨creates, counts, rounds, starts, jumps, compares, branches⟩ := enters
  exact (creates.plots rfl rfl).before ((counts.plots rfl rfl).before ((rounds.plots rfl rfl).before
    ((starts.plots rfl rfl).before ((jumps.plots rfl rfl).before ((compares.plots rfl rfl).before
      (branches.plots rfl rfl))))))

/-- Whatever is lowered gets a slot for each of its array literals, which is used as it should
be. -/
theorem Lowers.plots {work : Work} {values : List Value}
    (lowers : Lowers setting work first values last) :
    Plots work.literals (work.slotUses first.slots.length) first last := by
  induction lowers with
  | integer emits | boolean emits => exact emits.plots rfl rfl
  | ident _ uses => exact uses.plots rfl rfl
  | comparison _ _ compares widens left right =>
      exact ((left.append right).before (compares.plots rfl rfl)).before (widens.plots rfl rfl)
  | arithmetic _ _ emits left right => exact (left.append right).before (emits.plots rfl rfl)
  | bind _ binds inner => exact inner.before binds.plots
  | sequence _ _ left right => exact left.append right
  | call refers _ emits arguments =>
      exact (refers.plots.append arguments).before (emits.plots rfl rfl)
  | conditional _ forks _ turns _ joins test left right =>
      have turned := (forks.plots.append left).before (turns.plots rfl rfl)
      exact (test.append (turned.append right)).before (joins.plots rfl rfl)
  | each _ enters binds _ advances leaves emits bound body =>
      have filled := (enters.plots.before binds.plots).append body
      exact (((bound.append filled).before (advances.plots rfl rfl)).before
        (leaves.plots rfl rfl)).before (emits.plots rfl rfl)
  | @array _ trees first reserved counted started filled last reserves counts starts _ locates
      elements =>
      have place : first.nextSlot = ⟨first.slots.length⟩ := rfl
      have begun : Plots [trees.length] [.store first.nextSlot (wordOffset 0)] first started :=
        (reserves.plots_reserve.before (counts.plots rfl rfl)).trans starts.plots_store
      rw [begun.length] at elements
      refine ((begun.trans elements).trans locates.plots_address).perm (List.append_nil _) ?_
      simp only [Work.slotUses, Work.literals, Expr.literals, literalsUses, literalUses, place]
      refine List.perm_iff_count.mpr fun use => ?_
      simp only [List.count_append, List.count_cons, List.count_nil, List.length_singleton]
      omega
  | index _ _ ones words places scales locates loads target position =>
      exact ((((((target.append position).before (ones.plots rfl rfl)).before
        (words.plots rfl rfl)).before (places.plots rfl rfl)).before (scales.plots rfl rfl)).before
          (locates.plots rfl rfl)).before (loads.plots rfl rfl)
  | length _ loads target => exact target.before (loads.plots rfl rfl)
  | nil | stop => exact .refl _
  | cons _ _ head tail => exact head.append tail
  | store _ stores _ head tail =>
      have stored := (head.trans stores.plots_store).perm (List.append_nil _) (.refl _)
      rw [stored.length] at tail
      refine (stored.trans tail).perm rfl ?_
      simp only [Work.slotUses, Work.literals, Expr.literalsAll, literalsUses_append, wordStores,
        List.length_cons, List.range'_succ, List.map_cons]
      refine List.perm_iff_count.mpr fun use => ?_
      simp only [List.count_append, List.count_cons, List.count_nil]
      omega

theorem BindsAll.plots {names : List String} {values : List Value}
    (binds : BindsAll names values first last) : Plots [] [] first last := by
  induction binds with
  | nil => exact .refl _
  | cons binds _ induction => exact binds.plots.before induction

/-- A definition gets a slot for each of its array literals, which is used as it should be. -/
theorem Compiles.slots {definition : TypedDefinition} {id : FunctionId}
    {declaration : Declaration} {bound lowered : Stage} {result : Value}
    (compiles : Compiles setting definition id declaration bound lowered result last) :
    last.recording.builder.function.slots.toList = definition.body.literals.map literalSize ∧
      last.recording.builder.function.slotUses.Perm
        (literalsUses 0 definition.body.literals) := by
  obtain ⟨binds, lowers, returns⟩ := compiles
  have performs := Stage.performs_opened id declaration
  have reserved : (Stage.opening declaration).flatMap Deed.reserved = [] := by
    simp [Stage.opening, Deed.reserved]
  have used : (Stage.opening declaration).flatMap Deed.slotUses = [] := by
    simp [Stage.opening, Deed.slotUses]
  have slots := performs.slots
  have uses := performs.slotUses (Sound.start id declaration)
  rw [reserved] at slots
  rw [used] at uses
  have plots := binds.plots.append (lowers.plots.before (returns.plots rfl rfl))
  have none : (Stage.opened id declaration).slots = [] := slots
  refine ⟨?_, ?_⟩
  · have whole := plots.slots
    rw [none] at whole
    exact whole
  · have whole := plots.uses ((Sound.start id declaration).moves performs.moves)
    rw [none] at whole
    exact whole.trans (uses.append_right _)

end Literals

/-! ## Room for the words of an array -/

theorem mem_literalsUses {next : Nat} {counts : List Nat} {use : SlotUse} :
    use ∈ literalsUses next counts ↔
      ∃ index count, counts[index]? = some count ∧ use ∈ literalUses ⟨next + index⟩ count := by
  induction counts generalizing next with
  | nil => simp [literalsUses]
  | cons count counts induction =>
      rw [literalsUses, List.mem_append, induction]
      constructor
      · rintro (here | ⟨index, other, found, used⟩)
        · exact ⟨0, count, rfl, here⟩
        · exact ⟨index + 1, other, found, by rwa [Nat.add_right_comm] at used⟩
      · rintro ⟨_ | index, other, found, used⟩
        · cases found
          exact .inl used
        · exact .inr ⟨index, other, found, by rwa [Nat.add_right_comm]⟩

theorem mem_literalUses_address {slot other : Slot} {count : Nat} :
    .address slot ∈ literalUses other count ↔ slot = other := by
  simp [literalUses, wordStores]

theorem store_mem_literalUses {slot : Slot} {index count : Nat} (inside : index ≤ count) :
    .store slot (wordOffset index) ∈ literalUses slot count := by
  rw [literalUses, wordStores]
  rcases Nat.eq_zero_or_pos index with rfl | positive
  · exact List.mem_cons_self
  · refine List.mem_append_left _ (List.mem_cons_of_mem _ (List.mem_map.mpr ⟨index, ?_, rfl⟩))
    rw [List.mem_range'_1]
    omega

theorem toInt_wordOffset {index : Nat} (small : index < 2 ^ 28) :
    (wordOffset index).toInt = wordSize * index := by
  rw [wordOffset, Int32.toInt_toInt64, Int32.toInt_ofNat_of_lt (by rw [wordSize]; omega)]
  rfl

/-- If a slot that can be allocated has room for a word and all words in front of it, then these
lie behind each other in the slot. -/
theorem wordOffset_inside {function : Function} {slot : Slot} {size : UInt32} {index : Nat}
    (found : function.slots[slot.index]? = some size) (small : size.toNat ≤ Memory.capacity)
    (rooms : ∀ earlier ≤ index, function.HasRoom slot earlier) :
    (wordOffset index).toInt = wordSize * index ∧ wordSize * (index + 1) ≤ size.toNat := by
  rw [Memory.capacity] at small
  rw [wordSize]
  have fits : ∀ earlier ≤ index, earlier < 2 ^ 28 → 8 * earlier + 8 ≤ size.toNat := by
    intro earlier below bounded
    obtain ⟨known, again, room⟩ := rooms earlier below
    rw [found] at again
    cases again
    rw [toInt_wordOffset bounded, wordSize] at room
    omega
  -- A word far behind the capacity would be among those in front.
  have bounded : index < 2 ^ 28 := by
    by_contra beyond
    have far := fits (2 ^ 20) (by omega) (by decide)
    omega
  have room := fits index (Nat.le_refl _) bounded
  exact ⟨toInt_wordOffset bounded, by omega⟩

end Lowering

theorem Ssa.Function.Idiomatic.contained {function : Function} (idiomatic : function.Idiomatic) :
    function.Contained where
  whole size member := by
    obtain ⟨count, rfl⟩ := idiomatic.slots size member
    rw [UInt32.toNat_ofNat', Lowering.wordSize]
    omega
  direct label instruction member value address offset same := by
    obtain ⟨types, proper, _⟩ := idiomatic.instructions label instruction member
    rw [same] at proper
    cases proper
  inside label instruction member value slot offset same := by
    obtain ⟨types, proper, _⟩ := idiomatic.instructions label instruction member
    rw [same] at proper
    cases proper with
    | @slotStore _ _ index word inside =>
        obtain ⟨size, found, _⟩ := inside 0 (Nat.zero_le _)
        refine ⟨word, size, found, fun small => ?_⟩
        obtain ⟨place, room⟩ := Lowering.wordOffset_inside found small inside
        rw [Lowering.wordSize] at place room
        omega

namespace Origin

variable {definitions : List TypedDefinition} {module : Module} {id : FunctionId}
  {body : Function}

/-- The slots of a function are those of the array literals in the definition that it comes
from. -/
theorem slots (origin : Origin definitions module id body) :
    ∃ definition ∈ definitions, definition.name = body.name ∧
      body.slots.toList = definition.body.literals.map Lowering.literalSize ∧
      body.slotUses.Perm (Lowering.literalsUses 0 definition.body.literals) := by
  obtain ⟨member, _, compiles, _, rfl, _, named, _⟩ := origin
  obtain ⟨slots, uses⟩ := compiles.slots
  have grows := Moves.grows compiles.moves
  exact ⟨_, member, named.symm.trans grows.name.symm, slots, uses⟩

end Origin

namespace Ssa

def Operation.located? : Operation → Option Slot
  | slotAddress _ slot _ => some slot
  | _ => none

theorem Operation.located?_eq_some {operation : Operation} {slot : Slot}
    (located : operation.located? = some slot) :
    ∃ type offset, operation = .slotAddress type slot offset := by
  cases operation with
  | slotAddress type other offset =>
      cases located
      exact ⟨type, offset, rfl⟩
  | _ => cases located

/-- The next instruction puts the address of a slot of the innermost activation into a
register. -/
def Machine.Locates (machine : Machine σ) (slot : Slot) (result : Value) : Prop :=
  ∃ instruction ∈ machine.frame.rest.head?,
    instruction.operation.located? = some slot ∧ instruction.results.head? = some result

instance (machine : Machine σ) (slot : Slot) (result : Value) :
    Decidable (machine.Locates slot result) :=
  inferInstanceAs (Decidable (∃ instruction ∈ machine.frame.rest.head?,
    instruction.operation.located? = some slot ∧ instruction.results.head? = some result))

/-- Each word of the slot of an array literal is stored by some instruction, so there is room for
all of them. -/
theorem Function.Idiomatic.hasRoom {function : Function} (idiomatic : function.Idiomatic)
    {counts : List Nat} (uses : function.slotUses.Perm (Lowering.literalsUses 0 counts))
    {slot : Slot} {count index : Nat} (found : counts[slot.index]? = some count)
    (inside : index ≤ count) : function.HasRoom slot index := by
  have used : .store slot (Lowering.wordOffset index) ∈ function.slotUses := by
    refine uses.mem_iff.mpr (Lowering.mem_literalsUses.mpr ⟨slot.index, count, found, ?_⟩)
    rw [Nat.zero_add]
    exact Lowering.store_mem_literalUses inside
  obtain ⟨label, instruction, member, used⟩ := Function.mem_slotUses.mp used
  obtain ⟨types, proper, _⟩ := idiomatic.instructions label instruction member
  generalize instruction.operation = operation at proper used
  cases proper with
  | @slotStore value other earlier word inside =>
      simp only [Operation.slotUses, List.mem_singleton, SlotUse.store.injEq] at used
      obtain ⟨rfl, same⟩ := used
      have room := inside earlier (Nat.le_refl _)
      rwa [HasRoom, ← same] at room
  | slotAddress => simp [Operation.slotUses] at used
  | _ => cases used

/-- The words of an array literal lie in its slot. -/
theorem Frame.Seated.word_inside {module : Module} {frame : Frame} (seated : frame.Seated module)
    (idiomatic : frame.function.Idiomatic) {counts : List Nat}
    (uses : frame.function.slotUses.Perm (Lowering.literalsUses 0 counts)) {slot : Slot}
    {count index : Nat} {size : UInt32} (counted : counts[slot.index]? = some count)
    (found : frame.function.slots[slot.index]? = some size) (inside : index ≤ count) :
    ∃ place, (Memory.base + Int64.ofNat (frame.function.slotStart frame.floor slot.index) +
        Lowering.wordOffset index - Memory.base).toNatClampNeg = place ∧
      frame.function.slotStart frame.floor slot.index ≤ place ∧
      place + 8 ≤ frame.function.slotStart frame.floor (slot.index + 1) ∧
      frame.function.slotStart frame.floor (slot.index + 1) ≤ frame.ceiling := by
  have room := Memory.slotRoom_eq (idiomatic.contained.whole _ (Array.mem_of_getElem? found))
  have ends := frame.function.slotStart_succ found frame.floor
  have below : slot.index + 1 ≤ frame.function.slots.size :=
    (Array.getElem?_eq_some_iff.mp found).1
  have top : _ ≤ frame.ceiling := frame.function.slotStart_mono frame.floor below
  have bounded := seated.bounded
  obtain ⟨offset, words⟩ := Lowering.wordOffset_inside found (by omega) fun earlier before =>
    idiomatic.hasRoom uses counted (before.trans inside)
  rw [Lowering.wordSize] at offset words
  refine ⟨_, Memory.place_eq (by omega) (by omega) (by omega), Nat.le_add_right _ _, ?_, top⟩
  omega

/-- An address that is put into a register. -/
theorem Machine.Locates.step {environment : Environment σ} {machine later : Machine σ}
    {slot : Slot} {result : Value} {start : Int64} (locates : machine.Locates slot result)
    (idiomatic : machine.frame.function.Idiomatic)
    (seated : machine.frame.Seated environment.module)
    (found : machine.frame.slots[slot.index]? = some start)
    (next : machine.step environment = .next later) :
    later.callers = machine.callers ∧ later.memory = machine.memory ∧
      later.frame.function = machine.frame.function ∧ later.frame.floor = machine.frame.floor ∧
        later.frame.registers[result.index]? = some start := by
  obtain ⟨instruction, head, located, given⟩ := locates
  obtain ⟨type, offset, operation⟩ := Operation.located?_eq_some located
  obtain ⟨behind, same⟩ := List.head?_eq_some_iff.mp head
  obtain ⟨types, proper, _⟩ := idiomatic.instructions _ _ (seated.member same)
  rw [operation] at proper
  cases proper
  cases effect_of_step next with
  | compute rest computed results inside =>
      cases rest.symm.trans same
      rw [results] at given
      cases given
      rw [operation] at computed
      simp only [Machine.compute, found, Option.bind_eq_bind, Option.bind_some, Option.some.injEq,
        Except.ok.injEq] at computed
      refine ⟨rfl, rfl, rfl, rfl, ?_⟩
      rw [← computed, Int64.add_zero]
      exact Array.getElem?_setIfInBounds_self_of_lt inside
  | write rest updated =>
      cases rest.symm.trans same
      rw [operation] at updated
      cases updated
  | host rest other | enter rest other | branch rest other | jump rest other | ret rest other =>
      cases rest.symm.trans same
      rw [operation] at other
      cases other

end Ssa

/-- Take a compiler that has taken any checked definitions, and any run of a function of its
module. What the code of a function does with slots is exactly what its array literals need, each
with the slot of its own number: storing the length and each element once, and giving the address.
When the address of a literal is given, its length and elements are in memory there, and they stay
the same until the activation ends or stores something in the slot of this literal once more. -/
theorem array_literals_keep_contents {σ : Type} {name entry : String} {registry : Registry}
    {definitions : List TypedDefinition} {first compiler : Compiler}
    (checked : ∀ definition ∈ definitions, ∃ (known : SignatureTable)
      (source : Definition Position), source.check known = .ok definition)
    (started : Compiler.start name registry entry = .ok first)
    (added : first.addAll definitions = .ok compiler)
    {environment : Environment σ} (same : environment.module = compiler.module)
    {function : String} {arguments : List Int64} {steps : Nat} {host : σ}
    {start machine evaluated later : Machine σ}
    (begun : environment.start function arguments steps host = .next start)
    (reached : Machine.Reaches environment start machine)
    {slot : Slot} {result : Value} (locates : machine.Locates slot result)
    (next : machine.step environment = .next evaluated)
    (spares : Machine.Spares environment machine.callers.length slot evaluated later) :
    ∃ definition ∈ definitions, definition.name = machine.frame.function.name ∧
      machine.frame.function.slotUses.Perm (Lowering.literalsUses 0 definition.body.literals) ∧
      ∃ count address, definition.body.literals[slot.index]? = some count ∧
        evaluated.frame.registers[result.index]? = some address ∧
        ∀ index ≤ count, ∃ word,
          evaluated.memory.load? .i64 (address + Lowering.wordOffset index) = some word ∧
          later.memory.load? .i64 (address + Lowering.wordOffset index) = some word := by
  have regular := Compiler.regular_of_addAll checked started added
  have contained : ∀ id body, environment.module.body? id = some body → body.Contained := by
    intro id body found
    rw [same] at found
    exact (regular.origin id body found).idiomatic.contained
  have stacked := (Machine.Stacked.start begun).run reached
  obtain ⟨id, known⟩ := stacked.1.known
  rw [same] at known
  have origin := regular.origin id _ known
  have idiomatic := origin.idiomatic
  obtain ⟨definition, member, named, slots, uses⟩ := origin.slots
  -- The number of the slot is that of a literal.
  obtain ⟨count, counted⟩ : ∃ count, definition.body.literals[slot.index]? = some count := by
    obtain ⟨instruction, head, located, _⟩ := locates
    obtain ⟨type, offset, operation⟩ := Operation.located?_eq_some located
    obtain ⟨behind, rest⟩ := List.head?_eq_some_iff.mp head
    have used : .address slot ∈ machine.frame.function.slotUses := by
      refine Function.mem_slotUses.mpr ⟨_, instruction, stacked.1.member rest, ?_⟩
      rw [operation]
      exact List.mem_singleton_self _
    obtain ⟨index, count, found, used⟩ := Lowering.mem_literalsUses.mp (uses.mem_iff.mp used)
    rw [Lowering.mem_literalUses_address.mp used, Nat.zero_add]
    exact ⟨count, found⟩
  have found : machine.frame.function.slots[slot.index]? = some (Lowering.literalSize count) := by
    rw [← Array.getElem?_toList, slots, List.getElem?_map, counted]
    rfl
  have inside := (Array.getElem?_eq_some_iff.mp found).1
  obtain ⟨callers, memory, code, floor, given⟩ :=
    locates.step idiomatic stacked.1 (stacked.1.slots _ inside) next
  have stackedThen := stacked.next next
  have holds : evaluated.Holds machine.callers.length machine.frame.function
      machine.frame.floor :=
    ⟨[], evaluated.frame, evaluated.callers.map Prod.fst, rfl, by simp [callers], code, floor⟩
  obtain ⟨stackedLast, holdsLast, agree⟩ := spares.agree contained inside stackedThen holds
  refine ⟨definition, member, named, uses, count, _, counted, given, fun index below => ?_⟩
  obtain ⟨place, equal, above, room, top⟩ :=
    stacked.1.word_inside idiomatic uses counted found below
  have fits : machine.frame.ceiling ≤ evaluated.memory.size := by
    rw [memory]
    exact stacked.2.1.le
  have fitsLast : machine.frame.ceiling ≤ later.memory.size := by
    obtain ⟨upper, frame, deeper, frames, _, sameCode, sameFloor⟩ := holdsLast
    rw [Machine.Stacked, frames] at stackedLast
    have lower := stackedLast.ceiling_le.1
    rwa [Frame.ceiling, sameCode, sameFloor] at lower
  have kept := agree.word? above room (top.trans fits) (top.trans fitsLast)
  simp only [Memory.load?, if_true, equal]
  rw [kept, Memory.word?, if_pos (room.trans (top.trans fits))]
  exact ⟨_, rfl, rfl⟩

/-! ## A literal that is evaluated twice -/

def Ssa.Module.alone (module : Module) : Environment Unit :=
  ⟨module, fun _ => none, none⟩

/-- An array literal in a loop, and a second name for the array of the first round. -/
def twoRounds : Definition Position :=
  let here := Position.unknown
  { name := "main"
    parameters := []
    body := .sequence here
      (.each here "round" (.integer here 2) (.sequence here
        (.bind here "newest" (.array here [.ident here "round"]))
        (.conditional here
          (.binary here (.comparison .equal) (.ident here "round") (.integer here 1))
          (.sequence here (.bind here "oldest" (.ident here "newest")) (.integer here 0))
          (.integer here 0))))
      (.index here (.ident here "oldest") (.integer here 0))
    position := here }

/-- Whether a step leaves the first slot of the outermost activation alone. -/
def Ssa.Machine.spares (machine _later : Machine σ) : Bool :=
  decide (machine.callers.length = 0 → ¬ machine.Writes ⟨0⟩)

/-- The run of `twoRounds`: the array of the first round is evaluated, stays as it is for a while,
and is replaced in the second round. -/
theorem twoRounds_run : ∃ typed first compiler start machine evaluated spared later,
    twoRounds.check .standard = .ok typed ∧
      Compiler.start "arrays" Registry.standard "main" = .ok first ∧
      first.addAll [typed] = .ok compiler ∧
      compiler.module.alone.start "main" [] 0 () = .next start ∧
      Machine.Reaches compiler.module.alone start machine ∧ machine.Locates ⟨0⟩ ⟨6⟩ ∧
      machine.step compiler.module.alone = .next evaluated ∧
      Machine.Spares compiler.module.alone machine.callers.length ⟨0⟩ evaluated spared ∧
      Machine.Reaches compiler.module.alone evaluated later ∧ later.callers.length = 0 ∧
      evaluated.frame.registers[6]? = some Memory.base ∧
      evaluated.memory.load? .i64 (Memory.base + 8) = some 1 ∧
      later.memory.load? .i64 (Memory.base + 8) = some 2 := by
  have computed : ((twoRounds.check .standard).toOption.bind fun typed =>
      (Compiler.start "arrays" Registry.standard "main").toOption.bind fun first =>
      (first.addAll [typed]).toOption.bind fun compiler =>
      (compiler.module.alone.start "main" [] 0 ()).machine?.bind fun start =>
      (start.walk compiler.module.alone (fun _ _ => true) 9).bind fun machine =>
      (machine.step compiler.module.alone).machine?.bind fun evaluated =>
      (evaluated.walk compiler.module.alone Machine.spares 10).bind fun _ =>
      (evaluated.walk compiler.module.alone (fun _ _ => true) 13).bind fun later =>
      if machine.Locates ⟨0⟩ ⟨6⟩ ∧ machine.callers.length = 0 ∧ later.callers.length = 0 ∧
        evaluated.frame.registers[6]? = some Memory.base ∧
        evaluated.memory.load? .i64 (Memory.base + 8) = some 1 ∧
        later.memory.load? .i64 (Memory.base + 8) = some 2 then some () else none) =
      some () := by
    decide +kernel
  obtain ⟨typed, checked, computed⟩ := Option.bind_eq_some_iff.mp computed
  obtain ⟨first, started, computed⟩ := Option.bind_eq_some_iff.mp computed
  obtain ⟨compiler, added, computed⟩ := Option.bind_eq_some_iff.mp computed
  obtain ⟨start, begun, computed⟩ := Option.bind_eq_some_iff.mp computed
  obtain ⟨machine, reached, computed⟩ := Option.bind_eq_some_iff.mp computed
  obtain ⟨evaluated, next, computed⟩ := Option.bind_eq_some_iff.mp computed
  obtain ⟨spared, sparing, computed⟩ := Option.bind_eq_some_iff.mp computed
  obtain ⟨later, onwards, computed⟩ := Option.bind_eq_some_iff.mp computed
  obtain ⟨⟨locates, outermost, alive, given, before, after⟩, _⟩ :=
    Option.ite_none_right_eq_some.mp computed
  refine ⟨typed, first, compiler, start, machine, evaluated, spared, later,
    eq_ok_of_toOption checked, eq_ok_of_toOption started, eq_ok_of_toOption added,
    Step.machine?_eq_some begun, Machine.reaches_of_plain_walk reached, locates,
    Step.machine?_eq_some next, ?_,
    Machine.reaches_of_plain_walk onwards, alive, given, before, after⟩
  rw [outermost]
  exact Relation.ReflTransGen.mono (fun _ _ step =>
    ⟨step.1, Nat.zero_le _, of_decide_eq_true step.2⟩) _ _ (Machine.reaches_of_walk sparing)

/-- The element of an array does not stay the same for as long as the activation lives: the same
literal is evaluated once more, at the same address. -/
theorem array_literal_overwritten : ∃ typed first compiler start machine evaluated later address,
    twoRounds.check .standard = .ok typed ∧
      Compiler.start "arrays" Registry.standard "main" = .ok first ∧
      first.addAll [typed] = .ok compiler ∧
      compiler.module.alone.start "main" [] 0 () = .next start ∧
      Machine.Reaches compiler.module.alone start machine ∧ machine.Locates ⟨0⟩ ⟨6⟩ ∧
      machine.step compiler.module.alone = .next evaluated ∧
      evaluated.frame.registers[6]? = some address ∧
      Machine.Reaches compiler.module.alone evaluated later ∧ later.callers.length = 0 ∧
      later.memory.load? .i64 (address + 8) ≠ evaluated.memory.load? .i64 (address + 8) := by
  obtain ⟨typed, first, compiler, start, machine, evaluated, _, later, checked, started, added,
    begun, reached, locates, next, _, onwards, alive, given, before, after⟩ := twoRounds_run
  refine ⟨typed, first, compiler, start, machine, evaluated, later, _, checked, started, added,
    begun, reached, locates, next, given, onwards, alive, ?_⟩
  rw [before, after]
  decide

theorem array_literals_keep_contents_twoRounds : ∃ typed first compiler start machine evaluated
    spared, twoRounds.check .standard = .ok typed ∧
      Compiler.start "arrays" Registry.standard "main" = .ok first ∧
      first.addAll [typed] = .ok compiler ∧
      compiler.module.alone.start "main" [] 0 () = .next start ∧
      Machine.Reaches compiler.module.alone start machine ∧ machine.Locates ⟨0⟩ ⟨6⟩ ∧
      machine.step compiler.module.alone = .next evaluated ∧
      Machine.Spares compiler.module.alone machine.callers.length ⟨0⟩ evaluated spared ∧
      ∃ definition ∈ [typed], definition.name = machine.frame.function.name ∧
        machine.frame.function.slotUses.Perm (Lowering.literalsUses 0 definition.body.literals) ∧
        ∃ count address, definition.body.literals[0]? = some count ∧
          evaluated.frame.registers[6]? = some address ∧
          ∀ index ≤ count, ∃ word,
            evaluated.memory.load? .i64 (address + Lowering.wordOffset index) = some word ∧
            spared.memory.load? .i64 (address + Lowering.wordOffset index) = some word := by
  obtain ⟨typed, first, compiler, start, machine, evaluated, spared, _, checked, started, added,
    begun, reached, locates, next, spares, _⟩ := twoRounds_run
  refine ⟨typed, first, compiler, start, machine, evaluated, spared, checked, started, added,
    begun, reached, locates, next, spares, ?_⟩
  refine array_literals_keep_contents ?_ started added rfl begun reached
    locates next spares
  simp only [List.mem_singleton, forall_eq]
  exact ⟨_, twoRounds, checked⟩

end ExprLang
