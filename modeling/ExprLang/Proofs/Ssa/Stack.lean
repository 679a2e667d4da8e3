import ExprLang.Proofs.Ssa.Effects
import ExprLang.Proofs.Ssa.Safety

/-!
# The stack of activations

Every activation has its slots in a part of the memory of its own, one slot behind the other, and
the activations lie above each other in the order in which they were entered. Main statement: what
is in a slot changes only when its own activation stores something there.
-/

namespace ExprLang.Ssa

/-! ## Words of memory -/

namespace Memory

variable {memory middle later : Memory}

/-- Two memories have the same octets from one place up to another. -/
def Agree (low high : Nat) (memory later : Memory) : Prop :=
  ∀ place, low ≤ place → place < high → later.octets[place]? = memory.octets[place]?

namespace Agree

variable {low high : Nat}

theorem refl (low high : Nat) (memory : Memory) : Agree low high memory memory :=
  fun _ _ _ => rfl

theorem trans (first : Agree low high memory middle) (second : Agree low high middle later) :
    Agree low high memory later :=
  fun place above below => (second place above below).trans (first place above below)

theorem mono {lower higher : Nat} (agree : Agree low high memory later) (bottom : low ≤ lower)
    (top : higher ≤ high) : Agree lower higher memory later :=
  fun place above below => agree place (bottom.trans above) (below.trans_le top)

theorem number (agree : Agree low high memory later) {count offset : Nat} (above : low ≤ offset)
    (below : offset + count ≤ high) :
    Memory.number later.octets count offset = Memory.number memory.octets count offset := by
  induction count generalizing offset with
  | zero => rfl
  | succ count induction =>
      rw [Memory.number, Memory.number, induction (by omega) (by omega),
        Array.getD_eq_getD_getElem?, Array.getD_eq_getD_getElem?,
        agree offset above (by omega)]

theorem word? (agree : Agree low high memory later) {offset : Nat} (above : low ≤ offset)
    (below : offset + 8 ≤ high) (inside : high ≤ memory.size) (insideThen : high ≤ later.size) :
    later.word? offset = memory.word? offset := by
  rw [Memory.word?, Memory.word?, if_pos (below.trans inside), if_pos (below.trans insideThen),
    agree.number above below]

end Agree

theorem getElem?_setNumber {count offset place : Nat} {value : UInt64} {octets : Array UInt8}
    (outside : place < offset ∨ offset + count ≤ place) :
    (setNumber count offset value octets)[place]? = octets[place]? := by
  induction count generalizing offset value octets with
  | zero => rfl
  | succ count induction =>
      rw [setNumber, induction (by omega), Array.getElem?_setIfInBounds_ne (by omega)]

theorem agree_store {address value : Int64} {low high : Nat}
    (stored : memory.store? .i64 address value = some later)
    (outside : high ≤ (address - base).toNatClampNeg ∨
      (address - base).toNatClampNeg + 8 ≤ low) : Agree low high memory later := by
  rw [store?, if_pos rfl, setWord?, Option.ite_none_right_eq_some, Option.some.injEq] at stored
  intro place above below
  have octets := congrArg Memory.octets stored.2
  simp only at octets
  rw [← octets, getElem?_setNumber (by omega)]

theorem agree_release {count low high : Nat} (kept : high ≤ count) :
    Agree low high memory (memory.release count) := by
  intro place _ below
  rw [release, Array.shrink_eq_take, Array.take_eq_extract, Array.getElem?_extract]
  split
  · rw [Nat.zero_add]
  · rename_i outside
    rw [Array.getElem?_eq_none (by omega)]

theorem size_release_of_le {count : Nat} (kept : count ≤ memory.size) :
    (memory.release count).size = count := by
  simpa [release, size] using kept

theorem and_words {words low : Nat} (small : words < 2 ^ 29) (least : low < 8) :
    (8 * words + low) &&& (2 ^ 32 - 8) = 8 * words := by
  have mask : (2 : Nat) ^ 32 - 8 = 2 ^ 3 * (2 ^ 29 - 1) := by decide
  rw [mask, show 8 * words + low = 2 ^ 3 * words + low by omega,
    show 8 * words = 2 ^ 3 * words by omega]
  refine Nat.eq_of_testBit_eq fun place => ?_
  rw [Nat.testBit_and, Nat.testBit_two_pow_mul_add _ least, Nat.testBit_two_pow_mul,
    Nat.testBit_two_pow_mul, Nat.testBit_two_pow_sub_one]
  by_cases below : place < 3
  · simp [below, Nat.not_le.mpr below]
  · by_cases inside : place - 3 < 29
    · simp [below, inside, Nat.not_lt.mp below]
    · have beyond := small.trans_le (Nat.pow_le_pow_right (by decide) (Nat.not_lt.mp inside))
      simp [below, inside, Nat.testBit_lt_two_pow beyond]

theorem slotRoom_eq_mod (size : UInt32) :
    slotRoom size = (size.toNat + 7) % 2 ^ 32 / 8 * 8 := by
  have mask : (~~~ (7 : UInt32)).toNat = 2 ^ 32 - 8 := by decide
  have seven : (7 : UInt32).toNat = 7 := by decide
  have small : (size.toNat + 7) % 2 ^ 32 < 2 ^ 32 := Nat.mod_lt _ (by decide)
  rw [slotRoom, UInt32.toNat_and, UInt32.toNat_add, mask, seven]
  generalize (size.toNat + 7) % 2 ^ 32 = sum at small ⊢
  have split : sum = 8 * (sum / 8) + sum % 8 := by omega
  rw [Nat.mul_comm _ 8]
  nth_rewrite 1 [split]
  exact and_words (by omega) (Nat.mod_lt _ (by decide))

theorem slotRoom_eq {size : UInt32} (whole : 8 ∣ size.toNat) : slotRoom size = size.toNat := by
  have small := size.toNat_lt
  rw [slotRoom_eq_mod]
  omega

theorem allocate_eq_some {room : UInt32} {address : Int64}
    (allocated : memory.allocate room = some (address, later)) :
    address = base + Int64.ofNat memory.size ∧ later.size = memory.size + slotRoom room ∧
      Agree 0 memory.size memory later := by
  rw [allocate, Option.ite_none_right_eq_some, Option.some.injEq, Prod.mk.injEq] at allocated
  obtain ⟨_, rfl, rfl⟩ := allocated
  refine ⟨rfl, by simp [size], fun place _ below => ?_⟩
  exact Array.getElem?_append_left below

end Memory

/-- The slots of an activation lie behind each other. -/
theorem allocateAll_places {memory later : Memory} {sizes : List UInt32}
    {addresses : List Int64} (allocated : allocateAll memory sizes = some (addresses, later)) :
    (∀ index < sizes.length, addresses[index]? = some (Memory.base +
        Int64.ofNat (memory.size + ((sizes.take index).map Memory.slotRoom).sum))) ∧
      later.size = memory.size + (sizes.map Memory.slotRoom).sum ∧
      Memory.Agree 0 memory.size memory later := by
  induction sizes generalizing memory addresses with
  | nil =>
      cases allocated
      exact ⟨by simp, by simp, .refl _ _ _⟩
  | cons size sizes induction =>
      simp only [allocateAll, Option.bind_eq_bind, Option.bind_eq_some_iff, Option.pure_def,
        Option.some.injEq, Prod.mk.injEq] at allocated
      obtain ⟨⟨address, middle⟩, first, ⟨others, last⟩, rest, rfl, rfl⟩ := allocated
      obtain ⟨same, room, keeps⟩ := Memory.allocate_eq_some first
      change allocateAll middle sizes = some (others, last) at rest
      obtain ⟨places, total, keepsThen⟩ := induction rest
      refine ⟨fun index below => ?_, ?_, keeps.trans (keepsThen.mono (Nat.le_refl _) (by omega))⟩
      · cases index with
        | zero => simp [same]
        | succ index =>
            rw [List.getElem?_cons_succ, places index (by simpa using below), room]
            simp [Nat.add_assoc]
      · rw [total, room, List.map_cons, List.sum_cons, Nat.add_assoc]

/-! ## Slots of activations -/

def Function.slotStart (function : Function) (floor index : Nat) : Nat :=
  floor + ((function.slots.toList.take index).map Memory.slotRoom).sum

theorem Function.slotStart_mono (function : Function) (floor : Nat) {first second : Nat}
    (before : first ≤ second) :
    function.slotStart floor first ≤ function.slotStart floor second := by
  obtain ⟨more, rfl⟩ := Nat.exists_eq_add_of_le before
  rw [slotStart, slotStart, List.take_add, List.map_append, List.sum_append]
  omega

theorem Function.slotStart_succ {function : Function} {index : Nat} {size : UInt32}
    (found : function.slots[index]? = some size) (floor : Nat) :
    function.slotStart floor (index + 1) =
      function.slotStart floor index + Memory.slotRoom size := by
  have listed : function.slots.toList[index]? = some size := by simpa using found
  rw [slotStart, slotStart, List.take_add_one, listed]
  simp [Nat.add_assoc]

def Operation.stored? : Operation → Option Slot
  | slotStore _ slot _ => some slot
  | _ => none

def Frame.ceiling (frame : Frame) : Nat :=
  frame.function.slotStart frame.floor frame.function.slots.size

/-- A function stores only words, and only inside its slots. -/
structure Function.Contained (function : Function) : Prop where
  whole : ∀ size ∈ function.slots, 8 ∣ size.toNat
  direct : ∀ label, ∀ instruction ∈ (function.block label).instructions,
    ∀ value address offset, instruction.operation ≠ .store value address offset
  inside : ∀ label, ∀ instruction ∈ (function.block label).instructions,
    ∀ value slot offset, instruction.operation = .slotStore value slot offset →
      function.type? value = some .i64 ∧ ∃ size, function.slots[slot.index]? = some size ∧
        (size.toNat ≤ Memory.capacity → 0 ≤ offset.toInt ∧ offset.toInt + 8 ≤ size.toNat)

structure Frame.Seated (module : Module) (frame : Frame) : Prop where
  known : ∃ id, module.body? id = some frame.function
  rest : frame.rest <:+ (frame.function.block frame.block).instructions
  slots : ∀ index < frame.function.slots.size, frame.slots[index]? =
    some (Memory.base + Int64.ofNat (frame.function.slotStart frame.floor index))
  bounded : frame.ceiling ≤ Memory.capacity

namespace Frame.Seated

variable {module : Module} {frame : Frame} {instruction : Instruction}
  {behind : List Instruction}

theorem member (seated : frame.Seated module) (rest : frame.rest = instruction :: behind) :
    instruction ∈ (frame.function.block frame.block).instructions := by
  refine seated.rest.subset ?_
  rw [rest]
  exact List.mem_cons_self

theorem proceed (seated : frame.Seated module) (rest : frame.rest = instruction :: behind)
    (registers : Array Int64) :
    Frame.Seated module { frame with rest := behind, registers } := by
  have inside := seated.rest
  rw [rest] at inside
  exact ⟨seated.known, (List.suffix_cons _ _).trans inside, seated.slots, seated.bounded⟩

/-- An activation goes on at the start of a block. -/
theorem arrive (seated : frame.Seated module) {destination : Destination}
    {instructions : List Instruction} {registers : Array Int64}
    (went : Machine.follow frame.function frame.registers destination =
      some (instructions, registers)) :
    Frame.Seated module ⟨frame.function, destination.block, instructions, registers, frame.slots,
      frame.floor⟩ := by
  obtain ⟨words, read, found, wrote, rfl⟩ := Machine.follow_eq_some.mp went
  exact ⟨seated.known, List.suffix_refl _, seated.slots, seated.bounded⟩

theorem resume (seated : frame.Seated module) (registers : Array Int64) :
    Frame.Seated module { frame with registers } :=
  ⟨seated.known, seated.rest, seated.slots, seated.bounded⟩

theorem start {id : FunctionId} {function : Function} (known : module.body? id = some function)
    {arguments : List Int64} {depth : Nat} {memory later : Memory}
    (small : memory.size ≤ Memory.capacity)
    (entered : enter function arguments depth memory = .ok (frame, later)) :
    frame.Seated module ∧ frame.floor = memory.size ∧ later.size = frame.ceiling ∧
      Memory.Agree 0 memory.size memory later := by
  simp only [enter] at entered
  split at entered
  · cases entered
  · split at entered
    · cases entered
    · obtain ⟨slots, entry, block, registers, allocated, _, found, _, rfl⟩ :=
        activate_eq_ok.mp entered
      obtain ⟨places, total, keeps⟩ := allocateAll_places allocated
      have bounded := allocateAll_fits allocated small
      have ceiling : later.size = Frame.ceiling ⟨function, entry, block.instructions, registers,
          slots.toArray, memory.size⟩ := by
        rw [total, Frame.ceiling, Function.slotStart, ← Array.length_toList, List.take_length]
      refine ⟨⟨⟨id, known⟩, ?_, fun index below => ?_, ceiling ▸ bounded⟩, rfl, ceiling, keeps⟩
      · rw [Function.block, found]
        exact List.suffix_refl _
      · rw [List.getElem?_toArray, places index (by simpa using below)]
        rfl

end Frame.Seated

theorem Memory.place_eq {start : Nat} {offset : Int64} (small : start ≤ capacity)
    (nonnegative : 0 ≤ offset.toInt) (below : offset.toInt ≤ capacity) :
    (base + Int64.ofNat start + offset - base).toNatClampNeg = start + offset.toInt.toNat := by
  rw [capacity] at small below
  have same : base + Int64.ofNat start + offset - base = Int64.ofNat start + offset := by
    rw [Int64.add_assoc, Int64.add_comm, Int64.add_sub_cancel]
  have first : (Int64.ofNat start).toInt = start := Int64.toInt_ofNat_of_lt (by omega)
  rw [same, Int64.toNatClampNeg, Int64.toInt_add, first,
    Int.bmod_eq_of_le (by omega) (by omega)]
  omega

/-- What is stored in a slot is a word, and it is stored inside the slot. -/
theorem Frame.Seated.store_inside {module : Module} {frame : Frame} (seated : frame.Seated module)
    (contained : frame.function.Contained) {instruction : Instruction}
    {behind : List Instruction} (rest : frame.rest = instruction :: behind) {value : Value}
    {slot : Slot} {offset : Int64}
    (operation : instruction.operation = .slotStore value slot offset) :
    ∃ size, frame.function.slots[slot.index]? = some size ∧
      frame.function.type? value = some .i64 ∧
      frame.slots[slot.index]? = some
        (Memory.base + Int64.ofNat (frame.function.slotStart frame.floor slot.index)) ∧
      0 ≤ offset.toInt ∧ offset.toInt + 8 ≤ size.toNat ∧
      frame.function.slotStart frame.floor (slot.index + 1) =
        frame.function.slotStart frame.floor slot.index + size.toNat ∧
      frame.function.slotStart frame.floor (slot.index + 1) ≤ frame.ceiling := by
  obtain ⟨typed, size, found, fits⟩ :=
    contained.inside _ instruction (seated.member rest) _ _ _ operation
  have below : slot.index + 1 ≤ frame.function.slots.size :=
    (Array.getElem?_eq_some_iff.mp found).1
  have room := Memory.slotRoom_eq (contained.whole size (Array.mem_of_getElem? found))
  have start := frame.function.slotStart_succ found frame.floor
  have top : _ ≤ frame.ceiling := frame.function.slotStart_mono frame.floor below
  have bounded := seated.bounded
  obtain ⟨nonnegative, inside⟩ := fits (by omega)
  exact ⟨size, found, typed, seated.slots slot.index below, nonnegative, inside, room ▸ start, top⟩

/-- Storing a word in a slot changes only the slot. -/
theorem Frame.Seated.update {module : Module} {frame : Frame} (seated : frame.Seated module)
    (contained : frame.function.Contained) {instruction : Instruction}
    {behind : List Instruction} (rest : frame.rest = instruction :: behind)
    {memory later : Memory}
    (updated : Machine.update frame.function frame.slots frame.registers memory
      instruction.operation = some (.ok later)) :
    ∃ value slot offset, instruction.operation = .slotStore value slot offset ∧
      slot.index < frame.function.slots.size ∧ ∀ low high,
        (high ≤ frame.function.slotStart frame.floor slot.index ∨
          frame.function.slotStart frame.floor (slot.index + 1) ≤ low) →
        Memory.Agree low high memory later := by
  have member := seated.member rest
  cases operation : instruction.operation with
  | store value address offset =>
      exact absurd operation (contained.direct _ instruction member value address offset)
  | slotStore value slot offset =>
      obtain ⟨size, found, typed, placed, nonnegative, inside, ends, top⟩ :=
        seated.store_inside contained rest operation
      have bounded := seated.bounded
      rw [operation, Machine.update, placed, Option.bind_eq_bind,
        Option.bind_some, Machine.write, Option.bind_eq_bind, Option.bind_eq_some_iff] at updated
      obtain ⟨word, _, updated⟩ := updated
      rw [typed, Option.bind_eq_bind, Option.bind_some] at updated
      split at updated
      · obtain ⟨_, stored, same⟩ := Option.map_eq_some_iff.mp updated
        cases same
        refine ⟨value, slot, offset, rfl, (Array.getElem?_eq_some_iff.mp found).1, ?_⟩
        intro low high outside
        refine Memory.agree_store stored ?_
        rw [Memory.place_eq (by omega) nonnegative (by omega)]
        omega
      · cases updated
  | _ => simp [operation, Machine.update] at updated

/-! ## Stacks -/

theorem Environment.body?_of_callee {environment : Environment σ} {id : FunctionId}
    {body : Function} (callee : environment.callee id = .body body) :
    environment.module.body? id = some body := by
  rw [Environment.callee] at callee
  split at callee
  · cases callee
  · rename_i found
    rw [Module.body?, found, Option.bind_some]
    split at callee
    · cases callee
      assumption
    · split at callee
      · cases callee
      · split at callee <;> cases callee

def Stacked (module : Module) : (top : Nat) → List Frame → Prop
  | _, [] => True
  | top, frame :: frames =>
    frame.Seated module ∧ frame.ceiling = top ∧ Stacked module frame.floor frames

theorem Frame.floor_le_ceiling (frame : Frame) : frame.floor ≤ frame.ceiling :=
  Nat.le_add_right _ _

theorem Stacked.ceiling_le {module : Module} {top : Nat} {above below : List Frame}
    {frame : Frame} (stacked : Stacked module top (above ++ frame :: below)) :
    frame.ceiling ≤ top ∧ frame.Seated module := by
  induction above generalizing top with
  | nil => exact ⟨stacked.2.1.le, stacked.1⟩
  | cons first above induction =>
      obtain ⟨_, rfl, others⟩ := stacked
      obtain ⟨lower, seated⟩ := induction others
      exact ⟨lower.trans first.floor_le_ceiling, seated⟩

namespace Machine

theorem size_write {function : Function} {registers : Array Int64} {memory later : Memory}
    {value : Value} {place : Int64}
    (written : write function registers memory value place = some (.ok later)) :
    later.size = memory.size := by
  simp only [write, Option.bind_eq_bind, Option.bind_eq_some_iff] at written
  obtain ⟨word, _, type, _, written⟩ := written
  split at written
  · obtain ⟨same, stored, equal⟩ := Option.map_eq_some_iff.mp written
    cases equal
    exact Memory.size_store stored
  · cases written

theorem size_update {function : Function} {slots registers : Array Int64}
    {memory later : Memory} {operation : Operation}
    (updated : update function slots registers memory operation = some (.ok later)) :
    later.size = memory.size := by
  cases operation with
  | store value address offset =>
      obtain ⟨start, _, written⟩ := Option.bind_eq_some_iff.mp updated
      exact size_write written
  | slotStore value slot offset =>
      obtain ⟨start, _, written⟩ := Option.bind_eq_some_iff.mp updated
      exact size_write written
  | _ => cases updated

def frames (machine : Machine σ) : List Frame :=
  machine.frame :: machine.callers.map Prod.fst

def Stacked (module : Module) (machine : Machine σ) : Prop :=
  Ssa.Stacked module machine.memory.size machine.frames

/-- The next instruction stores something in a slot of the innermost activation. -/
def Writes (machine : Machine σ) (slot : Slot) : Prop :=
  ∃ instruction ∈ machine.frame.rest.head?, instruction.operation.stored? = some slot

instance (machine : Machine σ) (slot : Slot) : Decidable (machine.Writes slot) :=
  inferInstanceAs (Decidable (∃ instruction ∈ machine.frame.rest.head?,
    instruction.operation.stored? = some slot))

/-- What one step does to the activations: one of them goes on, enters another one or returns to
the one below it. Memory changes only above the floor of the innermost one, and slots of it only
if it stores something there. -/
inductive Shift (machine later : Machine σ) : Prop
  | stay (same : later.callers = machine.callers)
      (function : later.frame.function = machine.frame.function)
      (floor : later.frame.floor = machine.frame.floor)
      (keeps : ∀ low high, high ≤ machine.frame.floor →
        Memory.Agree low high machine.memory later.memory)
      (spares : ∀ slot : Slot, ¬ machine.Writes slot →
        Memory.Agree (machine.frame.function.slotStart machine.frame.floor slot.index)
          (machine.frame.function.slotStart machine.frame.floor (slot.index + 1))
          machine.memory later.memory)
  | enter {frame : Frame} (callers : later.callers.map Prod.fst = frame ::
        machine.callers.map Prod.fst)
      (function : frame.function = machine.frame.function)
      (floor : frame.floor = machine.frame.floor)
      (keeps : Memory.Agree 0 machine.memory.size machine.memory later.memory)
  | leave {caller : Frame} (callers : machine.callers.map Prod.fst = caller ::
        later.callers.map Prod.fst)
      (function : later.frame.function = caller.function)
      (floor : later.frame.floor = caller.floor)
      (keeps : Memory.Agree 0 machine.frame.floor machine.memory later.memory)

theorem Stacked.next {environment : Environment σ} {machine later : Machine σ}
    (stacked : machine.Stacked environment.module)
    (next : machine.step environment = .next later) : later.Stacked environment.module := by
  cases effect_of_step next with
  | compute rest computed results inside =>
      obtain ⟨seated, top, others⟩ := stacked
      exact ⟨seated.proceed rest _, top, others⟩
  | write rest updated =>
      obtain ⟨seated, top, others⟩ := stacked
      exact ⟨seated.proceed rest _, top.trans (size_update updated).symm, others⟩
  | host rest operation read found callee answered count written =>
      obtain ⟨seated, top, others⟩ := stacked
      exact ⟨seated.proceed rest _, top, others⟩
  | enter rest operation read found body entered =>
      obtain ⟨seated, top, others⟩ := stacked
      obtain ⟨starts, floor, size, -⟩ :=
        Frame.Seated.start (Environment.body?_of_callee body) (top ▸ seated.bounded) entered
      exact ⟨starts, size.symm, seated.proceed rest _, top.trans floor.symm, others⟩
  | branch rest operation tested went =>
      obtain ⟨seated, top, others⟩ := stacked
      exact ⟨seated.arrive went, top, others⟩
  | jump rest operation went =>
      obtain ⟨seated, top, others⟩ := stacked
      exact ⟨seated.arrive went, top, others⟩
  | ret rest operation read written =>
      obtain ⟨seated, top, waits, below, others⟩ := stacked
      refine ⟨waits.resume _, below.trans (Memory.size_release_of_le ?_).symm, others⟩
      exact top ▸ Frame.floor_le_ceiling _

theorem Stacked.step {environment : Environment σ} {machine later : Machine σ}
    (contained : ∀ id body, environment.module.body? id = some body → body.Contained)
    (stacked : machine.Stacked environment.module)
    (next : machine.step environment = .next later) :
    later.Stacked environment.module ∧ Shift machine later := by
  refine ⟨stacked.next next, ?_⟩
  cases effect_of_step next with
  | compute | host | branch | jump =>
      exact .stay rfl rfl rfl (fun _ _ _ => .refl _ _ _) fun _ _ => .refl _ _ _
  | @write frame _ _ _ _ _ _ instruction _ rest updated =>
      obtain ⟨seated, top, others⟩ := stacked
      obtain ⟨_, known⟩ := seated.known
      obtain ⟨value, slot, offset, operation, below, spares⟩ :=
        seated.update (contained _ _ known) rest updated
      refine .stay rfl rfl rfl
        (fun low high kept => spares low high (.inl (kept.trans (Nat.le_add_right _ _))))
        fun other unwritten => spares _ _ ?_
      obtain less | equal | greater := Nat.lt_trichotomy other.index slot.index
      · exact .inl (Function.slotStart_mono _ _ less)
      · have same : other = slot := congrArg Slot.mk equal
        have head : instruction ∈ frame.rest.head? := by
          rw [rest]
          rfl
        exact absurd ⟨_, head, by rw [operation]; rfl⟩ (same ▸ unwritten)
      · exact .inr (Function.slotStart_mono _ _ greater)
  | enter rest operation read found body entered =>
      obtain ⟨seated, top, others⟩ := stacked
      obtain ⟨_, _, _, keeps⟩ :=
        Frame.Seated.start (Environment.body?_of_callee body) (top ▸ seated.bounded) entered
      exact .enter rfl rfl rfl keeps
  | ret => exact .leave rfl rfl rfl (Memory.agree_release (Nat.le_refl _))

theorem Stacked.start {environment : Environment σ} {name : String} {arguments : List Int64}
    {steps : Nat} {host : σ} {machine : Machine σ}
    (started : environment.start name arguments steps host = .next machine) :
    machine.Stacked environment.module := by
  simp only [Environment.start] at started
  split at started
  · cases started
  · split at started
    · cases started
    · cases started
    · rename_i body
      split at started
      · cases started
      · rename_i entered
        cases started
        obtain ⟨seated, _, size, _⟩ :=
          Frame.Seated.start (Environment.body?_of_callee body) (Nat.zero_le _) entered
        exact ⟨seated, size.symm, trivial⟩

theorem Stacked.run {environment : Environment σ} {machine later : Machine σ}
    (stacked : machine.Stacked environment.module)
    (reached : Reaches environment machine later) : later.Stacked environment.module := by
  induction reached with
  | refl => exact stacked
  | tail _ next induction => exact induction.next next

/-! ## Slots that stay as they are -/

/-- A run during which the activation that has so many others below it does not end, and does not
store anything in one of its slots. -/
def Spares (environment : Environment σ) (below : Nat) (slot : Slot) :
    Machine σ → Machine σ → Prop :=
  Relation.ReflTransGen fun machine later => machine.step environment = .next later ∧
    below ≤ later.callers.length ∧ (machine.callers.length = below → ¬ machine.Writes slot)

def Holds (machine : Machine σ) (below : Nat) (function : Function) (floor : Nat) : Prop :=
  ∃ above frame deeper, machine.frames = above ++ frame :: deeper ∧ deeper.length = below ∧
    frame.function = function ∧ frame.floor = floor

/-- An activation stays where it is as long as enough activations lie above it. -/
theorem Holds.shift {machine later : Machine σ} {below floor : Nat} {function : Function}
    (holds : machine.Holds below function floor) (shift : machine.Shift later)
    (alive : below ≤ later.callers.length) : later.Holds below function floor := by
  obtain ⟨above, frame, deeper, frames, count, rfl, rfl⟩ := holds
  have length := congrArg List.length frames
  simp only [Machine.frames, List.length_cons, List.length_map, List.length_append] at length
  cases above with
  | nil =>
      obtain ⟨rfl, rfl⟩ := List.cons.inj frames
      cases shift with
      | stay same function floor keeps spares =>
          refine ⟨[], later.frame, machine.callers.map Prod.fst, ?_, count, function, floor⟩
          rw [Machine.frames, same]
          rfl
      | @enter waiting callers function floor keeps =>
          refine ⟨[later.frame], waiting, machine.callers.map Prod.fst, ?_, count, function,
            floor⟩
          rw [Machine.frames, callers]
          rfl
      | leave callers function floor keeps =>
          have shorter := congrArg List.length callers
          simp only [List.length_map, List.length_cons] at shorter count
          omega
  | cons first above =>
      obtain ⟨rfl, waits⟩ := List.cons.inj frames
      cases shift with
      | stay same function floor keeps spares =>
          refine ⟨later.frame :: above, frame, deeper, ?_, count, rfl, rfl⟩
          rw [Machine.frames, same, waits]
          rfl
      | @enter waiting callers function floor keeps =>
          refine ⟨later.frame :: waiting :: above, frame, deeper, ?_, count, rfl, rfl⟩
          rw [Machine.frames, callers, waits]
          rfl
      | @leave caller callers function floor keeps =>
          rw [waits] at callers
          cases above with
          | nil =>
              obtain ⟨rfl, rest⟩ := List.cons.inj callers
              exact ⟨[], later.frame, deeper, by rw [Machine.frames, ← rest]; rfl, count,
                function, floor⟩
          | cons second above =>
              obtain ⟨rfl, rest⟩ := List.cons.inj callers
              exact ⟨later.frame :: above, frame, deeper, by rw [Machine.frames, ← rest]; rfl,
                count, rfl, rfl⟩

/-- An activation is the innermost one, or it ends where the innermost one starts or below. -/
theorem Holds.place {module : Module} {machine : Machine σ} {below floor : Nat}
    {function : Function} (holds : machine.Holds below function floor)
    (stacked : machine.Stacked module) :
    (machine.callers.length = below ∧ machine.frame.function = function ∧
      machine.frame.floor = floor) ∨
    function.slotStart floor function.slots.size ≤ machine.frame.floor := by
  obtain ⟨above, frame, deeper, frames, count, rfl, rfl⟩ := holds
  cases above with
  | nil =>
      obtain ⟨rfl, rfl⟩ := List.cons.inj frames
      exact .inl ⟨by simpa using count, rfl, rfl⟩
  | cons first above =>
      obtain ⟨rfl, waits⟩ := List.cons.inj frames
      have others := stacked.2.2
      rw [waits] at others
      exact .inr others.ceiling_le.1

/-- An activation starts where the innermost one starts or below. -/
theorem Holds.floor_le {module : Module} {machine : Machine σ} {below floor : Nat}
    {function : Function} (holds : machine.Holds below function floor)
    (stacked : machine.Stacked module) : floor ≤ machine.frame.floor := by
  rcases holds.place stacked with ⟨_, _, same⟩ | lower
  · exact same.ge
  · exact (Nat.le_add_right _ _).trans lower

/-- What a step keeps below the innermost activation. -/
theorem Shift.agree {module : Module} {machine later : Machine σ} (shift : machine.Shift later)
    (stacked : machine.Stacked module) :
    Memory.Agree 0 machine.frame.floor machine.memory later.memory := by
  cases shift with
  | stay same function floor keeps spares => exact keeps _ _ (Nat.le_refl _)
  | enter callers function floor keeps =>
      refine keeps.mono (Nat.le_refl _) ?_
      rw [← stacked.2.1]
      exact machine.frame.floor_le_ceiling
  | leave callers function floor keeps => exact keeps

/-- A step that spares a slot of an activation leaves the slot as it is. -/
theorem Holds.step {environment : Environment σ} {machine later : Machine σ} {below floor : Nat}
    {function : Function} {slot : Slot} (holds : machine.Holds below function floor)
    (inside : slot.index < function.slots.size) (stacked : machine.Stacked environment.module)
    (unwritten : machine.callers.length = below → ¬ machine.Writes slot)
    (shift : machine.Shift later) (alive : below ≤ later.callers.length) :
    later.Holds below function floor ∧
      Memory.Agree (function.slotStart floor slot.index)
        (function.slotStart floor (slot.index + 1)) machine.memory later.memory := by
  refine ⟨holds.shift shift alive, ?_⟩
  have fits := function.slotStart_mono floor inside
  rcases holds.place stacked with ⟨innermost, rfl, rfl⟩ | lower
  · cases shift with
    | stay same function floor keeps spares => exact spares slot (unwritten innermost)
    | enter callers function floor keeps =>
        exact keeps.mono (Nat.zero_le _) (fits.trans stacked.2.1.le)
    | leave callers function floor keeps =>
        have shorter := congrArg List.length callers
        simp only [List.length_map, List.length_cons] at shorter
        omega
  · exact (shift.agree stacked).mono (Nat.zero_le _) (fits.trans lower)

/-- While an activation spares a slot, the slot stays as it is. -/
theorem Spares.agree {environment : Environment σ} {machine later : Machine σ} {below floor : Nat}
    {function : Function} {slot : Slot}
    (contained : ∀ id body, environment.module.body? id = some body → body.Contained)
    (inside : slot.index < function.slots.size) (stacked : machine.Stacked environment.module)
    (holds : machine.Holds below function floor)
    (spares : Spares environment below slot machine later) :
    later.Stacked environment.module ∧ later.Holds below function floor ∧
      Memory.Agree (function.slotStart floor slot.index)
        (function.slotStart floor (slot.index + 1)) machine.memory later.memory := by
  induction spares with
  | refl => exact ⟨stacked, holds, .refl _ _ _⟩
  | tail _ step induction =>
      obtain ⟨next, alive, unwritten⟩ := step
      obtain ⟨stackedThen, holdsThen, agree⟩ := induction
      obtain ⟨stackedLast, shift⟩ := stackedThen.step contained next
      obtain ⟨holdsLast, agreeLast⟩ := holdsThen.step inside stackedThen unwritten shift alive
      exact ⟨stackedLast, holdsLast, agree.trans agreeLast⟩

/-! ## Calls -/

/-- A run during which an activation that has fewer than so many others below it does not go on,
though the last step may return to one. -/
def During (environment : Environment σ) (below : Nat) : Machine σ → Machine σ → Prop :=
  Relation.ReflTransGen fun machine later => machine.step environment = .next later ∧
    below ≤ machine.callers.length

/-- While an activation lives, and when it returns, nothing is changed below it. -/
theorem During.agree {environment : Environment σ} {machine later : Machine σ} {below floor : Nat}
    {function : Function}
    (contained : ∀ id body, environment.module.body? id = some body → body.Contained)
    (stacked : machine.Stacked environment.module)
    (holds : machine.Holds below function floor)
    (during : During environment below machine later) :
    later.Stacked environment.module ∧
      (below ≤ later.callers.length → later.Holds below function floor) ∧
      Memory.Agree 0 floor machine.memory later.memory := by
  induction during with
  | refl => exact ⟨stacked, fun _ => holds, .refl _ _ _⟩
  | tail _ step induction =>
      obtain ⟨next, alive⟩ := step
      obtain ⟨stackedThen, holdsThen, agree⟩ := induction
      obtain ⟨stackedLast, shift⟩ := stackedThen.step contained next
      have lower := (holdsThen alive).floor_le stackedThen
      exact ⟨stackedLast, (holdsThen alive).shift shift,
        agree.trans ((shift.agree stackedThen).mono (Nat.le_refl _) lower)⟩

/-! ## Runs of some length -/

def walk (environment : Environment σ) (allowed : Machine σ → Machine σ → Bool) :
    (count : Nat) → Machine σ → Option (Machine σ)
  | 0, machine => some machine
  | count + 1, machine =>
    match machine.step environment with
    | .next later => if allowed machine later then later.walk environment allowed count else none
    | .halt _ => none

theorem reaches_of_walk {environment : Environment σ} {allowed : Machine σ → Machine σ → Bool}
    {count : Nat} {machine later : Machine σ}
    (walked : machine.walk environment allowed count = some later) :
    Relation.ReflTransGen (fun machine later => machine.step environment = .next later ∧
      allowed machine later = true) machine later := by
  induction count generalizing machine with
  | zero =>
      cases walked
      exact .refl
  | succ count induction =>
      rw [walk] at walked
      split at walked
      · rename_i next
        rw [Option.ite_none_right_eq_some] at walked
        exact .head ⟨next, walked.1⟩ (induction walked.2)
      · cases walked

theorem reaches_of_plain_walk {environment : Environment σ} {count : Nat}
    {machine later : Machine σ}
    (walked : machine.walk environment (fun _ _ => true) count = some later) :
    Reaches environment machine later :=
  Relation.ReflTransGen.mono (fun _ _ step => step.1) _ _ (reaches_of_walk walked)

end Machine

def Step.machine? : Step σ → Option (Machine σ)
  | next machine => some machine
  | halt _ => none

theorem Step.machine?_eq_some {step : Step σ} {machine : Machine σ}
    (found : step.machine? = some machine) : step = .next machine := by
  cases step with
  | next other =>
      cases found
      rfl
  | halt _ => cases found

end ExprLang.Ssa
