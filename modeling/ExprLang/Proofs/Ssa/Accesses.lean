import ExprLang.Proofs.Ssa.Stack

/-!
# Where memory is accessed

An access is checked with words: the number of octets is added to the offset, and the sum is
compared with the size of the memory. Unless that sum wraps around, an access traps or touches
just the octets that it names, all of which are in use. For the few addresses from which the
largest word is too near the sum is negative, the check passes, and there are no such octets.
-/

namespace ExprLang.Ssa

namespace Memory

variable {memory later : Memory} {address : Int64} {count : Nat} {type : MachineType}

def place (address : Int64) : Nat :=
  (address - base).toNatClampNeg

theorem place_start {start : Nat} (small : start ≤ capacity) :
    place (base + Int64.ofNat start) = start := by
  have least : (0 : Int64).toInt = 0 := rfl
  have same := place_eq small least.ge (by rw [least, capacity]; decide)
  rwa [Int64.add_zero, least] at same

/-- The octets of an access are in use. Their places are numbers without bounds. -/
def Encloses (memory : Memory) (address : Int64) (count : Nat) : Prop :=
  0 ≤ address.toInt - base.toInt ∧ address.toInt - base.toInt + count ≤ memory.size

/-- The offset is the difference of the numbers, or the difference is negative and wraps to one
of the largest words. -/
theorem toInt_sub_base (address : Int64) :
    (address - base).toInt = address.toInt - base.toInt ∨
      address.toInt < base.toInt ∧ 2 ^ 63 - base.toInt ≤ (address - base).toInt := by
  have least := address.le_toInt
  have most := address.toInt_lt
  have start : base.toInt = 0x10000 := by decide
  rw [Int64.toInt_sub, start]
  by_cases low : address.toInt - 0x10000 < -2 ^ 63
  · right
    rw [← Int.add_bmod_right, Int.bmod_eq_of_le (by omega) (by omega)]
    omega
  · left
    exact Int.bmod_eq_of_le (by omega) (by omega)

section Checks

variable (small : memory.size ≤ capacity) (few : count ≤ 8)

include small few

theorem encloses_iff : memory.Encloses address count ↔
    0 ≤ (address - base).toInt ∧ (address - base).toInt + count ≤ memory.size := by
  have start : base.toInt = 0x10000 := by decide
  rw [capacity] at small
  rw [Encloses]
  rcases toInt_sub_base address with same | ⟨low, high⟩
  · rw [same]
  · omega

theorem permits_iff_toInt : memory.permits address count = true ↔
    0 ≤ (address - base).toInt ∧
      ((address - base).toInt + count).bmod (2 ^ 64) ≤ memory.size := by
  have size : (Int64.ofNat memory.size).toInt = memory.size :=
    Int64.toInt_ofNat_of_lt (by rw [capacity] at small; omega)
  have word : (Int64.ofNat count).toInt = count := Int64.toInt_ofNat_of_lt (by omega)
  rw [permits, Bool.and_eq_true, decide_eq_true_eq, decide_eq_true_eq, Int64.le_iff_toInt_le,
    Int64.le_iff_toInt_le, Int64.toInt_add, word, size]
  rfl

theorem permits_iff (fits : ¬ Wraps address count) :
    memory.permits address count = true ↔ memory.Encloses address count := by
  rw [encloses_iff small few, permits_iff_toInt small few]
  rw [Wraps] at fits
  have lowest := (address - base).le_toInt
  refine and_congr_right fun nonnegative => ?_
  rw [Int.bmod_eq_of_le (by omega) (by omega)]

theorem permits_of_wraps (wraps : Wraps address count) :
    memory.permits address count = true := by
  rw [permits_iff_toInt small few]
  rw [Wraps] at wraps
  have most := (address - base).toInt_lt
  rw [← Int.sub_bmod_right, Int.bmod_eq_of_le (by omega) (by omega)]
  omega

end Checks

theorem size_le_eight (type : MachineType) : 1 ≤ type.size ∧ type.size ≤ 8 := by
  cases type <;> simp [MachineType.size]

theorem outside_of_wraps (small : memory.size ≤ capacity) (wraps : Wraps address type.size) :
    memory.load? type address = none ∧ ∀ word, memory.store? type address word = none := by
  have few := (size_le_eight type).2
  rw [Wraps] at wraps
  rw [capacity] at small
  have far : memory.size < (address - base).toNatClampNeg := by
    rw [Int64.toNatClampNeg]
    omega
  constructor
  · rw [load?]
    split
    · rw [word?, if_neg (by omega)]
    · rw [bit?, Array.getElem?_eq_none (by exact far.le), Option.map_none]
  · intro word
    rw [store?]
    split
    · rw [setWord?, if_neg (by omega)]
    · rw [setBit?, if_neg (by omega)]

theorem not_encloses_of_wraps (small : memory.size ≤ capacity) (few : count ≤ 8)
    (wraps : Wraps address count) : ¬ memory.Encloses address count := by
  rw [encloses_iff small few]
  rw [Wraps] at wraps
  rw [capacity] at small
  omega

/-! ## What is touched -/

theorem Agree.load (agree : Agree (place address) (place address + type.size) memory later)
    (inside : place address + type.size ≤ memory.size)
    (insideThen : place address + type.size ≤ later.size) :
    later.load? type address = memory.load? type address := by
  rw [load?, load?]
  split
  · rename_i wide
    subst wide
    exact agree.word? (Nat.le_refl _) (Nat.le_refl _) inside insideThen
  · have some := (size_le_eight type).1
    rw [bit?, bit?]
    exact congrArg _ (agree (place address) (Nat.le_refl _) (by omega))

theorem agree_stored {word : Int64} (stored : memory.store? type address word = some later)
    {low high : Nat} (outside : high ≤ place address ∨ place address + type.size ≤ low) :
    Agree low high memory later := by
  by_cases wide : type = .i64
  · subst wide
    exact agree_store stored outside
  · have some := (size_le_eight type).1
    rw [store?, if_neg wide, setBit?, Option.ite_none_right_eq_some, Option.some.injEq] at stored
    obtain ⟨_, rfl⟩ := stored
    intro spot above below
    rw [place] at outside
    exact Array.getElem?_setIfInBounds_ne (by omega)

theorem toNat_shift_or (value upper : UInt64) {count : Nat} (few : count < 8)
    (above : upper.toNat = (value >>> 8).toNat % 2 ^ (8 * count)) :
    (upper <<< 8 ||| value.toUInt8.toUInt64).toNat = value.toNat % 2 ^ (8 * (count + 1)) := by
  have eight : (8 : UInt64).toNat % 64 = 8 := by decide
  have power : 2 ^ (8 * (count + 1)) = 2 ^ 8 * 2 ^ (8 * count) := by
    rw [← Nat.pow_add]
    congr 1
    omega
  have bound : 2 ^ (8 * (count + 1)) ≤ 2 ^ 64 := Nat.pow_le_pow_right (by decide) (by omega)
  have small : upper.toNat < 2 ^ (8 * count) := by
    rw [above]
    exact Nat.mod_lt _ (Nat.two_pow_pos _)
  have fits : upper.toNat <<< 8 < 2 ^ 64 := by
    rw [Nat.shiftLeft_eq]
    omega
  have lowest : value.toNat % 2 ^ 8 < 2 ^ 8 := Nat.mod_lt _ (by decide)
  rw [UInt64.toNat_or, UInt64.toNat_shiftLeft, eight, Nat.mod_eq_of_lt fits,
    UInt8.toNat_toUInt64, UInt64.toNat_toUInt8, ← Nat.shiftLeft_add_eq_or_of_lt lowest,
    Nat.shiftLeft_eq, above, UInt64.toNat_shiftRight, eight, Nat.shiftRight_eq_div_pow, power,
    Nat.mod_mul]
  omega

theorem number_setNumber (few : count ≤ 8) {offset : Nat} {value : UInt64}
    {octets : Array UInt8} (fits : offset + count ≤ octets.size) :
    (number (setNumber count offset value octets) count offset).toNat =
      value.toNat % 2 ^ (8 * count) := by
  induction count generalizing offset value octets with
  | zero =>
      rw [number]
      simp [Nat.mod_one]
  | succ count induction =>
      have first : (setNumber (count + 1) offset value octets).getD offset 0 = value.toUInt8 := by
        rw [setNumber, Array.getD_eq_getD_getElem?, getElem?_setNumber (.inl (Nat.lt_succ_self _)),
          Array.getElem?_setIfInBounds_self_of_lt (by omega), Option.getD_some]
      rw [number, first, setNumber]
      refine toNat_shift_or value _ few (induction (by omega) ?_)
      rw [Array.size_setIfInBounds]
      omega

theorem lowest_bit (word : Int64) : word &&& 1 = 0 ∧ (word.toUInt64 &&& 1).toUInt8 = 0 ∨
    word &&& 1 = 1 ∧ (word.toUInt64 &&& 1).toUInt8 = 1 := by
  have same : word &&& 1 = (word.toUInt64 &&& 1).toInt64 := rfl
  have bit : (word.toUInt64 &&& 1).toNat = word.toUInt64.toNat % 2 := by
    rw [UInt64.toNat_and]
    exact Nat.and_one_is_mod _
  rw [same]
  rcases Nat.mod_two_eq_zero_or_one word.toUInt64.toNat with even | odd
  · have zero : word.toUInt64 &&& 1 = 0 := UInt64.toNat.inj (bit.trans even)
    exact .inl (by rw [zero]; decide)
  · have one : word.toUInt64 &&& 1 = 1 := UInt64.toNat.inj (bit.trans odd)
    exact .inr (by rw [one]; decide)

/-- What a type keeps of a word in memory: the whole word, or its lowest bit. -/
def kept (type : MachineType) (word : Int64) : Int64 :=
  if type = .i64 then word else word &&& 1

theorem load_store {word : Int64} (stored : memory.store? type address word = some later) :
    later.load? type address = some (kept type word) := by
  rw [store?] at stored
  rw [load?, kept]
  split at stored
  · rename_i wide
    rw [setWord?, Option.ite_none_right_eq_some, Option.some.injEq] at stored
    obtain ⟨inside, rfl⟩ := stored
    have same := size_setNumber 8 (address - base).toNatClampNeg word.toUInt64 memory.octets
    have whole := @number_setNumber 8 (Nat.le_refl 8) _ word.toUInt64 _ inside
    rw [Nat.mod_eq_of_lt word.toUInt64.toNat_lt] at whole
    rw [if_pos wide, if_pos wide, word?, if_pos (same.symm ▸ inside), UInt64.toNat.inj whole]
    rfl
  · rename_i narrow
    rw [setBit?, Option.ite_none_right_eq_some, Option.some.injEq] at stored
    obtain ⟨inside, rfl⟩ := stored
    rw [if_neg narrow, if_neg narrow, bit?, Array.getElem?_setIfInBounds_self_of_lt inside,
      Option.map_some]
    rcases lowest_bit word with ⟨same, octet⟩ | ⟨same, octet⟩
    · rw [same, octet]
      rfl
    · rw [same, octet]
      rfl

/-! ## Loads and stores -/

/-- What a load gives: a word, a trap, or nothing if the check lets through an access for which
there are no octets. -/
def loaded (memory : Memory) (type : MachineType) (address : Int64) :
    Option (Except Trap Int64) :=
  if memory.permits address type.size then (memory.load? type address).map .ok
  else some (.error (.memoryAccess address))

def stored (memory : Memory) (type : MachineType) (address word : Int64) :
    Option (Except Trap Memory) :=
  if memory.permits address type.size then (memory.store? type address word).map .ok
  else some (.error (.memoryAccess address))

/-- An access touches just the octets that it names. A load depends on no others, a store changes
no others, and what was stored is there to be loaded. -/
structure Touches (memory : Memory) (type : MachineType) (address : Int64) : Prop where
  load : ∃ word, memory.loaded type address = some (.ok word) ∧
    ∀ other, Agree (place address) (place address + type.size) memory other →
      place address + type.size ≤ other.size → other.load? type address = some word
  store : ∀ word, ∃ later, memory.stored type address word = some (.ok later) ∧
    later.size = memory.size ∧ Agree 0 (place address) memory later ∧
    Agree (place address + type.size) memory.size memory later ∧
    later.load? type address = some (kept type word)

/-- An access traps, although the octets are not there to be touched. -/
structure Refuses (memory : Memory) (type : MachineType) (address : Int64) : Prop where
  load : memory.loaded type address = some (.error (.memoryAccess address))
  store : ∀ word, memory.stored type address word = some (.error (.memoryAccess address))

/-- An access is let through although the octets are not there. -/
structure Breaks (memory : Memory) (type : MachineType) (address : Int64) : Prop where
  load : memory.loaded type address = none
  store : ∀ word, memory.stored type address word = none

section Outcomes

variable (small : memory.size ≤ capacity)

include small

theorem touches (fits : ¬ Wraps address type.size)
    (encloses : memory.Encloses address type.size) : memory.Touches type address := by
  have few := (size_le_eight type).2
  have permitted := (permits_iff small few fits).mpr encloses
  have inside : place address + type.size ≤ memory.size :=
    inside_of_permits small few permitted fits
  constructor
  · obtain ⟨word, found⟩ := load_isSome small permitted fits
    refine ⟨word, by rw [loaded, if_pos permitted, found, Option.map_some], ?_⟩
    intro other agree insideThen
    exact (agree.load inside insideThen).trans found
  · intro word
    obtain ⟨later, written⟩ := store_isSome small permitted fits word
    exact ⟨later, by rw [stored, if_pos permitted, written, Option.map_some],
      size_store written, agree_stored written (.inl (Nat.le_refl _)),
      agree_stored written (.inr (Nat.le_refl _)), load_store written⟩

theorem refuses (fits : ¬ Wraps address type.size)
    (outside : ¬ memory.Encloses address type.size) : memory.Refuses type address := by
  have refused : ¬ memory.permits address type.size = true := fun permitted =>
    outside ((permits_iff small (size_le_eight type).2 fits).mp permitted)
  exact ⟨by rw [loaded, if_neg refused], fun word => by rw [stored, if_neg refused]⟩

theorem breaks (wraps : Wraps address type.size) : memory.Breaks type address := by
  have permitted := permits_of_wraps small (size_le_eight type).2 wraps
  obtain ⟨load, store⟩ := outside_of_wraps small wraps
  refine ⟨by rw [loaded, if_pos permitted, load, Option.map_none], fun word => ?_⟩
  rw [stored, if_pos permitted, store, Option.map_none]

end Outcomes

end Memory

theorem small_enter {function : Function} {arguments : List Int64} {depth : Nat}
    {memory later : Memory} {frame : Frame} (small : memory.size ≤ Memory.capacity)
    (entered : enter function arguments depth memory = .ok (frame, later)) :
    later.size ≤ Memory.capacity := by
  simp only [enter] at entered
  split at entered
  · cases entered
  · split at entered
    · cases entered
    · obtain ⟨slots, entry, block, registers, allocated, _⟩ := activate_eq_ok.mp entered
      exact allocateAll_fits allocated small

namespace Machine

theorem compute_load (function : Function) (slots registers : Array Int64) (memory : Memory)
    (type : MachineType) (address : Value) (offset : Int64) :
    compute function slots registers memory (.load type address offset) =
      (registers[address.index]?).bind fun start => memory.loaded type (start + offset) :=
  rfl

theorem write_eq (function : Function) (registers : Array Int64) (memory : Memory)
    (value : Value) (place : Int64) :
    write function registers memory value place =
      (registers[value.index]?).bind fun word =>
        (function.type? value).bind fun type => memory.stored type place word :=
  rfl

variable {environment : Environment σ} {machine later : Machine σ}

theorem small_step (small : machine.memory.size ≤ Memory.capacity)
    (next : machine.step environment = .next later) :
    later.memory.size ≤ Memory.capacity := by
  cases effect_of_step next with
  | compute | host | branch | jump => exact small
  | write rest updated => exact (size_update updated).trans_le small
  | enter rest operation read found body entered => exact small_enter small entered
  | ret rest operation read written => exact (Memory.size_release _).trans small

theorem small_run (small : machine.memory.size ≤ Memory.capacity)
    (reached : Reaches environment machine later) : later.memory.size ≤ Memory.capacity := by
  induction reached with
  | refl => exact small
  | tail _ next induction => exact small_step induction next

theorem small_start {name : String} {arguments : List Int64} {steps : Nat} {host : σ}
    (started : environment.start name arguments steps host = .next machine) :
    machine.memory.size ≤ Memory.capacity := by
  simp only [Environment.start] at started
  split at started
  · cases started
  · split at started
    · cases started
    · cases started
    · split at started
      · cases started
      · rename_i entered
        cases started
        exact small_enter (Nat.zero_le _) entered

end Machine

/-- At every address and for every type, and whatever was executed before, a load or a store
touches just the octets that it names, all of them in use, or traps because they are not all in
use. The exception are the addresses from which the largest word is too near: there the check
lets the access through, and there is nothing to be accessed. -/
theorem accesses_stay_in_use {environment : Environment σ} {name : String}
    {arguments : List Int64} {steps : Nat} {host : σ} {first machine : Machine σ}
    (started : environment.start name arguments steps host = .next first)
    (reached : Machine.Reaches environment first machine) (type : MachineType)
    (address : Int64) :
    (¬ Memory.Wraps address type.size →
      (machine.memory.Encloses address type.size ∧ machine.memory.Touches type address) ∨
      (¬ machine.memory.Encloses address type.size ∧ machine.memory.Refuses type address)) ∧
    (Memory.Wraps address type.size →
      ¬ machine.memory.Encloses address type.size ∧ machine.memory.Breaks type address) := by
  have small := Machine.small_run (Machine.small_start started) reached
  have few := (Memory.size_le_eight type).2
  refine ⟨fun fits => ?_, fun wraps =>
    ⟨Memory.not_encloses_of_wraps small few wraps, Memory.breaks small wraps⟩⟩
  by_cases encloses : machine.memory.Encloses address type.size
  · exact .inl ⟨encloses, Memory.touches small fits encloses⟩
  · exact .inr ⟨encloses, Memory.refuses small fits encloses⟩

def farLoad : List Request := [
  .declare "main" ⟨[], [.i64]⟩ .exported,
  .build ⟨0⟩,
  .command 0 .createBlock,
  .command 0 (.switchTo ⟨0⟩),
  .command 0 (.createSlot 16),
  .command 0 (.emit (.slotAddress ⟨0⟩ 0)),
  .command 0 (.emit (.constant .i64 0x7FFFFFFFFFFFFFF8)),
  .command 0 (.emit (.arithmetic .add ⟨0⟩ ⟨1⟩)),
  .command 0 (.emit (.load .i64 ⟨2⟩ 0)),
  .command 0 (.emit (.ret [⟨3⟩])),
  .command 0 .sealAll,
  .define ⟨0⟩ (some 0)]

def farLoadEnvironment : Environment Unit where
  module := ((Workspace.empty "far").handleAll farLoad).module
  host _ := none
  limit := none

/-- Whether a run ends because a number names nothing. -/
def Step.breaks : Step σ → Bool
  | halt ⟨.error .broken, _, _⟩ => true
  | _ => false

def Machine.access? (machine : Machine σ) : Option (Int64 × Nat) :=
  machine.frame.rest.head?.bind fun instruction =>
    machine.frame.access? instruction.operation

theorem farLoad_run : ∃ first machine : Machine Unit, ∃ address : Int64,
    farLoadEnvironment.start "main" [] 0 () = .next first ∧
      Machine.Reaches farLoadEnvironment first machine ∧
      machine.access? = some (address, 8) ∧ Memory.Wraps address 8 ∧
      machine.memory.permits address 8 = true ∧
      (machine.step farLoadEnvironment).breaks = true := by
  have computed : ((farLoadEnvironment.start "main" [] 0 ()).machine?.bind fun first =>
      (first.walk farLoadEnvironment (fun _ _ => true) 3).bind fun machine =>
      machine.access?.bind fun access =>
      if access.2 = 8 ∧ Memory.Wraps access.1 8 ∧ machine.memory.permits access.1 8 = true ∧
        (machine.step farLoadEnvironment).breaks = true then some () else none) = some () := by
    decide +kernel
  obtain ⟨first, begun, computed⟩ := Option.bind_eq_some_iff.mp computed
  obtain ⟨machine, reached, computed⟩ := Option.bind_eq_some_iff.mp computed
  obtain ⟨⟨address, count⟩, accessed, computed⟩ := Option.bind_eq_some_iff.mp computed
  obtain ⟨⟨rfl, wraps, permitted, broken⟩, _⟩ := Option.ite_none_right_eq_some.mp computed
  exact ⟨first, machine, address, Step.machine?_eq_some begun,
    Machine.reaches_of_plain_walk reached, accessed, wraps, permitted, broken⟩

theorem accesses_stay_in_use_farLoad : ∃ first machine : Machine Unit, ∃ address : Int64,
    farLoadEnvironment.start "main" [] 0 () = .next first ∧
      Machine.Reaches farLoadEnvironment first machine ∧ Memory.Wraps address 8 ∧
      ¬ machine.memory.Encloses address 8 ∧ machine.memory.Breaks .i64 address := by
  obtain ⟨first, machine, address, started, reached, _, wraps, _, _⟩ := farLoad_run
  exact ⟨first, machine, address, started, reached, wraps,
    (accesses_stay_in_use started reached .i64 address).2 wraps⟩

/-- An access that neither traps nor stays inside the memory: the check lets it through. -/
theorem load_outside_memory : ∃ first machine : Machine Unit, ∃ address : Int64,
    farLoadEnvironment.start "main" [] 0 () = .next first ∧
      Machine.Reaches farLoadEnvironment first machine ∧
      machine.access? = some (address, 8) ∧ machine.memory.permits address 8 = true ∧
      ¬ machine.memory.Encloses address 8 ∧
      (machine.step farLoadEnvironment).breaks = true := by
  obtain ⟨first, machine, address, started, reached, accessed, wraps, permitted, broken⟩ :=
    farLoad_run
  have small := Machine.small_run (Machine.small_start started) reached
  exact ⟨first, machine, address, started, reached, accessed, permitted,
    Memory.not_encloses_of_wraps small (Nat.le_refl 8) wraps, broken⟩

end ExprLang.Ssa
