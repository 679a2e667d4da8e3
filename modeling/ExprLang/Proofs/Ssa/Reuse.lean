import ExprLang.Proofs.Ssa.Accesses
import ExprLang.Ssa.Interpreter

/-!
# Memory that is used again

The memory of an interpreter outlives its calls, but only the octets in use can be seen: what
was left behind them is neither loaded nor kept when it is taken into use again. So it shows just
what the memory of a machine has that started without any.
-/

namespace ExprLang.Ssa

namespace Stack

variable {stack : Stack} {memory later : Memory} {type : MachineType} {address : Int64}

structure Shows (stack : Stack) (memory : Memory) : Prop where
  whole : stack.octets.size = Memory.capacity
  top : stack.top = memory.size
  small : memory.size ≤ Memory.capacity
  agree : Memory.Agree 0 memory.size memory stack.memory

namespace Shows

theorem fresh : fresh.Shows .empty where
  whole := Array.size_replicate
  top := rfl
  small := Nat.zero_le _
  agree _ _ below := absurd below (Nat.not_lt_zero _)

theorem permits (shows : stack.Shows memory) (address : Int64) (count : Nat) :
    stack.permits address count = memory.permits address count := by
  rw [Stack.permits, Memory.permits, shows.top]

theorem memory_small (shows : stack.Shows memory) : stack.memory.size ≤ Memory.capacity :=
  shows.whole.le

theorem inside (shows : stack.Shows memory) (fits : ¬ Memory.Wraps address type.size)
    (permitted : memory.permits address type.size = true) :
    Memory.place address + type.size ≤ memory.size :=
  Memory.inside_of_permits shows.small (Memory.size_le_eight type).2 permitted fits

theorem load (shows : stack.Shows memory) (type : MachineType) (address : Int64) :
    stack.load type address = memory.loaded type address := by
  rw [Stack.load, Memory.loaded, shows.permits]
  split
  · rename_i permitted
    by_cases fits : Memory.Wraps address type.size
    · rw [(Memory.outside_of_wraps shows.small fits).1,
        (Memory.outside_of_wraps shows.memory_small fits).1]
    · have inside := shows.inside fits permitted
      rw [(shows.agree.mono (Nat.zero_le _) inside).load inside
        (inside.trans (shows.small.trans shows.whole.ge))]
  · rfl

end Shows

theorem reaches_eq (stack : Stack) (type : MachineType) (address : Int64) :
    stack.reaches type address = (stack.memory.load? type address).isSome := by
  rw [reaches, Memory.load?]
  split
  · rw [Memory.word?]
    by_cases inside : (address - Memory.base).toNatClampNeg + 8 ≤ stack.octets.size
    · rw [if_pos (show _ ≤ stack.memory.size from inside), decide_eq_true inside]
      rfl
    · rw [if_neg (show ¬ _ ≤ stack.memory.size from inside), decide_eq_false inside]
      rfl
  · rw [Memory.bit?, Option.isSome_map, Bool.eq_iff_iff, decide_eq_true_eq,
      Option.isSome_iff_ne_none, ne_eq, Array.getElem?_eq_none_iff, Nat.not_le]
    rfl

theorem store_of_reaches (reached : stack.reaches type address = true) (word : Int64) :
    stack.memory.store? type address word = some (stack.write type address word).memory := by
  rw [reaches] at reached
  rw [Memory.store?, write]
  by_cases wide : type = .i64
  · rw [if_pos wide, decide_eq_true_eq] at reached
    rw [if_pos wide, if_pos wide, Memory.setWord?,
      if_pos (show _ ≤ stack.memory.size from reached), memory, memory]
  · rw [if_neg wide, decide_eq_true_eq] at reached
    rw [if_neg wide, if_neg wide, Memory.setBit?,
      if_pos (show _ < stack.memory.size from reached), memory, memory]

end Stack

namespace Memory

variable {first second : Array UInt8} {low high : Nat}

theorem Agree.setOctet (agree : Agree low high ⟨first⟩ ⟨second⟩) {place : Nat}
    (inside : place < first.size) (insideToo : place < second.size) (octet : UInt8) :
    Agree low high ⟨first.setIfInBounds place octet⟩ ⟨second.setIfInBounds place octet⟩ := by
  intro other above below
  simp only [Array.getElem?_setIfInBounds, inside, insideToo, if_true]
  split
  · rfl
  · exact agree other above below

theorem Agree.setNumber {count place : Nat} (agree : Agree low high ⟨first⟩ ⟨second⟩)
    (inside : place + count ≤ first.size) (insideToo : place + count ≤ second.size)
    (value : UInt64) :
    Agree low high ⟨Memory.setNumber count place value first⟩
      ⟨Memory.setNumber count place value second⟩ := by
  induction count generalizing first second place value with
  | zero => exact agree
  | succ count induction =>
      refine induction (agree.setOctet (by omega) (by omega) _) ?_ ?_ _
      · rw [Array.size_setIfInBounds]
        omega
      · rw [Array.size_setIfInBounds]
        omega

theorem Agree.store {memory other later last : Memory} {type : MachineType} {address word : Int64}
    (agree : Agree low high memory other) (stored : memory.store? type address word = some later)
    (storedToo : other.store? type address word = some last) : Agree low high later last := by
  rw [store?] at stored storedToo
  by_cases wide : type = .i64
  · rw [if_pos wide, setWord?, Option.ite_none_right_eq_some, Option.some.injEq]
      at stored storedToo
    obtain ⟨inside, rfl⟩ := stored
    obtain ⟨insideToo, rfl⟩ := storedToo
    exact agree.setNumber inside insideToo _
  · rw [if_neg wide, setBit?, Option.ite_none_right_eq_some, Option.some.injEq]
      at stored storedToo
    obtain ⟨inside, rfl⟩ := stored
    obtain ⟨insideToo, rfl⟩ := storedToo
    exact agree.setOctet inside insideToo _

end Memory

namespace Stack

variable {stack : Stack} {memory later : Memory} {type : MachineType} {address : Int64}

theorem top_write (word : Int64) : (stack.write type address word).top = stack.top := by
  rw [write]
  split <;> rfl

/-- A store that is let through and reaches octets changes both in the same way; one that is not
let through traps, and one that reaches no octets breaks. -/
theorem Shows.store (shows : stack.Shows memory) (type : MachineType) (address word : Int64) :
    (stack.permits address type.size = false ∧
      memory.stored type address word = some (.error (.memoryAccess address))) ∨
    (stack.permits address type.size = true ∧ stack.reaches type address = false ∧
      memory.stored type address word = none) ∨
    (stack.permits address type.size = true ∧ stack.reaches type address = true ∧
      ∃ later, memory.stored type address word = some (.ok later) ∧
        (stack.write type address word).Shows later) := by
  rw [shows.permits]
  by_cases permitted : memory.permits address type.size = true
  · by_cases wraps : Memory.Wraps address type.size
    · refine .inr (.inl ⟨permitted, ?_, (Memory.breaks shows.small wraps).store word⟩)
      rw [reaches_eq, (Memory.outside_of_wraps shows.memory_small wraps).1]
      rfl
    · have inside := shows.inside wraps permitted
      obtain ⟨later, stored⟩ := Memory.store_isSome shows.small permitted wraps word
      have reached : stack.reaches type address = true := by
        rw [reaches_eq, (shows.agree.mono (Nat.zero_le _) inside).load inside
          (inside.trans (shows.small.trans shows.whole.ge))]
        obtain ⟨found, loaded⟩ := Memory.load_isSome shows.small permitted wraps
        rw [loaded]
        rfl
      have storedToo := store_of_reaches reached word
      refine .inr (.inr ⟨permitted, reached, later, ?_, ?_, ?_, ?_, ?_⟩)
      · rw [Memory.stored, if_pos permitted, stored, Option.map_some]
      · exact (Memory.size_store storedToo).trans shows.whole
      · rw [top_write, shows.top, Memory.size_store stored]
      · rw [Memory.size_store stored]
        exact shows.small
      · rw [Memory.size_store stored]
        exact shows.agree.store stored storedToo
  · rw [Bool.not_eq_true] at permitted
    refine .inl ⟨permitted, ?_⟩
    rw [Memory.stored, permitted, if_neg Bool.false_ne_true]

/-! ## Slots -/

theorem size_clear (count offset : Nat) (octets : Array UInt8) :
    (clear count offset octets).size = octets.size := by
  induction count generalizing offset octets with
  | zero => rfl
  | succ count induction => rw [clear, induction, Array.size_setIfInBounds]

theorem getElem?_clear {count offset place : Nat} {octets : Array UInt8}
    (inside : offset + count ≤ octets.size) :
    (clear count offset octets)[place]? =
      if offset ≤ place ∧ place < offset + count then some 0 else octets[place]? := by
  induction count generalizing offset octets with
  | zero => rw [clear, if_neg (by omega)]
  | succ count induction =>
      rw [clear, induction (by rw [Array.size_setIfInBounds]; omega), Array.getElem?_setIfInBounds]
      by_cases first : offset = place
      · subst first
        rw [if_neg (by omega), if_pos rfl, if_pos (by omega), if_pos (by omega)]
      · rw [if_neg first]
        split
        · rw [if_pos (by omega)]
        · rw [if_neg (by omega)]

/-- Cleared octets are taken into use, whatever was there. -/
theorem Shows.grow {octets : Array UInt8} {top count : Nat} (shows : Shows ⟨octets, top⟩ memory)
    (room : memory.size + count ≤ Memory.capacity) :
    Shows ⟨clear count top octets, top + count⟩ ⟨memory.octets ++ Array.replicate count 0⟩ := by
  obtain ⟨whole, same, _, agree⟩ := shows
  simp only at whole same
  subst same
  have size : Memory.size ⟨memory.octets ++ Array.replicate count 0⟩ = memory.size + count := by
    simp [Memory.size]
  refine ⟨(size_clear _ _ _).trans whole, size.symm, size.trans_le room, ?_⟩
  intro place _ below
  rw [size] at below
  change (clear count memory.size octets)[place]? =
    (memory.octets ++ Array.replicate count 0)[place]?
  rw [getElem?_clear (by omega)]
  by_cases old : place < memory.size
  · rw [if_neg (by omega), Array.getElem?_append_left old]
    exact agree place (Nat.zero_le _) old
  · rw [Array.getElem?_append_right (Nat.not_lt.mp old),
      Array.getElem?_replicate, if_pos ⟨Nat.not_lt.mp old, below⟩, if_pos]
    change place - memory.size < count
    omega

/-- Slots are taken into use in the same way, as long as there are octets for them. -/
theorem Shows.allocateAll (shows : stack.Shows memory) (sizes : List UInt32) :
    ((stack.allocateAll sizes).1 = none ∧ Ssa.allocateAll memory sizes = none) ∨
    ∃ addresses later, (stack.allocateAll sizes).1 = some addresses ∧
      Ssa.allocateAll memory sizes = some (addresses, later) ∧
      (stack.allocateAll sizes).2.Shows later := by
  induction sizes generalizing stack memory with
  | nil => exact .inr ⟨[], memory, rfl, rfl, shows⟩
  | cons size sizes induction =>
      obtain ⟨octets, top⟩ := stack
      have whole : octets.size = Memory.capacity := shows.whole
      have same : top = memory.size := shows.top
      rw [Stack.allocateAll, Ssa.allocateAll, Memory.allocate]
      by_cases room : memory.size + Memory.slotRoom size ≤ Memory.capacity
      · have grown := shows.grow room
        subst same
        simp only [whole, room, if_true, Option.bind_eq_bind, Option.bind_some]
        rcases induction grown with ⟨left, right⟩ | ⟨addresses, later, left, right, last⟩
        · refine .inl ⟨?_, ?_⟩
          · rw [left]
            rfl
          · rw [right]
            rfl
        · refine .inr ⟨(Memory.base + Int64.ofNat memory.size) :: addresses, later, ?_, ?_, last⟩
          · rw [left]
            rfl
          · rw [right]
            rfl
      · exact .inl (by simp [whole, same, room])

theorem whole_allocateAll (stack : Stack) (sizes : List UInt32) :
    (stack.allocateAll sizes).2.octets.size = stack.octets.size := by
  induction sizes generalizing stack with
  | nil => rfl
  | cons size sizes induction =>
      rw [Stack.allocateAll]
      dsimp only
      split
      · exact (induction _).trans (size_clear _ _ _)
      · rfl

theorem agree_allocateAll (stack : Stack) (sizes : List UInt32) :
    Memory.Agree 0 stack.top stack.memory (stack.allocateAll sizes).2.memory := by
  induction sizes generalizing stack with
  | nil => exact .refl _ _ _
  | cons size sizes induction =>
      obtain ⟨octets, top⟩ := stack
      rw [Stack.allocateAll]
      dsimp only
      split
      · rename_i room
        intro place above below
        refine (induction ⟨clear (Memory.slotRoom size) top octets, top + Memory.slotRoom size⟩
          place above (Nat.lt_add_right _ below)).trans ?_
        exact (getElem?_clear room).trans (if_neg fun both => absurd both.1 (Nat.not_le.mpr below))
      · exact .refl _ _ _

theorem Shows.abandon (shows : stack.Shows memory) (sizes : List UInt32) :
    Shows ⟨(stack.allocateAll sizes).2.octets, stack.top⟩ memory := by
  refine ⟨(whole_allocateAll stack sizes).trans shows.whole, shows.top, shows.small, ?_⟩
  intro place above below
  refine (agree_allocateAll stack sizes place above ?_).trans (shows.agree place above below)
  rw [shows.top]
  exact below

theorem Shows.release {octets : Array UInt8} {top floor : Nat}
    (shows : Shows ⟨octets, top⟩ memory) (lower : floor ≤ memory.size) :
    Shows ⟨octets, floor⟩ (memory.release floor) := by
  have size := Memory.size_release_of_le lower
  refine ⟨shows.whole, size.symm, size.trans_le (lower.trans shows.small), ?_⟩
  rw [size]
  intro place above below
  have released : Memory.Agree 0 floor memory (memory.release floor) :=
    Memory.agree_release (Nat.le_refl floor)
  rw [released place above below]
  exact shows.agree place above (below.trans_le lower)

end Stack

end ExprLang.Ssa
