import ExprLang.Ssa.Basic

/-!
# Stack memory

The memory of a running program is a stack of octets that grows when a function with slots is
entered and shrinks when it is left. Addresses are words and start at `Memory.base`.
-/

namespace ExprLang.Ssa

structure Memory where
  octets : Array UInt8
deriving DecidableEq, Repr

namespace Memory

def empty : Memory := ⟨#[]⟩

def base : Int64 := 0x10000

def capacity : Nat := 0x100000

def size (memory : Memory) : Nat :=
  memory.octets.size

/-- The room that a slot takes up: its size rounded up to whole words, in 32-bit
arithmetic. -/
def slotRoom (size : UInt32) : Nat :=
  ((size + 7) &&& (~~~ 7)).toNat

def allocate (memory : Memory) (size : UInt32) : Option (Int64 × Memory) :=
  let room := slotRoom size
  if memory.size + room ≤ capacity then
    some (base + Int64.ofNat memory.size, ⟨memory.octets ++ Array.replicate room 0⟩)
  else none

def release (memory : Memory) (size : Nat) : Memory :=
  ⟨memory.octets.shrink size⟩

/-- Whether an access of some octets at an address stays inside the memory in use; computed
with words, so it can be wrong at the far end of the address space. -/
def permits (memory : Memory) (address : Int64) (count : Nat) : Bool :=
  let offset := address - base
  0 ≤ offset && offset + Int64.ofNat count ≤ Int64.ofNat memory.size

/-- The number that some octets from an offset on stand for, lowest octet first. -/
def number (octets : Array UInt8) : (count : Nat) → (offset : Nat) → UInt64
  | 0, _ => 0
  | count + 1, offset =>
    number octets count (offset + 1) <<< 8 ||| (octets.getD offset 0).toUInt64

/-- Writes the octets of a number from an offset on, lowest octet first. -/
def setNumber : (count : Nat) → (offset : Nat) → UInt64 → Array UInt8 → Array UInt8
  | 0, _, _, octets => octets
  | count + 1, offset, value, octets =>
    setNumber count (offset + 1) (value >>> 8) (octets.setIfInBounds offset value.toUInt8)

def word? (memory : Memory) (offset : Nat) : Option Int64 :=
  if offset + 8 ≤ memory.size then some (number memory.octets 8 offset).toInt64 else none

def bit? (memory : Memory) (offset : Nat) : Option Int64 :=
  (memory.octets[offset]?).map fun octet => if octet % 2 = 1 then 1 else 0

def setWord? (memory : Memory) (offset : Nat) (value : Int64) : Option Memory :=
  if offset + 8 ≤ memory.size then some ⟨setNumber 8 offset value.toUInt64 memory.octets⟩
  else none

def setBit? (memory : Memory) (offset : Nat) (value : Int64) : Option Memory :=
  if offset < memory.size then
    some ⟨memory.octets.setIfInBounds offset (value.toUInt64 &&& 1).toUInt8⟩
  else none

def load? (memory : Memory) (type : MachineType) (address : Int64) : Option Int64 :=
  let offset := (address - base).toNatClampNeg
  if type = .i64 then memory.word? offset else memory.bit? offset

def store? (memory : Memory) (type : MachineType) (address value : Int64) : Option Memory :=
  let offset := (address - base).toNatClampNeg
  if type = .i64 then memory.setWord? offset value else memory.setBit? offset value

end Memory

end ExprLang.Ssa
