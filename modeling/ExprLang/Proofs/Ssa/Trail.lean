import ExprLang.Ssa.Basic
import Mathlib

/-!
# Trails through a function

A trail is the sequence of blocks that control passes from the entry on, the block that it is
in first. A value is available at an instruction if every trail that leads there has passed
its definition.
-/

namespace ExprLang.Ssa

namespace Block

/-- The values that a block defines before its instruction at an index, the parameters
first. -/
def definedBefore (block : Block) (index : Nat) : List Value :=
  block.parameters ++ (block.instructions.take index).flatMap Instruction.results

def definitions (block : Block) : List Value :=
  block.parameters ++ block.instructions.flatMap Instruction.results

theorem definedBefore_subset (block : Block) (index : Nat) :
    block.definedBefore index ⊆ block.definitions := by
  intro value member
  simp only [definedBefore, definitions, List.mem_append, List.mem_flatMap] at member ⊢
  rcases member with parameter | ⟨instruction, early, result⟩
  · exact .inl parameter
  · exact .inr ⟨instruction, List.mem_of_mem_take early, result⟩

theorem definedBefore_mono (block : Block) {first second : Nat} (earlier : first ≤ second) :
    block.definedBefore first ⊆ block.definedBefore second := by
  intro value member
  simp only [definedBefore, List.mem_append, List.mem_flatMap] at member ⊢
  rcases member with parameter | ⟨instruction, early, result⟩
  · exact .inl parameter
  · refine .inr ⟨instruction, ?_, result⟩
    exact (List.take_prefix_take_left earlier).subset early

end Block

/-- The values that an instruction reads: its operands, and what it passes to the blocks that
it leads to. -/
def Instruction.uses (instruction : Instruction) : List Value :=
  instruction.operation.operands ++ instruction.destinations.flatMap Destination.arguments

namespace Function

def definitions (function : Function) : List Value :=
  function.blocks.toList.flatMap Block.definitions

inductive Trail (function : Function) : List Label → Prop
  | entry (label : Label) : function.entry? = some label → Trail function [label]
  | next (label target : Label) (earlier : List Label) : Trail function (label :: earlier) →
      target ∈ (function.block label).successors → Trail function (target :: label :: earlier)

/-- Control can come to the block. -/
def Reachable (function : Function) (label : Label) : Prop :=
  ∃ earlier, function.Trail (label :: earlier)

def Dominates (function : Function) (first second : Label) : Prop :=
  ∀ earlier, function.Trail (second :: earlier) → first ∈ second :: earlier

/-- Every trail to the instruction at an index of a block passes the definition of a value
before it. -/
def Available (function : Function) (label : Label) (index : Nat) (value : Value) : Prop :=
  ∀ earlier, function.Trail (label :: earlier) →
    value ∈ (function.block label).definedBefore index ∨
      ∃ passed ∈ earlier, value ∈ (function.block passed).definitions

namespace Trail

variable {function : Function}

theorem of_append {later earlier : List Label} {label : Label}
    (trail : function.Trail (later ++ label :: earlier)) : function.Trail (label :: earlier) := by
  induction later with
  | nil => exact trail
  | cons head rest induction =>
      apply induction
      cases rest with
      | nil =>
          cases trail with
          | next _ _ _ shorter _ => exact shorter
      | cons second rest =>
          cases trail with
          | next _ _ _ shorter _ => exact shorter

theorem of_mem {trail : List Label} {label : Label} (holds : function.Trail trail)
    (member : label ∈ trail) :
    ∃ later earlier, trail = later ++ label :: earlier ∧ function.Trail (label :: earlier) := by
  obtain ⟨later, earlier, rfl⟩ := List.append_of_mem member
  exact ⟨later, earlier, rfl, holds.of_append⟩

theorem first_visit {label : Label} {earlier : List Label}
    (trail : function.Trail (label :: earlier)) :
    ∃ before, function.Trail (label :: before) ∧ label ∉ before := by
  induction size : earlier.length using Nat.strongRecOn generalizing earlier with
  | ind count induction =>
      by_cases member : label ∈ earlier
      · have shorter : function.Trail earlier := by
          cases trail with
          | entry _ _ => cases member
          | next _ _ _ shorter _ => exact shorter
        obtain ⟨later, before, equal, visit⟩ := shorter.of_mem member
        refine induction before.length ?_ visit rfl
        rw [← size, equal]
        simp
        omega
      · exact ⟨earlier, trail, member⟩

end Trail

namespace Dominates

variable {function : Function}

theorem refl (function : Function) (label : Label) : function.Dominates label label := by
  intro earlier _
  exact List.mem_cons_self

theorem trans {first second third : Label} (left : function.Dominates first second)
    (right : function.Dominates second third) : function.Dominates first third := by
  intro earlier trail
  obtain ⟨later, before, equal, visit⟩ := trail.of_mem (right earlier trail)
  rw [equal]
  exact List.mem_append_right later (left before visit)

end Dominates

namespace Available

variable {function : Function}

theorem mono {label : Label} {first second : Nat} {value : Value}
    (available : function.Available label first value) (earlier : first ≤ second) :
    function.Available label second value := by
  intro before trail
  rcases available before trail with member | passed
  · exact .inl ((function.block label).definedBefore_mono earlier member)
  · exact .inr passed

theorem of_mem {label : Label} {index : Nat} {value : Value}
    (member : value ∈ (function.block label).definedBefore index) :
    function.Available label index value := by
  intro _ _
  exact .inl member

end Available

/-- Every value has one definition: it is a parameter of one block or a result of one
instruction. -/
def SingleAssignment (function : Function) : Prop :=
  function.definitions.Perm ((List.range function.values.size).map Value.mk)

namespace SingleAssignment

variable {function : Function}

theorem nodup (single : function.SingleAssignment) : function.definitions.Nodup := by
  refine single.nodup_iff.mpr ?_
  exact List.nodup_range.map fun left right equal => by cases equal; rfl

theorem mem_definitions_iff (single : function.SingleAssignment) (value : Value) :
    value ∈ function.definitions ↔ value.index < function.values.size := by
  rw [single.mem_iff]
  simp only [List.mem_map, List.mem_range]
  constructor
  · rintro ⟨index, inside, rfl⟩
    exact inside
  · intro inside
    exact ⟨value.index, inside, rfl⟩

theorem block_mem {label : Label} {value : Value}
    (member : value ∈ (function.block label).definitions) :
    ∃ inside : label.index < function.blocks.size,
      function.block label = function.blocks.toList.get ⟨label.index, by simpa using inside⟩ := by
  by_cases inside : label.index < function.blocks.size
  · refine ⟨inside, ?_⟩
    simp [block, block?, inside]
  · simp [block, block?, inside, Block.empty, Block.definitions] at member

theorem mem_definitions {label : Label} {value : Value}
    (member : value ∈ (function.block label).definitions) : value ∈ function.definitions := by
  obtain ⟨inside, equal⟩ := block_mem member
  rw [equal] at member
  exact List.mem_flatMap.mpr ⟨_, List.get_mem _ _, member⟩

theorem parameter_lt (single : function.SingleAssignment) {label : Label} {value : Value}
    (member : value ∈ (function.block label).parameters) :
    value.index < function.values.size :=
  (single.mem_definitions_iff value).mp (mem_definitions (List.mem_append_left _ member))

theorem result_lt (single : function.SingleAssignment) {label : Label} {instruction : Instruction}
    {value : Value} (member : instruction ∈ (function.block label).instructions)
    (result : value ∈ instruction.results) : value.index < function.values.size :=
  (single.mem_definitions_iff value).mp (mem_definitions
    (List.mem_append_right _ (List.mem_flatMap.mpr ⟨instruction, member, result⟩)))

theorem label_eq (single : function.SingleAssignment) {first second : Label} {value : Value}
    (left : value ∈ (function.block first).definitions)
    (right : value ∈ (function.block second).definitions) : first = second := by
  obtain ⟨leftInside, leftEqual⟩ := block_mem left
  obtain ⟨rightInside, rightEqual⟩ := block_mem right
  rw [leftEqual] at left
  rw [rightEqual] at right
  have apart := (List.nodup_flatMap.mp single.nodup).2
  rw [List.pairwise_iff_getElem] at apart
  have equal : first.index = second.index := by
    rcases Nat.lt_trichotomy first.index second.index with less | equal | greater
    · exact absurd right
        (apart first.index second.index (by simpa) (by simpa) less left)
    · exact equal
    · exact absurd left
        (apart second.index first.index (by simpa) (by simpa) greater right)
  cases first
  cases second
  cases equal
  rfl

theorem block_nodup (single : function.SingleAssignment) (label : Label) :
    (function.block label).definitions.Nodup := by
  by_cases empty : (function.block label).definitions = []
  · rw [empty]
    exact List.nodup_nil
  · obtain ⟨value, member⟩ := List.exists_mem_of_ne_nil _ empty
    obtain ⟨inside, equal⟩ := block_mem member
    rw [equal]
    exact (List.nodup_flatMap.mp single.nodup).1 _ (List.get_mem _ _)

theorem place_eq (single : function.SingleAssignment) {label other : Label} {first second : Nat}
    {left right : Instruction} (found : (function.block label).instructions[first]? = some left)
    (foundThere : (function.block other).instructions[second]? = some right) {value : Value}
    (result : value ∈ left.results) (resultThere : value ∈ right.results) :
    label = other ∧ first = second := by
  have defined : value ∈ (function.block label).instructions.flatMap Instruction.results :=
    List.mem_flatMap.mpr ⟨_, List.mem_of_getElem? found, result⟩
  have definedThere : value ∈ (function.block other).instructions.flatMap Instruction.results :=
    List.mem_flatMap.mpr ⟨_, List.mem_of_getElem? foundThere, resultThere⟩
  cases single.label_eq (List.mem_append_right _ defined) (List.mem_append_right _ definedThere)
  refine ⟨rfl, ?_⟩
  have apart := (List.nodup_flatMap.mp (List.nodup_append.mp (single.block_nodup label)).2.1).2
  rw [List.pairwise_iff_getElem] at apart
  obtain ⟨inside, rfl⟩ := List.getElem?_eq_some_iff.mp found
  obtain ⟨insideThere, rfl⟩ := List.getElem?_eq_some_iff.mp foundThere
  rcases Nat.lt_trichotomy first second with less | equal | greater
  · exact absurd resultThere (apart first second inside insideThere less result)
  · exact equal
  · exact absurd result (apart second first insideThere inside greater resultThere)

theorem instruction_eq (single : function.SingleAssignment) {label other : Label}
    {left right : Instruction} (member : left ∈ (function.block label).instructions)
    (there : right ∈ (function.block other).instructions) {value : Value}
    (result : value ∈ left.results) (resultThere : value ∈ right.results) : left = right := by
  obtain ⟨first, found⟩ := List.mem_iff_getElem?.mp member
  obtain ⟨second, foundThere⟩ := List.mem_iff_getElem?.mp there
  obtain ⟨rfl, rfl⟩ := single.place_eq found foundThere result resultThere
  exact Option.some.inj (found.symm.trans foundThere)

theorem not_parameter (single : function.SingleAssignment) {label other : Label}
    {instruction : Instruction} (member : instruction ∈ (function.block label).instructions)
    {value : Value} (result : value ∈ instruction.results) :
    value ∉ (function.block other).parameters := by
  intro parameter
  have defined : value ∈ (function.block label).instructions.flatMap Instruction.results :=
    List.mem_flatMap.mpr ⟨_, member, result⟩
  cases single.label_eq (List.mem_append_right _ defined) (List.mem_append_left _ parameter)
  exact List.disjoint_of_nodup_append (single.block_nodup label) parameter defined

/-- A value that is available at a point of a reachable block is not defined in that block
from this point on. -/
theorem not_mem_drop (single : function.SingleAssignment) {label : Label} {index : Nat}
    {value : Value} (reachable : function.Reachable label)
    (available : function.Available label index value) :
    value ∉ ((function.block label).instructions.drop index).flatMap Instruction.results := by
  intro late
  have definition : value ∈ (function.block label).definitions := by
    obtain ⟨instruction, member, result⟩ := List.mem_flatMap.mp late
    exact List.mem_append_right _
      (List.mem_flatMap.mpr ⟨instruction, List.mem_of_mem_drop member, result⟩)
  obtain ⟨earlier, trail⟩ := reachable
  obtain ⟨before, visit, fresh⟩ := trail.first_visit
  rcases available before visit with early | ⟨passed, member, defined⟩
  · have nodup := single.block_nodup label
    have split : (function.block label).definitions =
        (function.block label).definedBefore index ++
          ((function.block label).instructions.drop index).flatMap Instruction.results := by
      simp only [Block.definitions, Block.definedBefore, List.append_assoc]
      rw [← List.flatMap_append, List.take_append_drop]
    rw [split] at nodup
    exact (List.disjoint_of_nodup_append nodup) early late
  · rw [single.label_eq defined definition] at member
    exact fresh member

/-- A value that is available in the only predecessor of a reachable block is not defined in
this block. -/
theorem not_mem_of_predecessor (single : function.SingleAssignment) {label source : Label}
    {index : Nat} {value : Value} (reachable : function.Reachable label)
    (notEntry : function.entry? ≠ some label)
    (only : ∀ other, label ∈ (function.block other).successors → other = source)
    (available : function.Available source index value) :
    value ∉ (function.block label).definitions := by
  intro definition
  obtain ⟨earlier, trail⟩ := reachable
  obtain ⟨before, visit, fresh⟩ := trail.first_visit
  cases visit with
  | entry _ entry => exact notEntry entry
  | next other _ rest shorter target =>
      cases only other target
      rcases available rest shorter with inside | ⟨passed, member, defined⟩
      · have equal := single.label_eq
          ((function.block source).definedBefore_subset index inside) definition
        rw [equal] at fresh
        exact fresh List.mem_cons_self
      · rw [single.label_eq defined definition] at member
        exact fresh (List.mem_cons_of_mem source member)

end SingleAssignment

end Function

end ExprLang.Ssa
