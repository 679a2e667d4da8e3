import ExprLang.Proofs.Ssa.Linking
import ExprLang.Proofs.Ssa.Deed

/-!
# Uses of slots

The slots of a function under construction are those that were reserved, and its code does with
them what was asked for: looking up variables adds nothing that concerns a slot.
-/

namespace ExprLang.Ssa

/-- What code does with a slot: it asks for the address, or it stores something at an offset. -/
inductive SlotUse where
  | address (slot : Slot)
  | store (slot : Slot) (offset : Int64)
deriving DecidableEq

def Operation.slotUses : Operation → List SlotUse
  | slotAddress _ slot _ => [.address slot]
  | slotStore _ slot offset => [.store slot offset]
  | _ => []

theorem Operation.slotUses_changeDestination (change : Destination → Destination) (side : Nat)
    (operation : Operation) :
    (operation.changeDestination change side).slotUses = operation.slotUses := by
  cases operation <;> simp only [changeDestination] <;> split <;> rfl

def Block.slotUses (block : Block) : List SlotUse :=
  block.instructions.flatMap fun instruction => instruction.operation.slotUses

def Function.slotUses (function : Function) : List SlotUse :=
  function.blocks.toList.flatMap Block.slotUses

theorem Function.mem_slotUses {function : Function} {use : SlotUse} :
    use ∈ function.slotUses ↔ ∃ label, ∃ instruction ∈ (function.block label).instructions,
      use ∈ instruction.operation.slotUses := by
  simp only [slotUses, Block.slotUses, List.mem_flatMap, Array.mem_toList_iff]
  constructor
  · rintro ⟨block, member, instruction, inside, used⟩
    obtain ⟨index, bound, found⟩ := Array.mem_iff_getElem.mp member
    refine ⟨⟨index⟩, instruction, ?_, used⟩
    simpa [Function.block, Function.block?, bound, found] using inside
  · rintro ⟨label, instruction, inside, used⟩
    simp only [Function.block, Function.block?] at inside
    cases found : function.blocks[label.index]? with
    | none => simp [found, Block.empty] at inside
    | some block =>
        rw [found] at inside
        exact ⟨block, Array.mem_of_getElem? found, instruction, inside, used⟩

def Deed.reserved : Deed → List UInt32
  | .reserve size => [size]
  | _ => []

def Deed.slotUses : Deed → List SlotUse
  | .emit operation _ => operation.slotUses
  | _ => []

namespace Builder

theorem slotUses_modifyBlock (builder : Builder) {label : Label} {change : Block → Block}
    (new : List SlotUse) (inside : builder.hasBlock label = true)
    (gain : (change (builder.function.block label)).slotUses.Perm
      (new ++ (builder.function.block label).slotUses)) :
    (builder.modifyBlock label change).function.slotUses.Perm
      (new ++ builder.function.slotUses) := by
  have bound : label.index < builder.function.blocks.size := by simpa [hasBlock] using inside
  simp only [Function.slotUses, modifyBlock, Array.toList_modify]
  refine flatMap_modify_perm (by simpa using bound) ?_
  simpa [Function.block, Function.block?, bound] using gain

theorem slotUses_withInstruction (builder : Builder) {label : Label}
    (inside : builder.hasBlock label = true) (operation : Operation)
    (types : List MachineType) :
    (builder.withInstruction label operation types).function.slotUses.Perm
      (operation.slotUses ++ builder.function.slotUses) := by
  rw [withInstruction, function_withEdges]
  refine slotUses_modifyBlock _ _ inside ?_
  simp only [Block.slotUses, List.flatMap_append, List.flatMap_singleton]
  exact List.perm_append_comm

end Builder

variable {recording later : Recording}

theorem Resolve.slotUses (sound : Sound recording) (step : Resolve recording later) :
    later.builder.function.slotUses.Perm recording.builder.function.slotUses := by
  cases step with
  | pend label var type inside =>
      exact recording.builder.slotUses_modifyBlock [] inside (.refl _)
  | zero label var type inside =>
      exact recording.builder.slotUses_modifyBlock [] inside (.refl _)
  | inherit => exact .refl _
  | join label var type inside =>
      exact recording.builder.slotUses_modifyBlock [] inside (.refl _)
  | pass label edge var param value member =>
      refine recording.builder.slotUses_modifyBlock []
        (sound.scripted.hasBlock_source member) ?_
      simp only [Block.slotUses, List.nil_append]
      rw [Builder.flatMap_changeLast]
      intro instruction
      exact Operation.slotUses_changeDestination _ _ _

theorem Resolves.slotUses (sound : Sound recording) (steps : Resolves recording later) :
    later.builder.function.slotUses.Perm recording.builder.function.slotUses := by
  induction steps with
  | refl => exact .refl _
  | tail before step induction => exact (step.slotUses (sound.resolves before)).trans induction

variable {entry : Option Label} {deed : Deed} {deeds : List Deed}

theorem Performs.slots (performs : Performs entry deed recording later) :
    later.builder.function.slots.toList =
      recording.builder.function.slots.toList ++ deed.reserved := by
  cases performs with
  | switch =>
      simp only [Recording.switch, Builder.withCurrent]
      split <;> exact (List.append_nil _).symm
  | use label var value looked =>
      refine Eq.trans ?_ (List.append_nil _).symm
      exact congrArg Array.toList looked.keeps.slots
  | close label looked =>
      refine Eq.trans ?_ (List.append_nil _).symm
      exact congrArg Array.toList looked.keeps.slots
  | emit =>
      simp only [Recording.emit, Builder.withInstruction, Builder.function_withEdges]
      exact (List.append_nil _).symm
  | reserve size => exact Array.toList_push
  | _ => exact (List.append_nil _).symm

theorem PerformsAll.slots (performs : PerformsAll entry deeds recording later) :
    later.builder.function.slots.toList =
      recording.builder.function.slots.toList ++ deeds.flatMap Deed.reserved := by
  induction performs with
  | nil => exact (List.append_nil _).symm
  | cons first _ induction => rw [induction, first.slots, List.append_assoc, List.flatMap_cons]

theorem Performs.slotUses (sound : Sound recording)
    (performs : Performs entry deed recording later) :
    later.builder.function.slotUses.Perm
      (recording.builder.function.slotUses ++ deed.slotUses) := by
  have same {function : Function} (kept : function.slotUses.Perm
      recording.builder.function.slotUses) : function.slotUses.Perm
        (recording.builder.function.slotUses ++ []) := by
    rwa [List.append_nil]
  cases performs with
  | create =>
      refine same ?_
      simp [Recording.create, Builder.withBlock, Function.slotUses, Block.slotUses, Block.empty]
  | switch label inside left =>
      refine same ?_
      simp only [Recording.switch, Builder.withCurrent]
      split <;> exact .refl _
  | parameter label type inside =>
      exact same (recording.builder.slotUses_modifyBlock [] inside (.refl _))
  | use label var value looked => exact same (Resolves.slotUses sound looked :)
  | close label looked => exact same (Resolves.slotUses sound looked :)
  | emit label operation types current =>
      exact (recording.builder.slotUses_withInstruction (sound.scripted.current label current)
        operation types).trans List.perm_append_comm
  | declare | define | refer | reserve => exact same (.refl _)

theorem PerformsAll.slotUses (sound : Sound recording)
    (performs : PerformsAll entry deeds recording later) :
    later.builder.function.slotUses.Perm
      (recording.builder.function.slotUses ++ deeds.flatMap Deed.slotUses) := by
  induction performs with
  | nil => rw [List.flatMap_nil, List.append_nil]
  | cons first _ induction =>
      rw [List.flatMap_cons, ← List.append_assoc]
      exact (induction (sound.moves first.moves)).trans ((first.slotUses sound).append_right _)

end ExprLang.Ssa
