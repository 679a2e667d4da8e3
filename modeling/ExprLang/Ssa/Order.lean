import ExprLang.Ssa.Basic

/-!
# Visiting order of blocks

A depth-first search from the entry finishes a block after everything that it first reached
through it. Blocks in the reverse order of finishing come after all blocks that control has
to pass on the way to them.
-/

namespace ExprLang.Ssa

/-- A depth-first search: the blocks met so far, and those that are finished, last one
first. -/
structure Search where
  visited : List Label
  finished : List Label

namespace Function

/-- The blocks that the last instruction of a block names, whether it follows them or not. -/
def named (function : Function) (label : Label) : List Label :=
  match (function.block label).instructions.getLast? with
  | some last => last.destinations.map Destination.block
  | none => []

/-- Searches from a block, trying the block that it names last first. The fuel bounds how many
blocks are entered one inside the other. -/
def search (function : Function) : (fuel : Nat) → Label → Search → Search
  | 0, _, progress => progress
  | fuel + 1, label, progress =>
    let progress := (function.named label).reverse.foldl
      (fun progress next =>
        if next ∈ progress.visited then progress else function.search fuel next progress)
      { progress with visited := label :: progress.visited }
    { progress with finished := label :: progress.finished }

/-- The blocks that can be reached from the entry in reverse order of finishing, then the
others in the order of the layout. -/
def reversePostorder (function : Function) : List Label :=
  match function.entry? with
  | none => []
  | some entry =>
    let result := function.search (function.blocks.size + 1) entry ⟨[], []⟩
    result.finished ++ function.layout.filter fun label => label ∉ result.visited

end Function

end ExprLang.Ssa
