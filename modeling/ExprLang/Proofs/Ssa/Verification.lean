import ExprLang.Ssa.Verifier
import Mathlib

/-!
# What verified functions satisfy

The verifier accepts a function exactly if it is well formed.
-/

namespace ExprLang.Ssa

/-! ## Results without a value -/

theorem bind_eq_ok {first : Except ε α} {second : α → Except ε β} {result : β} :
    (first >>= second) = .ok result ↔
      ∃ middle, first = .ok middle ∧ second middle = .ok result := by
  cases first with
  | error error => simp [bind, Except.bind]
  | ok middle => simp [bind, Except.bind]

theorem seq_eq_ok {first : Except ε Unit} {second : Unit → Except ε β} {result : β} :
    (first >>= second) = .ok result ↔ first = .ok () ∧ second () = .ok result := by
  rw [bind_eq_ok]
  constructor
  · rintro ⟨_, left, right⟩
    exact ⟨left, right⟩
  · rintro ⟨left, right⟩
    exact ⟨(), left, right⟩

theorem forM_eq_ok {check : α → Except ε Unit} {items : List α} :
    items.forM check = .ok () ↔ ∀ item ∈ items, check item = .ok () := by
  induction items with
  | nil => simp [List.forM, pure, Except.pure]
  | cons item rest induction =>
      rw [List.forM, seq_eq_ok, List.forall_mem_cons, ← induction]

theorem mapError_eq_ok {result : Except ε α} {change : ε → δ} {value : α} :
    result.mapError change = .ok value ↔ result = .ok value := by
  cases result <;> simp [Except.mapError]

namespace Function

variable {function : Function}

def HaveTypes (function : Function) : List Value → List MachineType → Prop :=
  List.Forall₂ fun value type => function.type? value = some type

def SameType (function : Function) (argument parameter : Value) : Prop :=
  ∃ type, function.type? argument = some type ∧ function.type? parameter = some type

/-- A branch leads to a block of the layout other than the entry and passes what the block
wants. -/
structure Leads (function : Function) (entry : Label) (destination : Destination) : Prop where
  different : destination.block ≠ entry
  placed : destination.block ∈ function.layout
  found : (function.block? destination.block).isSome = true
  fits : List.Forall₂ function.SameType destination.arguments
    (function.block destination.block).parameters

/-- A block ends in its only terminator, and its instructions pass what is wanted. -/
structure Formed (function : Function) (entry label : Label) : Prop where
  found : (function.block? label).isSome = true
  terminated : (function.block label).isTerminated = true
  only : ∀ before instruction behind,
    (function.block label).instructions = before ++ instruction :: behind →
      instruction.isTerminator = true → behind = []
  leads : ∀ instruction ∈ (function.block label).instructions,
    ∀ destination ∈ instruction.destinations, function.Leads entry destination
  returns : ∀ instruction ∈ (function.block label).instructions, ∀ values,
    instruction.operation = .ret values → function.HaveTypes values function.prototype.results

/-- The first block has the parameters of the function, and all blocks are well formed. -/
structure Verified (function : Function) (entry : Label) : Prop where
  first : function.entry? = some entry
  found : (function.block? entry).isSome = true
  parameters : function.HaveTypes (function.block entry).parameters
    function.prototype.parameters
  blocks : ∀ label ∈ function.layout, function.Formed entry label

theorem verifyValue_eq_ok {value : Value} {type : MachineType} :
    function.verifyValue value = .ok type ↔ function.type? value = some type := by
  rw [verifyValue]
  split <;> simp [*]

theorem verifyLabel_eq_ok {label : Label} {block : Block} :
    function.verifyLabel label = .ok block ↔ function.block? label = some block := by
  rw [verifyLabel]
  split <;> simp [*]

theorem verifyTypes_eq_ok {flaw : Nat → MachineType → MachineType → Flaw} {index : Nat}
    {values : List Value} {types : List MachineType} (same : values.length = types.length) :
    function.verifyTypes flaw index values types = .ok () ↔
      function.HaveTypes values types := by
  induction values generalizing index types with
  | nil =>
      cases types with
      | nil => simp [verifyTypes, HaveTypes]
      | cons _ _ => cases same
  | cons value rest induction =>
      cases types with
      | nil => cases same
      | cons wanted types =>
          have tail := @induction (index + 1) types (by simpa using same)
          rw [verifyTypes, bind_eq_ok, HaveTypes, List.forall₂_cons]
          constructor
          · rintro ⟨found, value, check⟩
            split at check
            · rename_i equal
              rw [verifyValue_eq_ok, equal] at value
              exact ⟨value, tail.mp check⟩
            · cases check
          · rintro ⟨value, others⟩
            refine ⟨wanted, verifyValue_eq_ok.mpr value, ?_⟩
            rw [if_pos rfl]
            exact tail.mpr others

theorem verifyArguments_eq_ok {target : Label} {index : Nat} {arguments parameters : List Value}
    (same : arguments.length = parameters.length) :
    function.verifyArguments target index arguments parameters = .ok () ↔
      List.Forall₂ function.SameType arguments parameters := by
  induction arguments generalizing index parameters with
  | nil =>
      cases parameters with
      | nil => simp [verifyArguments]
      | cons _ _ => cases same
  | cons argument rest induction =>
      cases parameters with
      | nil => cases same
      | cons parameter parameters =>
          have tail := @induction (index + 1) parameters (by simpa using same)
          rw [verifyArguments, bind_eq_ok, List.forall₂_cons]
          constructor
          · rintro ⟨found, left, check⟩
            obtain ⟨wanted, right, check⟩ := bind_eq_ok.mp check
            split at check
            · rename_i equal
              rw [verifyValue_eq_ok] at left right
              rw [equal] at left
              exact ⟨⟨wanted, left, right⟩, tail.mp check⟩
            · cases check
          · rintro ⟨⟨type, left, right⟩, others⟩
            refine ⟨type, verifyValue_eq_ok.mpr left, bind_eq_ok.mpr ⟨type,
              verifyValue_eq_ok.mpr right, ?_⟩⟩
            rw [if_pos rfl]
            exact tail.mpr others

theorem verifyDestination_eq_ok {entry : Label} {destination : Destination} :
    function.verifyDestination entry destination = .ok () ↔
      function.Leads entry destination := by
  rw [verifyDestination]
  constructor
  · intro check
    split at check
    · cases check
    · rename_i different
      split at check
      · cases check
      · rename_i placed
        obtain ⟨block, found, check⟩ := bind_eq_ok.mp check
        rw [verifyLabel_eq_ok] at found
        simp only at check
        split at check
        · rename_i length
          have same : function.block destination.block = block := by simp [Function.block, found]
          refine ⟨different, by simpa using placed, by simp [found], ?_⟩
          rw [same]
          exact (verifyArguments_eq_ok length).mp check
        · cases check
  · rintro ⟨different, placed, found, fits⟩
    obtain ⟨block, found⟩ := Option.isSome_iff_exists.mp found
    have same : function.block destination.block = block := by simp [Function.block, found]
    rw [same] at fits
    rw [if_neg different, if_neg (by simpa using placed)]
    refine bind_eq_ok.mpr ⟨block, verifyLabel_eq_ok.mpr found, ?_⟩
    rw [if_pos fits.length_eq]
    exact (verifyArguments_eq_ok fits.length_eq).mpr fits

theorem verifyReturn_eq_ok {operation : Operation} :
    function.verifyReturn operation = .ok () ↔ ∀ values, operation = .ret values →
      function.HaveTypes values function.prototype.results := by
  cases operation with
  | ret values =>
      simp only [verifyReturn, Operation.ret.injEq, forall_eq']
      split
      · rename_i same
        exact verifyTypes_eq_ok same
      · rename_i different
        constructor
        · intro check
          cases check
        · intro types
          exact absurd types.length_eq different
  | _ => simp [verifyReturn]

theorem verifyInstructions_eq_ok {entry : Label} {instructions : List Instruction} :
    function.verifyInstructions entry instructions = .ok () ↔
      (∀ before instruction behind, instructions = before ++ instruction :: behind →
        instruction.isTerminator = true → behind = []) ∧
      (∀ instruction ∈ instructions, ∀ destination ∈ instruction.destinations,
        function.Leads entry destination) ∧
      ∀ instruction ∈ instructions, ∀ values, instruction.operation = .ret values →
        function.HaveTypes values function.prototype.results := by
  induction instructions with
  | nil => simp [verifyInstructions]
  | cons first rest induction =>
      have head : (∀ before instruction behind, first :: rest = before ++ instruction :: behind →
          instruction.isTerminator = true → behind = []) ↔
          (first.isTerminator = true → rest = []) ∧
          ∀ before instruction behind, rest = before ++ instruction :: behind →
            instruction.isTerminator = true → behind = [] := by
        constructor
        · intro only
          refine ⟨fun ends => only [] first rest rfl ends, ?_⟩
          intro before instruction behind split
          exact only (first :: before) instruction behind (by simp [split])
        · rintro ⟨ends, only⟩ before instruction behind split terminator
          cases before with
          | nil =>
              cases split
              exact ends terminator
          | cons _ before =>
              cases split
              exact only before instruction behind rfl terminator
      rw [verifyInstructions, head]
      simp only [List.forall_mem_cons]
      split
      · rename_i bad
        simp only [Bool.and_eq_true, Bool.not_eq_true', List.isEmpty_eq_false_iff] at bad
        simp [bad.1, bad.2]
      · rename_i good
        have fine : first.isTerminator = true → rest = [] := by
          intro ends
          simpa [ends] using good
        simp only [seq_eq_ok, forM_eq_ok, verifyDestination_eq_ok, verifyReturn_eq_ok,
          induction]
        constructor
        · rintro ⟨destinations, returns, only, leads, others⟩
          exact ⟨⟨fine, only⟩, ⟨destinations, leads⟩, returns, others⟩
        · rintro ⟨⟨_, only⟩, ⟨destinations, leads⟩, returns, others⟩
          exact ⟨destinations, returns, only, leads, others⟩

theorem verifyBlock_eq_ok {entry label : Label} :
    function.verifyBlock entry label = .ok () ↔ function.Formed entry label := by
  rw [verifyBlock, bind_eq_ok]
  simp only [verifyLabel_eq_ok]
  constructor
  · rintro ⟨block, found, check⟩
    have same : function.block label = block := by simp [Function.block, found]
    split at check
    · rename_i terminated
      obtain ⟨only, leads, returns⟩ := verifyInstructions_eq_ok.mp check
      rw [← same] at terminated only leads returns
      exact ⟨by simp [found], terminated, only, leads, returns⟩
    · cases check
  · rintro ⟨found, terminated, only, leads, returns⟩
    obtain ⟨block, found⟩ := Option.isSome_iff_exists.mp found
    have same : function.block label = block := by simp [Function.block, found]
    rw [same] at terminated only leads returns
    refine ⟨block, found, ?_⟩
    rw [if_pos terminated]
    exact verifyInstructions_eq_ok.mpr ⟨only, leads, returns⟩

theorem verifyEntry_eq_ok {entry : Label} :
    function.verifyEntry entry = .ok () ↔ (function.block? entry).isSome = true ∧
      function.HaveTypes (function.block entry).parameters function.prototype.parameters := by
  rw [verifyEntry, bind_eq_ok]
  simp only [verifyLabel_eq_ok]
  constructor
  · rintro ⟨block, found, check⟩
    have same : function.block entry = block := by simp [Function.block, found]
    split at check
    · rename_i length
      rw [same]
      exact ⟨by simp [found], (verifyTypes_eq_ok length).mp check⟩
    · cases check
  · rintro ⟨found, types⟩
    obtain ⟨block, found⟩ := Option.isSome_iff_exists.mp found
    have same : function.block entry = block := by simp [Function.block, found]
    rw [same] at types
    refine ⟨block, found, ?_⟩
    rw [if_pos types.length_eq]
    exact (verifyTypes_eq_ok types.length_eq).mpr types

theorem verify_eq_ok : function.verify = .ok () ↔ ∃ entry, function.Verified entry := by
  rw [verify]
  cases layout : function.layout with
  | nil =>
      constructor
      · intro check
        cases check
      · rintro ⟨entry, verified⟩
        have first := verified.first
        simp [ entry?, layout] at first
  | cons entry rest =>
      simp only [seq_eq_ok, forM_eq_ok, located, mapError_eq_ok, verifyEntry_eq_ok,
        verifyBlock_eq_ok]
      constructor
      · rintro ⟨⟨found, parameters⟩, blocks⟩
        exact ⟨entry, by simp [ entry?, layout], found, parameters, by simpa [layout] using blocks⟩
      · rintro ⟨other, first, found, parameters, blocks⟩
        simp only [ entry?, layout, List.head?_cons, Option.some.injEq] at first
        subst first
        exact ⟨⟨found, parameters⟩, by simpa [layout] using blocks⟩

end Function

end ExprLang.Ssa
