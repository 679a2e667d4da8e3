import ExprLang.Proofs.Ssa.Shape

/-!
# Parts of a function with one way in and one way out

Structured code is built in parts. A part starts in the block that is filled, makes blocks of
its own, which can only be entered from that block or from one another, and ends with a block
that can be filled further. Parts follow one another, and stand in the arms of a branch and in
the body of a loop.
-/

namespace ExprLang.Ssa

theorem Label.eq_iff {first second : Label} : first = second ↔ first.index = second.index := by
  cases first
  cases second
  simp

namespace Shape

variable {first middle last shape : Shape} {source target label other : Label}

/-- The block that is filled can be filled further. -/
structure Active (shape : Shape) (label : Label) : Prop where
  current : shape.current = some label
  inside : label.index < shape.blocks
  unfinished : ¬ shape.Terminated label

def Links (shape : Shape) (source target : Label) : Prop :=
  ∃ edge ∈ shape.predecessors target, edge.source = source

/-- Control can pass from one block to another. -/
abbrev Leads (shape : Shape) : Label → Label → Prop :=
  Relation.ReflTransGen shape.Links

/-! ## What is never undone -/

structure Before (first last : Shape) : Prop where
  blocks : first.blocks ≤ last.blocks
  script : ∀ label, first.script label <+: last.script label
  isSealed : ∀ label, first.isSealed label = true → last.isSealed label = true
  isPlaced : ∀ label, first.isPlaced label = true → last.isPlaced label = true
  predecessors : ∀ label, first.predecessors label <+: last.predecessors label

namespace Before

theorem refl (shape : Shape) : Before shape shape where
  blocks := Nat.le_refl _
  script _ := List.prefix_refl _
  isSealed _ holds := holds
  isPlaced _ holds := holds
  predecessors _ := List.prefix_refl _

theorem trans (left : Before first middle) (right : Before middle last) : Before first last where
  blocks := Nat.le_trans left.blocks right.blocks
  script label := (left.script label).trans (right.script label)
  isSealed label holds := right.isSealed label (left.isSealed label holds)
  isPlaced label holds := right.isPlaced label (left.isPlaced label holds)
  predecessors label := (left.predecessors label).trans (right.predecessors label)

theorem create (before : Before first shape) : Before first shape.create :=
  ⟨Nat.le_succ_of_le before.blocks, before.script, before.isSealed, before.isPlaced,
    before.predecessors⟩

theorem parameter (before : Before first shape) (label : Label) (value : Value) :
    Before first (shape.parameter label value) :=
  ⟨before.blocks, before.script, before.isSealed, before.isPlaced, before.predecessors⟩

theorem switch (before : Before first shape) (label : Label) :
    Before first (shape.switch label) where
  blocks := before.blocks
  script := before.script
  isSealed := before.isSealed
  isPlaced other holds := by
    by_cases same : other = label
    · simp [Shape.switch, same]
    · simp [Shape.switch, same, before.isPlaced other holds]
  predecessors := before.predecessors

theorem close (before : Before first shape) (label : Label) :
    Before first (shape.close label) where
  blocks := before.blocks
  script := before.script
  isSealed other holds := by
    by_cases same : other = label
    · simp [Shape.close, same]
    · simp [Shape.close, same, before.isSealed other holds]
  isPlaced := before.isPlaced
  predecessors := before.predecessors

theorem note (before : Before first shape) (label : Label) (event : Event) :
    Before first (shape.note label event) where
  blocks := before.blocks
  script other := by
    refine (before.script other).trans ?_
    by_cases same : other = label
    · subst same
      simp [Shape.note]
    · simp [Shape.note, same]
  isSealed := before.isSealed
  isPlaced := before.isPlaced
  predecessors := before.predecessors

theorem emit (before : Before first shape) (label : Label) (instruction : Instruction) :
    Before first (shape.emit label instruction) where
  blocks := before.blocks
  script := (before.note label (.instruction instruction)).script
  isSealed := before.isSealed
  isPlaced := before.isPlaced
  predecessors other := (before.predecessors other).trans (List.prefix_append _ _)

theorem terminated (before : Before first last) (terminated : first.Terminated label) :
    last.Terminated label := by
  obtain ⟨instruction, member, terminator⟩ := terminated
  obtain ⟨rest, equal⟩ := before.script label
  exact ⟨instruction, by simp [← equal, member], terminator⟩

theorem links (before : Before first last) (links : first.Links source target) :
    last.Links source target := by
  obtain ⟨edge, member, rfl⟩ := links
  exact ⟨edge, (before.predecessors target).subset member, rfl⟩

theorem leads (before : Before first last) (leads : first.Leads source target) :
    last.Leads source target :=
  Relation.ReflTransGen.mono (fun _ _ => before.links) _ _ leads

end Before

/-! ## What happens elsewhere -/

/-- The blocks below a bound are not changed, except that the script of one block may have
got longer. -/
structure Apart (bound : Nat) (source : Label) (first last : Shape) : Prop where
  script : ∀ label : Label, label.index < bound → label ≠ source →
    last.script label = first.script label
  isSealed : ∀ label : Label, label.index < bound → last.isSealed label = first.isSealed label
  isPlaced : ∀ label : Label, label.index < bound → last.isPlaced label = first.isPlaced label
  predecessors : ∀ label : Label, label.index < bound →
    last.predecessors label = first.predecessors label
  explicit : ∀ label : Label, label.index < bound → last.explicit label = first.explicit label

namespace Apart

variable {bound : Nat}

theorem refl (bound : Nat) (source : Label) (shape : Shape) : Apart bound source shape shape :=
  ⟨fun _ _ _ => rfl, fun _ _ => rfl, fun _ _ => rfl, fun _ _ => rfl, fun _ _ => rfl⟩

theorem trans (left : Apart bound source first middle) (right : Apart bound source middle last) :
    Apart bound source first last where
  script label inside different := by
    rw [right.script label inside different, left.script label inside different]
  isSealed label inside := by rw [right.isSealed label inside, left.isSealed label inside]
  isPlaced label inside := by rw [right.isPlaced label inside, left.isPlaced label inside]
  predecessors label inside := by
    rw [right.predecessors label inside, left.predecessors label inside]
  explicit label inside := by rw [right.explicit label inside, left.explicit label inside]

theorem weaken {smaller : Nat} (apart : Apart bound other first last) (less : smaller ≤ bound)
    (place : other = source ∨ smaller ≤ other.index) : Apart smaller source first last where
  script label inside different := by
    refine apart.script label (by omega) fun same => ?_
    rcases place with equal | outside
    · exact different (same.trans equal)
    · rw [same] at inside
      omega
  isSealed label inside := apart.isSealed label (by omega)
  isPlaced label inside := apart.isPlaced label (by omega)
  predecessors label inside := apart.predecessors label (by omega)
  explicit label inside := apart.explicit label (by omega)

theorem create (apart : Apart bound source first shape) : Apart bound source first shape.create :=
  ⟨apart.script, apart.isSealed, apart.isPlaced, apart.predecessors, apart.explicit⟩

theorem parameter (apart : Apart bound source first shape) (outside : bound ≤ label.index)
    (value : Value) : Apart bound source first (shape.parameter label value) where
  script := apart.script
  isSealed := apart.isSealed
  isPlaced := apart.isPlaced
  predecessors := apart.predecessors
  explicit other inside := by
    have different : other ≠ label := fun same => by rw [same] at inside; omega
    simp [Shape.parameter, different, apart.explicit other inside]

theorem switch (apart : Apart bound source first shape) (outside : bound ≤ label.index) :
    Apart bound source first (shape.switch label) where
  script := apart.script
  isSealed := apart.isSealed
  isPlaced other inside := by
    have different : other ≠ label := fun same => by rw [same] at inside; omega
    simp [Shape.switch, different, apart.isPlaced other inside]
  predecessors := apart.predecessors
  explicit := apart.explicit

theorem close (apart : Apart bound source first shape) (outside : bound ≤ label.index) :
    Apart bound source first (shape.close label) where
  script := apart.script
  isSealed other inside := by
    have different : other ≠ label := fun same => by rw [same] at inside; omega
    simp [Shape.close, different, apart.isSealed other inside]
  isPlaced := apart.isPlaced
  predecessors := apart.predecessors
  explicit := apart.explicit

theorem note (apart : Apart bound source first shape)
    (place : label = source ∨ bound ≤ label.index) (event : Event) :
    Apart bound source first (shape.note label event) where
  script other inside different := by
    have elsewhere : other ≠ label := fun same => by
      rcases place with equal | outside
      · exact different (same.trans equal)
      · rw [same] at inside
        omega
    simp [Shape.note, elsewhere, apart.script other inside different]
  isSealed := apart.isSealed
  isPlaced := apart.isPlaced
  predecessors := apart.predecessors
  explicit := apart.explicit

end Apart

theorem edgesTo_eq_nil {destinations : List Destination} (side : Nat)
    (elsewhere : ∀ destination ∈ destinations, destination.block ≠ target) :
    Builder.edgesTo source target side destinations = [] := by
  induction destinations generalizing side with
  | nil => rfl
  | cons destination rest induction =>
      rw [Builder.edgesTo, if_neg (elsewhere destination List.mem_cons_self)]
      exact induction _ fun later member => elsewhere later (List.mem_cons_of_mem _ member)

theorem Apart.emit {bound : Nat} (apart : Apart bound source first shape)
    (place : label = source ∨ bound ≤ label.index) {instruction : Instruction}
    (forward : ∀ destination ∈ instruction.operation.destinations,
      bound ≤ destination.block.index) :
    Apart bound source first (shape.emit label instruction) where
  script := (apart.note place (.instruction instruction)).script
  isSealed := apart.isSealed
  isPlaced := apart.isPlaced
  predecessors other inside := by
    have none : Builder.edgesTo label other 0 instruction.operation.destinations = [] := by
      refine edgesTo_eq_nil 0 fun destination member same => ?_
      have outside := forward destination member
      rw [same] at outside
      omega
    simp [Shape.emit, none, apart.predecessors other inside]
  explicit := apart.explicit

/-! ## Parts -/

/-- A block that belongs to a part: it can be entered from the block in which the part starts,
or from later blocks, and control can come to it. If there is only one way to enter it, that
comes from a block that was made earlier. -/
structure Inner (source : Label) (bound : Nat) (shape : Shape) (label : Label) : Prop where
  isPlaced : shape.isPlaced label = true
  isSealed : shape.isSealed label = true
  entered : ∀ edge ∈ shape.predecessors label, edge.source = source ∨ bound ≤ edge.source.index
  descends : ∀ edge, shape.predecessors label = [edge] → edge.source.index < label.index
  reached : shape.Leads source label

structure Flows (source target : Label) (first last : Shape) : Prop where
  before : Before first last
  apart : Apart first.blocks source first last
  active : last.Active target
  place : target = source ∨ first.blocks ≤ target.index
  left : target ≠ source → last.Terminated source
  inner : ∀ label : Label, first.blocks ≤ label.index → label.index < last.blocks →
    last.Inner source first.blocks label ∧ (label ≠ target → last.Terminated label)

namespace Inner

variable {bound : Nat}

theorem later (inner : first.Inner source bound label) (before : Before first last)
    (same : last.predecessors label = first.predecessors label) :
    last.Inner source bound label where
  isPlaced := before.isPlaced label inner.isPlaced
  isSealed := before.isSealed label inner.isSealed
  entered := by
    rw [same]
    exact inner.entered
  descends := by
    rw [same]
    exact inner.descends
  reached := before.leads inner.reached

theorem widen {smaller : Nat} (inner : shape.Inner other bound label) (less : smaller ≤ bound)
    (place : other = source ∨ smaller ≤ other.index) (leads : shape.Leads source other) :
    shape.Inner source smaller label where
  isPlaced := inner.isPlaced
  isSealed := inner.isSealed
  entered edge member := by
    rcases inner.entered edge member with same | outside
    · rw [same]
      exact place
    · exact .inr (by omega)
  descends := inner.descends
  reached := leads.trans inner.reached

end Inner

namespace Flows

theorem refl (active : shape.Active source) : Flows source source shape shape where
  before := .refl shape
  apart := .refl _ _ shape
  active := active
  place := .inl rfl
  left different := absurd rfl different
  inner label outside inside := by omega

theorem note (active : shape.Active source) {event : Event}
    (plain : ∀ instruction, event = .instruction instruction →
      instruction.isTerminator = false) :
    Flows source source shape (shape.note source event) where
  before := (Before.refl shape).note source event
  apart := (Apart.refl _ _ shape).note (.inl rfl) event
  active := by
    refine ⟨active.current, active.inside, ?_⟩
    rintro ⟨instruction, member, terminator⟩
    simp only [Shape.note, Function.update_self, mem_emitted, List.mem_append,
      List.mem_singleton] at member
    rcases member with old | new
    · exact active.unfinished ⟨instruction, mem_emitted.mpr old, terminator⟩
    · rw [plain instruction new.symm] at terminator
      cases terminator
  place := .inl rfl
  left different := absurd rfl different
  inner label outside inside := by
    simp only [Shape.note] at inside
    omega

theorem leads (flows : Flows source target first last) : last.Leads source target := by
  rcases flows.place with rfl | outside
  · exact .refl
  · exact (flows.inner target outside flows.active.inside).1.reached

theorem trans (left : Flows source other first middle)
    (right : Flows other target middle last) : Flows source target first last where
  before := left.before.trans right.before
  apart := left.apart.trans (right.apart.weaken left.before.blocks left.place)
  active := right.active
  place := by
    rcases right.place with rfl | outside
    · exact left.place
    · exact .inr (Nat.le_trans left.before.blocks outside)
  left different := by
    by_cases same : other = source
    · subst same
      exact right.left different
    · exact right.before.terminated (left.left same)
  inner label outside inside := by
    by_cases old : label.index < middle.blocks
    · obtain ⟨inner, terminated⟩ := left.inner label outside old
      refine ⟨inner.later right.before (right.apart.predecessors label old), fun different => ?_⟩
      by_cases same : label = other
      · subst same
        exact right.left (Ne.symm different)
      · exact right.before.terminated (terminated same)
    · obtain ⟨inner, terminated⟩ := right.inner label (by omega) inside
      exact ⟨inner.widen left.before.blocks left.place (right.before.leads left.leads),
        terminated⟩

theorem terminated (flows : Flows other target first middle) (before : Before middle last)
    (ended : last.Terminated target) : last.Terminated other := by
  by_cases same : target = other
  · rwa [← same]
  · exact before.terminated (flows.left same)

/-- A part within another one. -/
theorem nested (flows : Flows other target first middle) (before : Before middle last)
    (ended : last.Terminated target) {bound : Nat} (less : bound ≤ first.blocks)
    (place : bound ≤ other.index) (leads : last.Leads source other)
    (outside : first.blocks ≤ label.index) (inside : label.index < middle.blocks)
    (same : last.predecessors label = middle.predecessors label) :
    last.Inner source bound label ∧ last.Terminated label := by
  obtain ⟨inner, terminated⟩ := flows.inner label outside inside
  refine ⟨(inner.later before same).widen less (.inr place) leads, ?_⟩
  by_cases isEnd : label = target
  · rwa [isEnd]
  · exact before.terminated (terminated isEnd)

theorem bounded (flows : Flows source target first last) (less : bound ≤ source.index)
    (inside : source.index < first.blocks) : bound ≤ target.index := by
  rcases flows.place with rfl | outside
  · exact less
  · omega

end Flows

theorem Active.emit (active : shape.Active source) {instruction : Instruction}
    (plain : instruction.isTerminator = false) :
    (shape.emit source instruction).Active source := by
  rw [emit_of_plain shape source plain]
  exact (Flows.note active fun same equal => by cases equal; exact plain).active

/-! ## Branches that come together again -/

/-- A block ends in a jump, and another block, which cannot be entered from anywhere else, is
filled from now on. -/
def hop (shape : Shape) (source : Label) (operation : Operation) (target : Label) : Shape :=
  ((shape.emit source { results := [], operation }).switch target).close target

/-- Three blocks are made, the last of which has a parameter, and the block that is filled
ends in a branch to the first two. -/
def fork (shape : Shape) (source : Label) (test result : Value) : Shape :=
  (shape.create.create.create.parameter ⟨shape.blocks + 2⟩ result).hop source
    (.branch test ⟨⟨shape.blocks⟩, []⟩ ⟨⟨shape.blocks + 1⟩, []⟩) ⟨shape.blocks⟩

theorem Before.hop (before : Before first shape) (source : Label) (operation : Operation)
    (target : Label) : Before first (shape.hop source operation target) :=
  ((before.emit source { results := [], operation }).switch target).close target

theorem Before.fork (before : Before first shape) (source : Label) (test result : Value) :
    Before first (shape.fork source test result) :=
  (before.create.create.create.parameter _ _).hop _ _ _

theorem Apart.hop {bound : Nat} (apart : Apart bound source first shape)
    (place : label = source ∨ bound ≤ label.index) {operation : Operation}
    (forward : ∀ destination ∈ operation.destinations, bound ≤ destination.block.index)
    (outside : bound ≤ target.index) :
    Apart bound source first (shape.hop label operation target) :=
  ((apart.emit place forward).switch outside).close outside

theorem Apart.fork {bound : Nat} (apart : Apart bound source first shape)
    (place : label = source ∨ bound ≤ label.index) (less : bound ≤ shape.blocks)
    (test result : Value) : Apart bound source first (shape.fork label test result) := by
  refine (apart.create.create.create.parameter (by simp only; omega) result).hop place ?_ less
  simp only [Operation.destinations, List.mem_cons, List.not_mem_nil, or_false, forall_eq_or_imp,
    forall_eq]
  omega

section Hop

theorem terminated_hop {operation : Operation} (terminator : operation.isTerminator = true) :
    (shape.hop source operation target).Terminated source := by
  refine ⟨{ results := [], operation }, ?_, terminator⟩
  simp [hop, close, switch, emit, note]

variable (shape) (source target label) (operation : Operation)

@[simp] theorem blocks_hop : (shape.hop source operation target).blocks = shape.blocks := rfl

@[simp] theorem isPlaced_hop : (shape.hop source operation target).isPlaced target = true := by
  simp [hop, close, switch]

@[simp] theorem isSealed_hop : (shape.hop source operation target).isSealed target = true := by
  simp [hop, close, switch]

theorem predecessors_hop :
    (shape.hop source operation target).predecessors label =
      shape.predecessors label ++ Builder.edgesTo source label 0 operation.destinations := rfl

theorem script_hop (different : label ≠ source) :
    (shape.hop source operation target).script label = shape.script label := by
  simp [hop, close, switch, emit, note, different]

theorem active_hop (inside : target.index < shape.blocks) (different : target ≠ source)
    (empty : shape.script target = []) :
    (shape.hop source operation target).Active target where
  current := rfl
  inside := inside
  unfinished := by
    rintro ⟨instruction, member, _⟩
    rw [script_hop _ _ _ _ _ different, empty] at member
    cases member

end Hop

section Fork

variable {test result : Value}

@[simp] theorem blocks_fork : (shape.fork source test result).blocks = shape.blocks + 3 := rfl

theorem active_fork (bare : shape.Bare) (inside : source.index < shape.blocks) :
    (shape.fork source test result).Active ⟨shape.blocks⟩ := by
  refine active_hop _ _ _ _ (by simp only [parameter, create]; omega) ?_
    (bare.script _ (Nat.le_refl _))
  rw [ne_eq, Label.eq_iff]
  simp only
  omega

theorem predecessors_fork :
    (shape.fork source test result).predecessors label = shape.predecessors label ++
      Builder.edgesTo source label 0
        [⟨⟨shape.blocks⟩, []⟩, ⟨⟨shape.blocks + 1⟩, []⟩] := rfl

theorem script_fork (different : label ≠ source) :
    (shape.fork source test result).script label = shape.script label :=
  script_hop _ _ _ _ _ different

end Fork

/-- While the first arm of a branch is filled, the other new blocks stay empty. -/
theorem Flows.untouched (bare : first.Bare) (inside : source.index < first.blocks)
    {test result : Value} {onTrue : Shape} {leftEnd : Label}
    (leftArm : Flows ⟨first.blocks⟩ leftEnd (first.fork source test result) onTrue)
    (above : first.blocks < label.index) (below : label.index < first.blocks + 3) :
    label ≠ leftEnd ∧ onTrue.script label = [] := by
  have leftPlace : leftEnd = ⟨first.blocks⟩ ∨ first.blocks + 3 ≤ leftEnd.index := leftArm.place
  constructor
  · rintro rfl
    rcases leftPlace with same | outside
    · rw [same] at above
      exact Nat.lt_irrefl _ above
    · omega
  · rw [leftArm.apart.script label below (by rw [ne_eq, Label.eq_iff]; simp only; omega),
      script_fork (by rw [ne_eq, Label.eq_iff]; omega), bare.script label (by omega)]

/-- While the first arm of a branch is filled, the other new blocks are not sealed. -/
theorem Flows.unsealed_fork (bare : first.Bare) {test result : Value} {onTrue : Shape}
    {leftEnd : Label}
    (leftArm : Flows ⟨first.blocks⟩ leftEnd (first.fork source test result) onTrue)
    (above : first.blocks < label.index) (below : label.index < first.blocks + 3) :
    onTrue.isSealed label = false := by
  have different : label ≠ ⟨first.blocks⟩ := by
    rw [ne_eq, Label.eq_iff]
    exact Nat.ne_of_gt above
  have fresh := bare.isSealed label (Nat.le_of_lt above)
  rw [leftArm.apart.isSealed label below]
  simpa [fork, hop, close, switch, emit, Shape.note, parameter, create,
    Function.update_of_ne different] using fresh

theorem Flows.active_turn (bare : first.Bare) (inside : source.index < first.blocks)
    {test result : Value} {onTrue : Shape} {leftEnd : Label}
    (leftArm : Flows ⟨first.blocks⟩ leftEnd (first.fork source test result) onTrue)
    (operation : Operation) :
    (onTrue.hop leftEnd operation ⟨first.blocks + 1⟩).Active ⟨first.blocks + 1⟩ := by
  have more : first.blocks + 3 ≤ onTrue.blocks := leftArm.before.blocks
  obtain ⟨different, empty⟩ :=
    @Flows.untouched first source ⟨first.blocks + 1⟩ bare inside test result onTrue leftEnd leftArm
      (Nat.lt_succ_self _) (by simp)
  exact active_hop _ _ _ _ (by simp only; omega) different empty

/-- Only the ends of the arms lead to the block in which they come together. -/
theorem Flows.merged (bare : first.Bare) {test result left right : Value}
    {onTrue onFalse : Shape} {leftEnd rightEnd merge : Label}
    (third : merge = ⟨first.blocks + 2⟩)
    (leftArm : Flows ⟨first.blocks⟩ leftEnd (first.fork source test result) onTrue)
    (rightArm : Flows ⟨first.blocks + 1⟩ rightEnd
      (onTrue.hop leftEnd (.jump ⟨merge, [left]⟩) ⟨first.blocks + 1⟩) onFalse)
    (joined : last = onFalse.hop rightEnd (.jump ⟨merge, [right]⟩) merge) :
    last.predecessors merge = [⟨leftEnd, 0⟩, ⟨rightEnd, 0⟩] := by
  have more : first.blocks + 3 ≤ onTrue.blocks := leftArm.before.blocks
  have mergeIndex : merge.index = first.blocks + 2 := by rw [third]
  rw [joined, predecessors_hop,
    rightArm.apart.predecessors _ (by simp only [blocks_hop]; omega), predecessors_hop,
    leftArm.apart.predecessors _ (by simp only [blocks_fork]; omega), predecessors_fork,
    bare.predecessors _ (by omega), third]
  simp [Builder.edgesTo, Operation.destinations]

/-- The arms of a branch, which are filled one after the other before they come together. -/
structure Arms (source : Label) (first : Shape) where
  test : Value
  result : Value
  leftEnd : Label
  left : Value
  onTrue : Shape
  rightEnd : Label
  right : Value
  onFalse : Shape
  bare : first.Bare
  active : first.Active source
  leftArm : Flows ⟨first.blocks⟩ leftEnd (first.fork source test result) onTrue
  rightArm : Flows ⟨first.blocks + 1⟩ rightEnd
    (onTrue.hop leftEnd (.jump ⟨⟨first.blocks + 2⟩, [left]⟩) ⟨first.blocks + 1⟩) onFalse

namespace Arms

def merge (_ : Arms source first) : Label :=
  ⟨first.blocks + 2⟩

def joined (arms : Arms source first) : Shape :=
  arms.onFalse.hop arms.rightEnd (.jump ⟨arms.merge, [arms.right]⟩) arms.merge

variable (arms : Arms source first)

@[simp] theorem index_merge : arms.merge.index = first.blocks + 2 := rfl

theorem blocks_onTrue : first.blocks + 3 ≤ arms.onTrue.blocks :=
  arms.leftArm.before.blocks

theorem blocks_onFalse : arms.onTrue.blocks ≤ arms.onFalse.blocks :=
  arms.rightArm.before.blocks

theorem index_leftEnd : first.blocks ≤ arms.leftEnd.index :=
  arms.leftArm.bounded (Nat.le_refl _) (by simp only [blocks_fork]; omega)

theorem index_rightEnd : first.blocks ≤ arms.rightEnd.index := by
  have more := arms.blocks_onTrue
  exact arms.rightArm.bounded (Nat.le_succ _) (by simp only [blocks_hop]; omega)

/-! ### What is kept -/

theorem fromFalse : Before arms.onFalse arms.joined :=
  (Before.refl arms.onFalse).hop _ _ _

theorem fromTurn :
    Before (arms.onTrue.hop arms.leftEnd (.jump ⟨arms.merge, [arms.left]⟩) ⟨first.blocks + 1⟩)
      arms.joined :=
  arms.rightArm.before.trans arms.fromFalse

theorem fromTrue : Before arms.onTrue arms.joined :=
  ((Before.refl arms.onTrue).hop _ _ _).trans arms.fromTurn

theorem fromFork : Before (first.fork source arms.test arms.result) arms.joined :=
  arms.leftArm.before.trans arms.fromTrue

theorem apart : Apart first.blocks source first arms.joined := by
  have more := arms.blocks_onTrue
  have filled := ((Apart.refl first.blocks source first).fork (.inl rfl) (Nat.le_refl _) arms.test
    arms.result).trans (arms.leftArm.apart.weaken (by simp only [blocks_fork]; omega)
      (.inr (Nat.le_refl _)))
  have turned := (filled.hop (.inr arms.index_leftEnd) (by simp [Operation.destinations])
    (Nat.le_succ _)).trans (arms.rightArm.apart.weaken (by simp only [blocks_hop]; omega)
      (.inr (Nat.le_succ _)))
  exact turned.hop (.inr arms.index_rightEnd) (by simp [Operation.destinations])
    (Nat.le_add_right _ _)

theorem terminated_leftEnd : arms.joined.Terminated arms.leftEnd :=
  arms.fromTurn.terminated (terminated_hop rfl)

theorem terminated_rightEnd : arms.joined.Terminated arms.rightEnd :=
  terminated_hop rfl

/-! ### Ways into the new blocks -/

theorem leads_left : arms.joined.Leads source ⟨first.blocks⟩ :=
  .single (arms.fromFork.links
    ⟨⟨source, 0⟩, by simp [predecessors_fork, Builder.edgesTo], rfl⟩)

theorem leads_right : arms.joined.Leads source ⟨first.blocks + 1⟩ :=
  .single (arms.fromFork.links
    ⟨⟨source, 1⟩, by simp [predecessors_fork, Builder.edgesTo], rfl⟩)

theorem edgesTo_merge (different : label ≠ arms.merge) {value : Value} :
    Builder.edgesTo other label 0
      (Operation.jump ⟨arms.merge, [value]⟩).destinations = [] := by
  refine edgesTo_eq_nil 0 ?_
  simpa [Operation.destinations] using Ne.symm different

theorem predecessors_joined (old : label.index < arms.onTrue.blocks)
    (different : label ≠ arms.merge) :
    arms.joined.predecessors label = arms.onTrue.predecessors label := by
  rw [joined, predecessors_hop, arms.edgesTo_merge different, List.append_nil,
    arms.rightArm.apart.predecessors label old, predecessors_hop, ← merge,
    arms.edgesTo_merge different, List.append_nil]

theorem predecessors_forked (outside : first.blocks ≤ label.index)
    (inside : label.index < first.blocks + 2) :
    arms.joined.predecessors label = Builder.edgesTo source label 0
      [⟨⟨first.blocks⟩, []⟩, ⟨⟨first.blocks + 1⟩, []⟩] := by
  have more := arms.blocks_onTrue
  have different : label ≠ arms.merge := by
    rw [ne_eq, Label.eq_iff]
    exact Nat.ne_of_lt inside
  rw [arms.predecessors_joined (by omega) different,
    arms.leftArm.apart.predecessors label (by simp only [blocks_fork]; omega), predecessors_fork,
    arms.bare.predecessors label outside, List.nil_append]

theorem predecessors_merge :
    arms.joined.predecessors arms.merge = [⟨arms.leftEnd, 0⟩, ⟨arms.rightEnd, 0⟩] :=
  arms.leftArm.merged arms.bare rfl arms.rightArm rfl

/-! ### The new blocks -/

theorem script_merge : arms.onFalse.script arms.merge = [] := by
  have more := arms.blocks_onTrue
  obtain ⟨different, empty⟩ := arms.leftArm.untouched arms.bare arms.active.inside
    (show first.blocks < arms.merge.index by simp) (show arms.merge.index < _ by simp)
  rw [arms.rightArm.apart.script _ (by simp only [blocks_hop, index_merge]; omega)
      (by rw [ne_eq, Label.eq_iff]; simp),
    script_hop _ _ _ _ _ different, empty]

theorem active_merge : arms.joined.Active arms.merge := by
  have more := arms.blocks_onTrue
  have further := arms.blocks_onFalse
  have place : arms.rightEnd = ⟨first.blocks + 1⟩ ∨ arms.onTrue.blocks ≤ arms.rightEnd.index :=
    arms.rightArm.place
  have different : arms.merge ≠ arms.rightEnd := by
    rcases place with same | outside
    · rw [same, ne_eq, Label.eq_iff]
      simp
    · rw [ne_eq, Label.eq_iff, index_merge]
      omega
  exact active_hop _ _ _ _ (by rw [index_merge]; omega) different arms.script_merge

theorem inner_merge : arms.joined.Inner source first.blocks arms.merge where
  isPlaced := isPlaced_hop _ _ _ _
  isSealed := isSealed_hop _ _ _ _
  entered := by
    rw [arms.predecessors_merge]
    simp [arms.index_leftEnd, arms.index_rightEnd]
  descends := by
    rw [arms.predecessors_merge]
    simp
  reached := by
    refine (arms.leads_left.trans (arms.fromTrue.leads arms.leftArm.leads)).tail
      ⟨⟨arms.leftEnd, 0⟩, ?_, rfl⟩
    simp [arms.predecessors_merge]

theorem inner_left : arms.joined.Inner source first.blocks ⟨first.blocks⟩ := by
  have entered := arms.predecessors_forked (Nat.le_refl (⟨first.blocks⟩ : Label).index) (by simp)
  simp only [Builder.edgesTo, if_true, Label.mk.injEq, Nat.succ_ne_self, if_false] at entered
  exact ⟨arms.fromFork.isPlaced _ (isPlaced_hop _ _ _ _),
    arms.fromFork.isSealed _ (isSealed_hop _ _ _ _), by simp [entered],
    by simpa [entered] using arms.active.inside, arms.leads_left⟩

theorem inner_right : arms.joined.Inner source first.blocks ⟨first.blocks + 1⟩ := by
  have entered := arms.predecessors_forked (Nat.le_succ first.blocks) (Nat.lt_succ_self _)
  have inside := arms.active.inside
  simp only [Builder.edgesTo, if_true, Label.mk.injEq, Nat.ne_of_lt (Nat.lt_succ_self _),
    if_false] at entered
  refine ⟨arms.fromTurn.isPlaced _ (isPlaced_hop _ _ _ _),
    arms.fromTurn.isSealed _ (isSealed_hop _ _ _ _), by simp [entered], ?_, arms.leads_right⟩
  simp only [entered, List.cons.injEq, and_true, forall_eq']
  omega

theorem inner (outside : first.blocks ≤ label.index) (inside : label.index < arms.joined.blocks) :
    arms.joined.Inner source first.blocks label ∧
      (label ≠ arms.merge → arms.joined.Terminated label) := by
  have more := arms.blocks_onTrue
  by_cases isMerge : label = arms.merge
  · subst isMerge
    exact ⟨arms.inner_merge, absurd rfl⟩
  by_cases inRight : arms.onTrue.blocks ≤ label.index
  · obtain ⟨inner, terminated⟩ := arms.rightArm.nested arms.fromFalse arms.terminated_rightEnd
      (by simp only [blocks_hop]; omega) (Nat.le_succ _) arms.leads_right inRight inside
      (by rw [joined, predecessors_hop, arms.edgesTo_merge isMerge, List.append_nil])
    exact ⟨inner, fun _ => terminated⟩
  by_cases inLeft : first.blocks + 3 ≤ label.index
  · obtain ⟨inner, terminated⟩ := arms.leftArm.nested arms.fromTrue arms.terminated_leftEnd
      (by simp only [blocks_fork]; omega) (Nat.le_refl _) arms.leads_left inLeft (by omega)
      (arms.predecessors_joined (by omega) isMerge)
    exact ⟨inner, fun _ => terminated⟩
  have place : label = ⟨first.blocks⟩ ∨ label = ⟨first.blocks + 1⟩ := by
    rw [Label.eq_iff, index_merge] at isMerge
    rw [Label.eq_iff, Label.eq_iff]
    simp only
    omega
  rcases place with rfl | rfl
  · exact ⟨arms.inner_left,
      fun _ => arms.leftArm.terminated arms.fromTrue arms.terminated_leftEnd⟩
  · exact ⟨arms.inner_right,
      fun _ => arms.rightArm.terminated arms.fromFalse arms.terminated_rightEnd⟩

theorem flows : Flows source arms.merge first arms.joined where
  before := ((Before.refl first).fork source arms.test arms.result).trans arms.fromFork
  apart := arms.apart
  active := arms.active_merge
  place := .inr (Nat.le_add_right _ _)
  left _ := arms.fromFork.terminated (terminated_hop rfl)
  inner _ := arms.inner

end Arms

/-- The arms of a branch are parts, and so is the whole. -/
theorem Flows.conditional (bare : first.Bare) (active : first.Active source)
    {test result left right : Value} {onTrue onFalse : Shape} {leftEnd rightEnd merge : Label}
    (third : merge = ⟨first.blocks + 2⟩)
    (leftArm : Flows ⟨first.blocks⟩ leftEnd (first.fork source test result) onTrue)
    (rightArm : Flows ⟨first.blocks + 1⟩ rightEnd
      (onTrue.hop leftEnd (.jump ⟨merge, [left]⟩) ⟨first.blocks + 1⟩) onFalse)
    (joined : last = onFalse.hop rightEnd (.jump ⟨merge, [right]⟩) merge) :
    Flows source merge first last := by
  subst third joined
  exact Arms.flows ⟨test, result, leftEnd, left, onTrue, rightEnd, right, onFalse, bare, active,
    leftArm, rightArm⟩

/-! ## Loops -/

/-- Three blocks are made. The block that is filled ends in a jump to the first one, which
compares its parameter with a limit and ends in a branch to the others; the second one, which
has a parameter as well, is the first block of the body. -/
def enterLoop (shape : Shape) (source : Label) (limit counter round one done : Value) : Shape :=
  let header : Label := ⟨shape.blocks⟩
  let loop : Label := ⟨shape.blocks + 1⟩
  let exit : Label := ⟨shape.blocks + 2⟩
  let made := (shape.create.create.create.parameter header counter).parameter loop round
  let started := ((made.emit source ⟨[one], .constant .i64 1, []⟩).emit source
    ⟨[], .jump ⟨header, [one]⟩, []⟩).switch header
  (started.emit header ⟨[done], .compare .greater counter limit, []⟩).hop header
    (.branch done ⟨exit, []⟩ ⟨loop, [counter]⟩) loop

/-- The body of a loop ends in a jump to its start, and the block behind the loop is filled from
now on. -/
def leaveLoop (shape : Shape) (source : Label) (next : Value) (header exit : Label) : Shape :=
  (((shape.emit source ⟨[], .jump ⟨header, [next]⟩, []⟩).switch exit).close header).close exit

section Loop

variable {limit counter round one done next : Value}

@[simp] theorem blocks_enterLoop :
    (shape.enterLoop source limit counter round one done).blocks = shape.blocks + 3 := rfl

theorem Before.enterLoop (before : Before first shape) :
    Before first (shape.enterLoop source limit counter round one done) :=
  (((((before.create.create.create.parameter _ _).parameter _ _).emit _ _).emit _ _).switch
    _).emit _ _ |>.hop _ _ _

theorem Before.leaveLoop (before : Before first shape) {header exit : Label} :
    Before first (shape.leaveLoop source next header exit) :=
  (((before.emit _ _).switch _).close _).close _

theorem predecessors_enterLoop :
    (shape.enterLoop source limit counter round one done).predecessors label =
      shape.predecessors label ++
        Builder.edgesTo source label 0 [⟨⟨shape.blocks⟩, [one]⟩] ++
        Builder.edgesTo ⟨shape.blocks⟩ label 0
          [⟨⟨shape.blocks + 2⟩, []⟩, ⟨⟨shape.blocks + 1⟩, [counter]⟩] := by
  simp [enterLoop, hop, close, switch, emit, note, create, parameter, Operation.destinations,
    Builder.edgesTo]

theorem predecessors_leaveLoop {header exit : Label} :
    (shape.leaveLoop source next header exit).predecessors label =
      shape.predecessors label ++ Builder.edgesTo source label 0 [⟨header, [next]⟩] := rfl

theorem script_enterLoop (different : label ≠ source) (other : label ≠ ⟨shape.blocks⟩) :
    (shape.enterLoop source limit counter round one done).script label = shape.script label := by
  simp [enterLoop, hop, close, switch, emit, note, create, parameter, different, other]

theorem Apart.enterLoop {bound : Nat} (apart : Apart bound source first shape)
    (less : bound ≤ shape.blocks) :
    Apart bound source first (shape.enterLoop source limit counter round one done) := by
  have headerIndex : bound ≤ (⟨shape.blocks⟩ : Label).index := less
  have loopIndex : bound ≤ (⟨shape.blocks + 1⟩ : Label).index := Nat.le_succ_of_le less
  have made := (apart.create.create.create.parameter headerIndex counter).parameter loopIndex
    round
  refine Apart.hop (((made.emit (.inl rfl) ?_).emit (.inl rfl) ?_).switch headerIndex
    |>.emit (.inr headerIndex) ?_) (.inr headerIndex) ?_ loopIndex
  · simp [Operation.destinations]
  · simpa [Operation.destinations] using less
  · simp [Operation.destinations]
  simp only [Operation.destinations, List.mem_cons, List.not_mem_nil, or_false, forall_eq_or_imp,
    forall_eq]
  omega

theorem Apart.leaveLoop {bound : Nat} (apart : Apart bound source first shape)
    (place : bound ≤ label.index) {header exit : Label} (headerIndex : bound ≤ header.index)
    (exitIndex : bound ≤ exit.index) :
    Apart bound source first (shape.leaveLoop label next header exit) :=
  (((apart.emit (.inr place) (by simpa [Operation.destinations] using headerIndex)).switch
    exitIndex).close headerIndex).close exitIndex

theorem active_enterLoop (bare : shape.Bare) (inside : source.index < shape.blocks) :
    (shape.enterLoop source limit counter round one done).Active ⟨shape.blocks + 1⟩ := by
  have different : (⟨shape.blocks + 1⟩ : Label) ≠ source := by
    rw [ne_eq, Label.eq_iff]
    simp only
    omega
  refine ⟨rfl, by simp, ?_⟩
  rintro ⟨instruction, member, _⟩
  rw [script_enterLoop different (by simp), bare.script _ (by simp)] at member
  cases member

/-- While the body of a loop is filled, the other new blocks are not sealed. -/
theorem Flows.unsealed_loop (bare : first.Bare) {body : Shape} {bodyEnd : Label}
    (inLoop : Flows ⟨first.blocks + 1⟩ bodyEnd
      (first.enterLoop source limit counter round one done) body)
    (outside : first.blocks ≤ label.index) (below : label.index < first.blocks + 3)
    (different : label ≠ ⟨first.blocks + 1⟩) : body.isSealed label = false := by
  have fresh := bare.isSealed label outside
  rw [inLoop.apart.isSealed label below]
  simpa [enterLoop, hop, close, switch, emit, Shape.note, parameter, create,
    Function.update_of_ne different] using fresh

end Loop

structure Looped (source : Label) (first : Shape) where
  limit : Value
  counter : Value
  round : Value
  one : Value
  done : Value
  bodyEnd : Label
  next : Value
  body : Shape
  bare : first.Bare
  active : first.Active source
  inLoop : Flows ⟨first.blocks + 1⟩ bodyEnd
    (first.enterLoop source limit counter round one done) body

namespace Looped

def header (_ : Looped source first) : Label :=
  ⟨first.blocks⟩

def exit (_ : Looped source first) : Label :=
  ⟨first.blocks + 2⟩

def left (looped : Looped source first) : Shape :=
  looped.body.leaveLoop looped.bodyEnd looped.next looped.header looped.exit

variable (looped : Looped source first)

@[simp] theorem index_header : looped.header.index = first.blocks := rfl

@[simp] theorem index_exit : looped.exit.index = first.blocks + 2 := rfl

theorem blocks_body : first.blocks + 3 ≤ looped.body.blocks :=
  looped.inLoop.before.blocks

theorem index_bodyEnd : first.blocks + 1 ≤ looped.bodyEnd.index :=
  looped.inLoop.bounded (Nat.le_refl _) (by simp)

theorem header_ne_source : looped.header ≠ source := by
  have inside := looped.active.inside
  rw [ne_eq, Label.eq_iff, index_header]
  exact Nat.ne_of_gt inside

theorem exit_ne_bodyEnd : looped.exit ≠ looped.bodyEnd := by
  have place : looped.bodyEnd = ⟨first.blocks + 1⟩ ∨
      first.blocks + 3 ≤ looped.bodyEnd.index := looped.inLoop.place
  rw [ne_eq, Label.eq_iff, index_exit]
  rcases place with same | outside
  · rw [same]
    simp
  · omega

/-! ### What is kept -/

theorem fromBody : Before looped.body looped.left :=
  (Before.refl looped.body).leaveLoop

theorem fromEntry :
    Before (first.enterLoop source looped.limit looped.counter looped.round looped.one
      looped.done) looped.left :=
  looped.inLoop.before.trans looped.fromBody

theorem apart : Apart first.blocks source first looped.left := by
  have inner := ((Apart.refl first.blocks source first).enterLoop (Nat.le_refl _)).trans
    (looped.inLoop.apart.weaken (by simp only [blocks_enterLoop]; omega) (.inr (Nat.le_succ _)))
  have index := looped.index_bodyEnd
  exact inner.leaveLoop (by omega) (Nat.le_refl _) (Nat.le_add_right _ _)

theorem terminated_source : looped.left.Terminated source := by
  refine looped.fromEntry.terminated ⟨⟨[], .jump ⟨⟨first.blocks⟩, [looped.one]⟩, []⟩, ?_, rfl⟩
  have different : source ≠ ⟨first.blocks⟩ := looped.header_ne_source.symm
  simp [enterLoop, hop, close, switch, emit, Shape.note, create, parameter, different]

theorem terminated_header : looped.left.Terminated looped.header := by
  refine looped.fromEntry.terminated ⟨⟨[], .branch looped.done ⟨⟨first.blocks + 2⟩, []⟩
    ⟨⟨first.blocks + 1⟩, [looped.counter]⟩, []⟩, ?_, rfl⟩
  simp [enterLoop, hop, close, switch, emit, Shape.note, header]

theorem terminated_bodyEnd : looped.left.Terminated looped.bodyEnd := by
  refine ⟨⟨[], .jump ⟨looped.header, [looped.next]⟩, []⟩, ?_, rfl⟩
  simp [left, leaveLoop, close, switch, emit, Shape.note]

/-! ### Ways into the new blocks -/

theorem predecessors_left (different : label ≠ looped.header) :
    looped.left.predecessors label = looped.body.predecessors label := by
  rw [left, predecessors_leaveLoop, edgesTo_eq_nil 0 (by simpa using Ne.symm different),
    List.append_nil]

/-- The body leads to none of the new blocks. -/
theorem predecessors_body (outside : first.blocks ≤ label.index)
    (inside : label.index < first.blocks + 3) :
    looped.body.predecessors label =
      Builder.edgesTo source label 0 [⟨⟨first.blocks⟩, [looped.one]⟩] ++
        Builder.edgesTo ⟨first.blocks⟩ label 0
          [⟨⟨first.blocks + 2⟩, []⟩, ⟨⟨first.blocks + 1⟩, [looped.counter]⟩] := by
  rw [looped.inLoop.apart.predecessors label inside, predecessors_enterLoop,
    looped.bare.predecessors label outside, List.nil_append]

theorem predecessors_header :
    looped.left.predecessors looped.header = [⟨source, 0⟩, ⟨looped.bodyEnd, 0⟩] := by
  rw [left, predecessors_leaveLoop, looped.predecessors_body (by simp) (by simp)]
  simp [Builder.edgesTo, header]

theorem predecessors_loop :
    looped.left.predecessors ⟨first.blocks + 1⟩ = [⟨looped.header, 1⟩] := by
  rw [looped.predecessors_left (by rw [ne_eq, Label.eq_iff]; simp),
    looped.predecessors_body (by simp) (by simp)]
  simp [Builder.edgesTo, header]

theorem predecessors_exit :
    looped.left.predecessors looped.exit = [⟨looped.header, 0⟩] := by
  rw [looped.predecessors_left (by rw [ne_eq, Label.eq_iff]; simp),
    looped.predecessors_body (by simp) (by simp)]
  simp [Builder.edgesTo, header, exit]

theorem leads_header : looped.left.Leads source looped.header :=
  .single ⟨⟨source, 0⟩, by simp [looped.predecessors_header], rfl⟩

theorem leads_loop : looped.left.Leads source ⟨first.blocks + 1⟩ :=
  looped.leads_header.tail ⟨⟨looped.header, 1⟩, by simp [looped.predecessors_loop], rfl⟩

theorem leads_exit : looped.left.Leads source looped.exit :=
  looped.leads_header.tail ⟨⟨looped.header, 0⟩, by simp [looped.predecessors_exit], rfl⟩

/-! ### The new blocks -/

theorem script_exit : looped.left.script looped.exit = [] := by
  have inside := looped.active.inside
  simp only [left, leaveLoop, close, switch, emit, Shape.note,
    Function.update_of_ne looped.exit_ne_bodyEnd]
  rw [looped.inLoop.apart.script _ (by simp) (by rw [ne_eq, Label.eq_iff]; simp),
    script_enterLoop (by rw [ne_eq, Label.eq_iff, index_exit]; omega)
      (by rw [ne_eq, Label.eq_iff]; simp), looped.bare.script _ (by simp)]

theorem active_exit : looped.left.Active looped.exit where
  current := rfl
  inside := looped.blocks_body
  unfinished := by
    rintro ⟨instruction, member, _⟩
    rw [looped.script_exit] at member
    cases member

theorem inner_header : looped.left.Inner source first.blocks looped.header where
  isPlaced := looped.fromEntry.isPlaced _ (by
    simp [enterLoop, hop, close, switch, emit, Shape.note, header])
  isSealed := by simp [left, leaveLoop, close, Function.update_apply]
  entered := by
    have index := looped.index_bodyEnd
    rw [looped.predecessors_header]
    simp only [List.mem_cons, List.not_mem_nil, or_false, forall_eq_or_imp, forall_eq, true_or,
      true_and]
    exact .inr (by omega)
  descends := by simp [looped.predecessors_header]
  reached := looped.leads_header

theorem inner_loop : looped.left.Inner source first.blocks ⟨first.blocks + 1⟩ where
  isPlaced := looped.fromEntry.isPlaced _ (isPlaced_hop _ _ _ _)
  isSealed := looped.fromEntry.isSealed _ (isSealed_hop _ _ _ _)
  entered := by simp [looped.predecessors_loop]
  descends := by simp [looped.predecessors_loop]
  reached := looped.leads_loop

theorem inner_exit : looped.left.Inner source first.blocks looped.exit where
  isPlaced := by simp [left, leaveLoop, close, switch]
  isSealed := by simp [left, leaveLoop, close]
  entered := by simp [looped.predecessors_exit]
  descends := by simp [looped.predecessors_exit]
  reached := looped.leads_exit

theorem inner (outside : first.blocks ≤ label.index) (inside : label.index < looped.left.blocks) :
    looped.left.Inner source first.blocks label ∧
      (label ≠ looped.exit → looped.left.Terminated label) := by
  by_cases inBody : first.blocks + 3 ≤ label.index
  · obtain ⟨inner, terminated⟩ := looped.inLoop.nested looped.fromBody looped.terminated_bodyEnd
      (by simp only [blocks_enterLoop]; omega) (Nat.le_succ _) looped.leads_loop inBody inside
      (looped.predecessors_left (by rw [ne_eq, Label.eq_iff, index_header]; omega))
    exact ⟨inner, fun _ => terminated⟩
  have place : label = looped.header ∨ label = ⟨first.blocks + 1⟩ ∨ label = looped.exit := by
    rw [Label.eq_iff, Label.eq_iff, Label.eq_iff, index_header, index_exit]
    simp only
    omega
  rcases place with rfl | rfl | rfl
  · exact ⟨looped.inner_header, fun _ => looped.terminated_header⟩
  · exact ⟨looped.inner_loop,
      fun _ => looped.inLoop.terminated looped.fromBody looped.terminated_bodyEnd⟩
  · exact ⟨looped.inner_exit, absurd rfl⟩

theorem flows : Flows source looped.exit first looped.left where
  before := (Before.refl first).enterLoop.trans looped.fromEntry
  apart := looped.apart
  active := looped.active_exit
  place := .inr (Nat.le_add_right _ _)
  left _ := looped.terminated_source
  inner _ := looped.inner

end Looped

/-- The body of a loop is a part, and so is the whole. -/
theorem Flows.loop (bare : first.Bare) (active : first.Active source)
    {limit counter round one done next : Value} {body : Shape} {bodyEnd header exit : Label}
    (isHeader : header = ⟨first.blocks⟩) (isExit : exit = ⟨first.blocks + 2⟩)
    (inLoop : Flows ⟨first.blocks + 1⟩ bodyEnd
      (first.enterLoop source limit counter round one done) body)
    (finished : last = body.leaveLoop bodyEnd next header exit) :
    Flows source exit first last := by
  subst isHeader isExit finished
  exact Looped.flows ⟨limit, counter, round, one, done, bodyEnd, next, body, bare, active, inLoop⟩

end Shape

end ExprLang.Ssa
