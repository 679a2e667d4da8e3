import ExprLang.Proofs.Ssa.Independence

/-!
# Room for slots

A function is entered only if there are octets for all its slots. Then every slot has octets of
its own: they are zero, they start at a whole word, and no other slot of an activation that has
not ended has any of them. The room for a slot is computed in 32-bit arithmetic, and the rounding
of the seven largest sizes wraps around: such a slot gets no octets at all.
-/

namespace ExprLang.Ssa

/-! ## Rounding up to whole words -/

namespace Memory

variable {size : UInt32}

theorem dvd_slotRoom (size : UInt32) : 8 ∣ slotRoom size := by
  rw [slotRoom_eq_mod]
  exact Nat.dvd_mul_left _ _

theorem le_slotRoom (fits : size.toNat + 7 < 2 ^ 32) : size.toNat ≤ slotRoom size := by
  rw [slotRoom_eq_mod, Nat.mod_eq_of_lt fits]
  omega

theorem slotRoom_of_wraps (wraps : 2 ^ 32 ≤ size.toNat + 7) : slotRoom size = 0 := by
  have small := size.toNat_lt
  rw [slotRoom_eq_mod]
  omega

end Memory

def Function.room (function : Function) : Nat :=
  (function.slots.toList.map Memory.slotRoom).sum

theorem Function.slotStart_size (function : Function) (floor : Nat) :
    function.slotStart floor function.slots.size = floor + function.room := by
  rw [slotStart, room, ← Array.length_toList, List.take_length]

theorem Function.dvd_slotStart {function : Function} {floor : Nat} (aligned : 8 ∣ floor)
    (index : Nat) : 8 ∣ function.slotStart floor index := by
  refine Nat.dvd_add aligned (List.dvd_sum fun room member => ?_)
  obtain ⟨size, -, rfl⟩ := List.mem_map.mp member
  exact Memory.dvd_slotRoom size

/-! ## Taking octets into use -/

theorem allocateAll_eq_none_iff {memory : Memory} (small : memory.size ≤ Memory.capacity)
    {sizes : List UInt32} :
    allocateAll memory sizes = none ↔
      Memory.capacity < memory.size + (sizes.map Memory.slotRoom).sum := by
  induction sizes generalizing memory with
  | nil => simpa [allocateAll] using small
  | cons size sizes induction =>
      rw [allocateAll, Memory.allocate, List.map_cons, List.sum_cons]
      by_cases room : memory.size + Memory.slotRoom size ≤ Memory.capacity
      · have grown : Memory.size ⟨memory.octets ++ Array.replicate (Memory.slotRoom size) 0⟩ =
            memory.size + Memory.slotRoom size := by
          simp [Memory.size]
        have later := induction (grown.trans_le room)
        rw [grown, Nat.add_assoc] at later
        rw [← later]
        simp only [room, if_true, Option.bind_eq_bind, Option.bind_some]
        cases allocateAll ⟨memory.octets ++ Array.replicate (Memory.slotRoom size) 0⟩ sizes with
        | none => rfl
        | some allocated => simp
      · simp only [room, if_false, Option.bind_eq_bind, Option.bind_none, true_iff]
        omega

theorem allocateAll_octets {memory later : Memory} {sizes : List UInt32}
    {addresses : List Int64} (allocated : allocateAll memory sizes = some (addresses, later)) :
    later.octets =
      memory.octets ++ Array.replicate (sizes.map Memory.slotRoom).sum 0 := by
  induction sizes generalizing memory addresses with
  | nil =>
      cases allocated
      simp
  | cons size sizes induction =>
      simp only [allocateAll, Option.bind_eq_bind, Option.bind_eq_some_iff, Option.pure_def,
        Option.some.injEq, Prod.mk.injEq] at allocated
      obtain ⟨⟨address, middle⟩, first, ⟨others, last⟩, rest, rfl, rfl⟩ := allocated
      rw [Memory.allocate, Option.ite_none_right_eq_some, Option.some.injEq, Prod.mk.injEq]
        at first
      obtain ⟨_, _, rfl⟩ := first
      rw [induction rest, Array.append_assoc, List.map_cons, List.sum_cons,
        Array.replicate_append_replicate]

/-! ## Activations above each other -/

inductive Environment.Works (environment : Environment σ) : Execution σ → Prop
  | enter {interpreter later : Interpreter σ} {name : String} {id : FunctionId}
      {function : Function} {arguments : List Int64} {frame : Frame}
      (serves : environment.Serves interpreter)
      (named : environment.module.find? name = some id)
      (callee : environment.callee id = .body function)
      (entered : interpreter.enter function arguments = (.ok frame, later)) :
      Works environment ⟨frame, [], later⟩
  | step {execution later : Execution σ} (works : Works environment execution)
      (next : execution.step environment = .next later) : Works environment later

/-- An interpreter with the activations that have not ended, the innermost one first. -/
inductive Environment.Active (environment : Environment σ) : List Frame → Interpreter σ → Prop
  | idle {interpreter : Interpreter σ} (serves : environment.Serves interpreter) :
      Active environment [] interpreter
  | works {execution : Execution σ} (works : environment.Works execution) :
      Active environment (execution.frame :: execution.callers.map Prod.fst) execution.interpreter

theorem Environment.Works.mirrors {environment : Environment σ} {execution : Execution σ}
    (works : environment.Works execution) :
    ∃ machine, execution.Mirrors False machine ∧ machine.Stacked environment.module := by
  induction works with
  | @enter interpreter _ _ _ function arguments _ serves named callee entered =>
      obtain ⟨stack, depth, steps, host⟩ := interpreter
      have idle := serves.idle
      rcases Execution.enter_matches idle.shows function arguments depth steps host with
        ⟨_, _, refused, _⟩ | ⟨inner, grown, memory, left, right, shown, floor, _⟩
      · rw [refused] at entered
        cases entered
      · rw [left] at entered
        cases entered
        have none : depth = 0 := idle.depth
        obtain ⟨seated, -, size, -⟩ :=
          Frame.Seated.start (body?_of_callee callee) (Nat.zero_le _) right
        refine ⟨⟨_, [], depth + 1, memory, steps, host⟩,
          .intro shown ⟨?_, floor⟩ (congrArg (· + 1) none) (.inr ⟨rfl, rfl⟩),
          seated, size.symm, trivial⟩
        exact floor.trans_le (Nat.zero_le _)
  | step works next induction =>
      obtain ⟨machine, mirrors, stacked⟩ := induction
      have step := @Execution.Mirrors.step _ environment _ _ _ mirrors False.elim
      rw [next] at step
      generalize after : machine.step environment = other at step
      cases step with
      | next mirrors => exact ⟨_, mirrors, stacked.next after⟩

theorem Environment.Active.memory {environment : Environment σ} {frames : List Frame}
    {interpreter : Interpreter σ} (active : environment.Active frames interpreter) :
    ∃ memory, interpreter.stack.Shows memory ∧ Stacked environment.module memory.size frames ∧
      Grounded memory.size frames := by
  cases active with
  | idle serves => exact ⟨.empty, serves.idle.shows, trivial, rfl⟩
  | works works =>
      obtain ⟨machine, mirrors, stacked⟩ := works.mirrors
      obtain ⟨shows, grounded, -, -⟩ := mirrors
      exact ⟨_, shows, stacked, grounded⟩

theorem Environment.Active.depth {environment : Environment σ} {frames : List Frame}
    {interpreter : Interpreter σ} (active : environment.Active frames interpreter) :
    interpreter.depth = frames.length := by
  cases active with
  | idle serves => exact serves.idle.depth
  | works works =>
      obtain ⟨machine, mirrors, stacked⟩ := works.mirrors
      obtain ⟨-, -, entered, -⟩ := mirrors
      simpa using entered

theorem Stacked.aligned {module : Module} {top : Nat} {frames : List Frame}
    (stacked : Stacked module top frames) (grounded : Grounded top frames) : 8 ∣ top := by
  induction frames generalizing top with
  | nil =>
      obtain rfl : top = 0 := grounded
      exact Nat.dvd_zero 8
  | cons frame frames induction =>
      obtain ⟨_, rfl, others⟩ := stacked
      exact Function.dvd_slotStart (induction others grounded.2) _

/-! ## Octets of slots -/

/-- A slot of an activation starts so many octets behind the base, and has so many octets by its
size. -/
structure Frame.Extent (frame : Frame) (index start count : Nat) : Prop where
  size : (frame.function.slots[index]?).map UInt32.toNat = some count
  address : frame.slots[index]? = some (Memory.base + Int64.ofNat start)
  small : start ≤ Memory.capacity

namespace Frame.Extent

variable {module : Module} {frame : Frame} {index start count : Nat}

theorem index_lt (extent : frame.Extent index start count) :
    index < frame.function.slots.size := by
  obtain ⟨_, found, _⟩ := Option.map_eq_some_iff.mp extent.size
  exact (Array.getElem?_eq_some_iff.mp found).1

theorem within (extent : frame.Extent index start count) (seated : frame.Seated module)
    (fits : count + 7 < 2 ^ 32) :
    start = frame.function.slotStart frame.floor index ∧
      start + count ≤ frame.function.slotStart frame.floor (index + 1) ∧
      start + count ≤ frame.ceiling := by
  obtain ⟨size, found, rfl⟩ := Option.map_eq_some_iff.mp extent.size
  have below : frame.function.slotStart frame.floor (index + 1) ≤ frame.ceiling :=
    frame.function.slotStart_mono frame.floor extent.index_lt
  have placed := seated.slots index extent.index_lt
  have bounded := seated.bounded
  have next := Function.slotStart_succ found frame.floor
  have room := Memory.le_slotRoom fits
  rw [extent.address, Option.some.injEq] at placed
  have same := congrArg Memory.place placed
  rw [Memory.place_start extent.small, Memory.place_start (by omega)] at same
  exact ⟨same, by omega, by omega⟩

theorem apart {other otherStart otherCount : Nat} (extent : frame.Extent index start count)
    (extentToo : frame.Extent other otherStart otherCount) (seated : frame.Seated module)
    (fits : count + 7 < 2 ^ 32) (fitsToo : otherCount + 7 < 2 ^ 32) (different : other ≠ index) :
    start + count ≤ otherStart ∨ otherStart + otherCount ≤ start := by
  obtain ⟨rfl, ends, -⟩ := extent.within seated fits
  obtain ⟨rfl, endsToo, -⟩ := extentToo.within seated fitsToo
  rcases Nat.lt_or_gt_of_ne different with before | behind
  · exact .inr (endsToo.trans (frame.function.slotStart_mono frame.floor before))
  · exact .inl (ends.trans (frame.function.slotStart_mono frame.floor behind))

theorem below {frames : List Frame} {top : Nat} (extent : frame.Extent index start count)
    (stacked : Stacked module top frames) (member : frame ∈ frames)
    (fits : count + 7 < 2 ^ 32) : start + count ≤ top := by
  obtain ⟨above, deeper, rfl⟩ := List.append_of_mem member
  obtain ⟨lower, seated⟩ := stacked.ceiling_le
  exact (extent.within seated fits).2.2.trans lower

end Frame.Extent

/-- What a slot gets in an activation that is entered above some others: octets in use, at a whole
word, all of them zero, and none of them an octet of another slot. Slots for which rounding wraps
around do not count. -/
structure Frame.Reserves (frame : Frame) (callers : List Frame) (stack : Stack)
    (index start count : Nat) : Prop where
  extent : frame.Extent index start count
  aligned : 8 ∣ start
  inUse : start + count ≤ stack.top
  zero : ∀ place, start ≤ place → place < start + count → stack.octets[place]? = some 0
  others : ∀ other otherStart otherCount, frame.Extent other otherStart otherCount →
    otherCount + 7 < 2 ^ 32 → other ≠ index →
      start + count ≤ otherStart ∨ otherStart + otherCount ≤ start
  callers : ∀ caller ∈ callers, ∀ other otherStart otherCount,
    caller.Extent other otherStart otherCount → otherCount + 7 < 2 ^ 32 →
      otherStart + otherCount ≤ start

/-- Entering a function takes octets into use that are zero, if there are enough. -/
theorem Stack.Shows.enter {module : Module} {stack : Stack} {memory : Memory} {id : FunctionId}
    {function : Function} (shows : stack.Shows memory) (known : module.body? id = some function)
    (supports : module.Supports function) {arguments : List Int64}
    (count : arguments.length = function.prototype.parameters.length) {depth : Nat}
    (shallow : depth < maximalDepth) (steps : Nat) (host : σ) :
    (Memory.capacity < stack.top + function.room ∧
      (Interpreter.enter function arguments ⟨stack, depth, steps, host⟩).1 =
        .error (.trap function.name .stackOverflow)) ∨
    ∃ frame grown later,
      Interpreter.enter function arguments ⟨stack, depth, steps, host⟩ =
        (.ok frame, ⟨grown, depth + 1, steps, host⟩) ∧
      stack.top + function.room ≤ Memory.capacity ∧
      frame.function = function ∧ frame.Seated module ∧ frame.floor = stack.top ∧
      frame.ceiling = grown.top ∧ grown.Shows later ∧
      later.octets = memory.octets ++ Array.replicate function.room 0 := by
  have entering : Ssa.enter function arguments depth memory =
      activate function arguments memory.size memory := by
    rw [Ssa.enter, if_neg (not_not_intro count), if_neg shallow.not_ge]
  have matched := Execution.enter_matches shows function arguments depth steps host
  rw [entering] at matched
  rw [shows.top]
  have full := @allocateAll_eq_none_iff _ shows.small function.slots.toList
  rcases activate_cases supports count memory.size memory with
    ⟨missing, refused⟩ | ⟨slots, later, frame, allocated, started, -, same, -, floor⟩
  · refine .inl ⟨full.mp missing, ?_⟩
    rcases matched with ⟨fault, octets, left, right, _⟩ | ⟨_, _, _, _, right, _⟩
    · rw [refused] at right
      cases right
      rw [left]
    · rw [refused] at right
      cases right
  · right
    rcases matched with ⟨_, _, _, right, _⟩ | ⟨_, grown, _, left, right, shown, _⟩
    · rw [started] at right
      cases right
    · rw [started] at right
      cases right
      obtain ⟨seated, -, size, -⟩ := Frame.Seated.start known shows.small (entering.trans started)
      have room : memory.size + function.room ≤ Memory.capacity := by
        by_contra more
        rw [full.mpr (Nat.lt_of_not_le more)] at allocated
        cases allocated
      exact ⟨frame, grown, later, left, room, same, seated, floor, size.symm.trans shown.top.symm,
        shown, allocateAll_octets allocated⟩

/-- A slot of an activation that was just entered gets its octets. -/
theorem Frame.Seated.reserves {module : Module} {frame : Frame} (seated : frame.Seated module)
    {callers : List Frame} {stack : Stack} (stacked : Stacked module frame.floor callers)
    (aligned : 8 ∣ frame.floor) (top : frame.ceiling = stack.top)
    (zero : ∀ place, frame.floor ≤ place → place < stack.top → stack.octets[place]? = some 0)
    {index : Nat} {size : UInt32} (found : frame.function.slots[index]? = some size)
    (fits : size.toNat + 7 < 2 ^ 32) :
    frame.Reserves callers stack index (frame.function.slotStart frame.floor index) size.toNat := by
  have below : index < frame.function.slots.size := (Array.getElem?_eq_some_iff.mp found).1
  have start : frame.floor ≤ frame.function.slotStart frame.floor index := Nat.le_add_right _ _
  have ends : frame.function.slotStart frame.floor index ≤ frame.ceiling :=
    frame.function.slotStart_mono frame.floor below.le
  have extent : frame.Extent index (frame.function.slotStart frame.floor index) size.toNat :=
    ⟨by rw [found, Option.map_some], seated.slots index below, ends.trans seated.bounded⟩
  have inUse := (extent.within seated fits).2.2.trans_eq top
  exact {
    extent
    aligned := Function.dvd_slotStart aligned index
    inUse
    zero := fun place above under => zero place (start.trans above) (under.trans_le inUse)
    others := fun _ _ _ other fitsToo different => extent.apart other seated fits fitsToo different
    callers := fun _ member _ _ _ other fitsToo =>
      (other.below stacked member fitsToo).trans start }

/-- Whatever an interpreter has done before, it enters a function that its module has accepted if
there is room for the slots, and traps otherwise. Every slot gets octets of its own then, unless
its size is one of the seven for which rounding wraps around. -/
theorem slots_are_reserved {module : String} {requests : List Request}
    (allowed : (Workspace.empty module).AllowsAll requests) {environment : Environment σ}
    (same : environment.module = ((Workspace.empty module).handleAll requests).module)
    {frames : List Frame} {interpreter : Interpreter σ}
    (active : environment.Active frames interpreter) {id : FunctionId} {function : Function}
    (body : environment.module.body? id = some function) {arguments : List Int64}
    (count : arguments.length = function.prototype.parameters.length)
    (shallow : interpreter.depth < maximalDepth) (steps : Nat) (host : σ) :
    (Memory.capacity < interpreter.stack.top + function.room ∧
      (Interpreter.enter function arguments { interpreter with steps, host }).1 =
        .error (.trap function.name .stackOverflow)) ∨
    ∃ frame later, Interpreter.enter function arguments { interpreter with steps, host } =
        (.ok frame, later) ∧
      later.stack.top = interpreter.stack.top + function.room ∧
      later.stack.top ≤ later.stack.octets.size ∧ later.stack.octets.size = Memory.capacity ∧
      ∀ index size, function.slots[index]? = some size →
        (size.toNat + 7 < 2 ^ 32 →
          ∃ start, frame.Reserves frames later.stack index start size.toNat) ∧
        (2 ^ 32 ≤ size.toNat + 7 → Memory.slotRoom size = 0) := by
  have consistent : environment.module.Consistent := by
    rw [same]
    exact ((Workspace.Orderly.empty module).handleAll allowed).consistent
  obtain ⟨declaration, declared, attached⟩ := Option.bind_eq_some_iff.mp body
  have supports := (consistent id declaration function declared attached).1
  obtain ⟨memory, shows, stacked, grounded⟩ := active.memory
  obtain ⟨stack, depth, _, _⟩ := interpreter
  rcases shows.enter body supports count shallow steps host with
    full | ⟨frame, grown, later, entered, room, rfl, seated, floor, top, shown, octets⟩
  · exact .inl full
  · have ceiling : frame.ceiling = stack.top + frame.function.room := by
      rw [Frame.ceiling, Function.slotStart_size, floor]
    rw [← shows.top] at stacked grounded
    have aligned := floor ▸ stacked.aligned grounded
    refine .inr ⟨frame, _, entered, top.symm.trans ceiling, ?_, shown.whole, ?_⟩
    · rw [shown.whole, ← top]
      exact seated.bounded
    · intro index size found
      refine ⟨fun fits => ⟨_, seated.reserves (floor ▸ stacked) aligned top ?_ found fits⟩,
        Memory.slotRoom_of_wraps⟩
      intro place above below
      rw [floor, shows.top] at above
      rw [shown.top] at below
      refine (shown.agree place (Nat.zero_le _) below).trans ?_
      rw [octets, Array.getElem?_append_right above, Array.getElem?_replicate, if_pos]
      rw [Memory.size, octets, Array.size_append, Array.size_replicate] at below
      rw [Memory.size] at above
      omega

/-- A function with two slots, the first of which does not end at a whole word. -/
def roomy : List Request := [
  .declare "main" ⟨[], [.i64]⟩ .exported,
  .build ⟨0⟩,
  .command 0 .createBlock,
  .command 0 (.switchTo ⟨0⟩),
  .command 0 (.createSlot 12),
  .command 0 (.createSlot 8),
  .command 0 (.emit (.slotAddress ⟨1⟩ 0)),
  .command 0 (.emit (.load .i64 ⟨0⟩ 0)),
  .command 0 (.emit (.ret [⟨1⟩])),
  .command 0 .sealAll,
  .define ⟨0⟩ (some 0)]

def roomyEnvironment : Environment Unit where
  module := ((Workspace.empty "roomy").handleAll roomy).module
  host _ := none
  limit := none

/-- The function is entered, and entered again above itself. -/
theorem slots_are_reserved_roomy : (Workspace.empty "roomy").AllowsAll roomy ∧
    ∃ function outer inner, ∃ between later : Interpreter Unit,
      roomyEnvironment.module.body? ⟨0⟩ = some function ∧
      (Interpreter.start ()).enter function [] = (.ok outer, between) ∧
      between.enter function [] = (.ok inner, later) ∧
      later.stack.top = between.stack.top + 24 ∧
      ∃ start, inner.Reserves [outer] later.stack 0 start 12 := by
  have allowed : (Workspace.empty "roomy").AllowsAll roomy := by decide +kernel
  have same : roomyEnvironment.module = ((Workspace.empty "roomy").handleAll roomy).module := rfl
  have named : roomyEnvironment.module.find? "main" = some ⟨0⟩ := by decide +kernel
  obtain ⟨function, body, parts⟩ := Option.map_eq_some_iff.mp
    (show (roomyEnvironment.module.body? ⟨0⟩).map (fun function =>
        (function.prototype.parameters, function.slots.toList, function.room)) =
      some ([], [12, 8], 24) by decide +kernel)
  simp only [Prod.mk.injEq] at parts
  obtain ⟨parameters, slots, room⟩ := parts
  have found : function.slots[0]? = some 12 := by
    rw [← Array.getElem?_toList, slots]
    rfl
  have count : ([] : List Int64).length = function.prototype.parameters.length := by
    rw [parameters]
    rfl
  have new : roomyEnvironment.Serves (Interpreter.start ()) := .start ()
  have idle := Environment.Active.idle new
  rcases slots_are_reserved allowed same idle body count (by decide) 0 () with
    ⟨full, _⟩ | ⟨outer, between, first, top, _, _, _⟩
  · exact absurd full (by rw [room]; decide)
  · obtain ⟨declaration, declared, attached⟩ := Option.bind_eq_some_iff.mp body
    have callee : roomyEnvironment.callee ⟨0⟩ = .body function := by
      simp [Environment.callee, declared, attached]
    have works : roomyEnvironment.Works ⟨outer, [], between⟩ := .enter new named callee first
    have active := Environment.Active.works works
    have shallow : between.depth < maximalDepth := by
      rw [active.depth]
      exact (by decide : 1 < maximalDepth)
    rcases slots_are_reserved allowed same active body count shallow between.steps between.host with
      ⟨full, _⟩ | ⟨inner, later, second, topToo, _, _, reserved⟩
    · rw [room] at top full
      exact absurd full (by rw [top]; decide)
    · rw [room] at topToo
      exact ⟨allowed, function, outer, inner, between, later, body, first, second, topToo,
        (reserved 0 12 found).1 (by decide)⟩

/-- A function with a slot that is larger than the whole memory. -/
def huge : List Request := [
  .declare "main" ⟨[], [.i64]⟩ .exported,
  .build ⟨0⟩,
  .command 0 .createBlock,
  .command 0 (.switchTo ⟨0⟩),
  .command 0 (.createSlot 0xFFFFFFFF),
  .command 0 (.emit (.constant .i64 7)),
  .command 0 (.emit (.ret [⟨0⟩])),
  .command 0 .sealAll,
  .define ⟨0⟩ (some 0)]

/-- The function is entered, but there are not as many octets in use as the slot has. -/
theorem huge_slot_without_octets : ∃ function frame, ∃ later : Interpreter Unit,
    ((Workspace.empty "huge").handleAll huge).module.body? ⟨0⟩ = some function ∧
      function.slots[0]? = some 0xFFFFFFFF ∧
      (Interpreter.start ()).enter function [] = (.ok frame, later) ∧
      later.stack.top < (0xFFFFFFFF : UInt32).toNat := by
  have allowed : (Workspace.empty "huge").AllowsAll huge := by decide +kernel
  obtain ⟨function, body, parts⟩ := Option.map_eq_some_iff.mp
    (show (((Workspace.empty "huge").handleAll huge).module.body? ⟨0⟩).map (fun function =>
        (function.prototype.parameters, function.slots.toList, function.room)) =
      some ([], [0xFFFFFFFF], 0) by decide +kernel)
  simp only [Prod.mk.injEq] at parts
  obtain ⟨parameters, slots, room⟩ := parts
  have found : function.slots[0]? = some 0xFFFFFFFF := by
    rw [← Array.getElem?_toList, slots]
    rfl
  obtain ⟨declaration, declared, attached⟩ := Option.bind_eq_some_iff.mp body
  have supports := (((Workspace.Orderly.empty "huge").handleAll allowed).consistent _ _ _ declared
    attached).1
  rcases Stack.Shows.fresh.enter body supports (show [].length = _ by rw [parameters]; rfl)
      (show 0 < maximalDepth by decide) 0 () with
    ⟨full, _⟩ | ⟨frame, grown, _, entered, _, rfl, _, floor, top, _, _⟩
  · exact absurd full (by rw [room]; decide)
  · refine ⟨_, frame, _, body, found, entered, ?_⟩
    rw [← top, Frame.ceiling, Function.slotStart_size, floor, room]
    decide

end ExprLang.Ssa
