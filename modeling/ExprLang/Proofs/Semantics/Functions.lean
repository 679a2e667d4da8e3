import ExprLang.Proofs.Lowering.Acceptance
import ExprLang.Proofs.Semantics.Expressions

/-!
# Compiled functions do what their definitions say

A function starts with the zeros for variables that are read before they are written, and its
parameters are given to their variables. Then its body is executed, and its value is returned.
-/

namespace ExprLang

open Ssa

def Evaluation.fill (count : Nat) : List Int64 → Evaluation σ Unit
  | [] => pure ()
  | word :: words => do
    .write count word
    fill (count + 1) words

theorem Evaluation.fill_eq (count : Nat) (words : List Int64) (store : Store σ) :
    Evaluation.fill count words store = .value () { store with
      cells := fun cell => if cell < count then store.cells cell
        else words.getD (cell - count) (store.cells cell) } := by
  induction words generalizing count store with
  | nil => simp [fill, Pure.pure]
  | cons word words induction =>
      change Evaluation.fill (count + 1) words
        { store with cells := Function.update store.cells count word } = _
      rw [induction]
      congr 2
      funext cell
      rcases Nat.lt_trichotomy cell count with below | rfl | above
      · simp [below, Nat.lt_succ_of_lt below, Function.update_of_ne (Nat.ne_of_lt below)]
      · simp
      · obtain ⟨more, rfl⟩ := Nat.exists_eq_add_of_lt above
        have first : count + more + 1 - (count + 1) = more := by omega
        have second : count + more + 1 - count = more + 1 := by omega
        simp [first, second, Function.update_of_ne (Nat.ne_of_gt above), Nat.not_lt.mpr
          (Nat.le_of_lt above), show ¬ count + more + 1 < count + 1 by omega]

theorem Evaluation.fill_bind (words : List Int64) (rest : Evaluation σ α) (memory : Memory)
    (host : σ) :
    (Evaluation.fill 0 words >>= fun _ => rest) ⟨fun _ => 0, memory, host⟩ =
      rest ⟨fun cell => words.getD cell 0, memory, host⟩ := by
  change (Evaluation.fill 0 words _).bind _ = _
  rw [Evaluation.fill_eq]
  simp [Answer.bind]

namespace Ssa

/-- The parameters of the first block hold the arguments. -/
theorem activate_holds {function : Function} {arguments : List Int64} {floor : Nat}
    {memory grown : Memory} {frame : Frame}
    (started : activate function arguments floor memory = .ok (frame, grown))
    (distinct : (function.block frame.block).parameters.Nodup)
    (count : (function.block frame.block).parameters.length = arguments.length) :
    List.Forall₂ (fun value word => frame.registers[value.index]? = some word)
      (function.block frame.block).parameters arguments := by
  obtain ⟨slots, entry, block, registers, -, -, found, written, rfl⟩ := activate_eq_ok.mp started
  have same : function.block entry = block := by
    rw [Function.block, found]
    rfl
  rw [← same] at written
  exact writeAll_of_nodup written distinct count

end Ssa

namespace Lowering

section Start

variable {environment : Environment σ} {final : Recording} {machine : Machine σ}
  {ahead : List (MachineType × Value)}

/-- The zeros in front of the entry are passed, and the parameters keep their words. -/
theorem passes_zeros (executed : Executed environment final)
    (faithful : Faithful firstBlock final machine.frame (final.script machine.frame.block)
      (fun _ => 0) ahead) (sane : machine.frame.Sane environment.module) :
    ∃ later, Machine.Reaches environment machine later ∧ Stays 0 machine later ∧
      Opens environment final machine.frame.block ⟨fun _ => 0, machine.memory, machine.host⟩
        later ∧
      ∀ value ∈ (final.builder.function.block machine.frame.block).parameters,
        later.frame.registers[value.index]? = machine.frame.registers[value.index]? := by
  induction ahead generalizing machine with
  | nil =>
      exact ⟨machine, .refl, .refl _ _, ⟨rfl, faithful, sane, rfl, rfl⟩, fun _ _ => rfl⟩
  | cons item ahead induction =>
      have rest := faithful.rest
      rw [List.map_cons, List.cons_append] at rest
      have inside : item.2.index < machine.frame.registers.size := by
        rw [sane.registers]
        exact (sane.equipped rest).results item.2 List.mem_cons_self
      have member := sane.member rest
      rw [faithful.function] at member
      have apart : ∀ value ∈ (final.builder.function.block machine.frame.block).parameters,
          value ∉ (Builder.zeroInstruction item.1 item.2).results := fun value parameter result =>
        List.disjoint_of_nodup_append (executed.finished.sound.single.block_nodup _) parameter
          (List.mem_flatMap.mpr ⟨_, member, result⟩)
      obtain ⟨frame, callers, depth, memory, steps, host⟩ := machine
      have step : Machine.step environment ⟨frame, callers, depth, memory, steps, host⟩ = _ :=
        (Machine.step_compute rest (executed.allowed (steps + 1)) rfl).trans (if_pos inside)
      have continues := Machine.continues_single rest rfl rfl 0
      have passed := faithful.zero continues (Array.getElem?_setIfInBounds_self_of_lt inside)
      have saneThen := sane.proceed rest rfl continues.size
      obtain ⟨later, reached, stays, opens, same⟩ := @induction
        ⟨_, callers, depth, memory, steps + 1, host⟩ passed saneThen
      refine ⟨later, .head step reached,
        ⟨stays.callers, stays.depth, stays.slots, stays.floor,
          fun _ below => absurd below (Nat.not_lt_zero _)⟩, opens, fun value parameter => ?_⟩
      exact (same value parameter).trans (continues.others value (apart value parameter))

end Start

section Bodies

variable {site : Site σ} {setting : Setting} {definition : TypedDefinition} {id : FunctionId}
  {declaration : Declaration} {first bound lowered last : Stage} {result : Value}
  {machine : Machine σ} {store : Store σ}

/-- Names that are bound one after the other get cells one after the other. -/
theorem BindsAll.simulates {names : List String} {values : List Value}
    (binds : BindsAll names values first last) (before : List Value) (facts : List Int64)
    {words : List Int64} (counts : values.length = words.length)
    (same : before.length = facts.length) :
    Simulates site first last (before ++ values) (facts ++ words) [] (fun _ => [])
      (Evaluation.fill first.variableCount words) := by
  induction binds generalizing before facts words with
  | nil =>
      cases List.length_eq_zero_iff.mp counts.symm
      exact .pure fun _ _ => .nil
  | @cons name names value values first middle last binds _ induction =>
      obtain _ | ⟨word, words⟩ := words
      · cases counts
      have count : middle.variableCount = first.variableCount + 1 := by rw [binds.same]
      refine Simulates.bind (binds.writes before.length (by simp) (by simp [same])) fun _ => ?_
      have rest := induction (before ++ [value]) (facts ++ [word]) (Nat.succ.inj counts)
        (by simp [same])
      simpa [count] using rest

/-- The code of a function up to its end does what the body of the definition says. -/
theorem Compiles.simulates (proper : site.Proper)
    (calls : ∀ name id, setting.callable.lookup name = some id →
      CallsAs site.environment site.activation.rounds site.patient site.depth id
        (site.activation.call name))
    (compiles : Compiles setting definition id declaration bound lowered result last)
    {arguments : List Int64}
    (count : arguments.length = declaration.prototype.parameters.length) :
    Simulates site (Stage.opened id declaration) lowered (Stage.inputs declaration) arguments
      [result] (fun word => [word]) (do
        Evaluation.fill 0 arguments
        definition.body.evaluate site.activation definition.parameterNames 0) := by
  obtain ⟨binds, lowers, -⟩ := compiles
  have slots : (Stage.opened id declaration).slots = [] := by
    have performs := (Stage.performs_opened id declaration).slots
    have reserved : (Stage.opening declaration).flatMap Deed.reserved = [] := by
      simp [Stage.opening, Deed.reserved]
    rw [reserved] at performs
    exact performs
  have opened : Placed setting [] 0 (Stage.opened id declaration) :=
    ⟨(Stage.ready_opened id declaration setting).tabled, by rw [slots]; rfl⟩
  have inside : Placed setting definition.parameterNames 0 bound := by
    have placed := binds.plots.placed (binds.tabled opened.tabled) opened
    rwa [List.append_nil] at placed
  have filled : Simulates site (Stage.opened id declaration) bound
      ([] ++ Stage.inputs declaration) ([] ++ arguments) [] (fun _ => [])
      (Evaluation.fill 0 arguments) :=
    binds.simulates [] [] (by simp [Stage.inputs, count]) rfl
  exact filled.bind fun _ => (lowers.simulates proper calls inside).weaken

/-- A machine is about to return a word from an activation. -/
structure Leaves (machine : Machine σ) (word : Int64) (store : Store σ) (later : Machine σ) :
    Prop where
  rest : ∃ value behind, later.frame.rest = ⟨[], .ret [value], []⟩ :: behind ∧
    later.frame.registers[value.index]? = some word
  callers : later.callers = machine.callers
  depth : later.depth = machine.depth
  floor : later.frame.floor = machine.frame.floor
  memory : later.memory = store.memory
  host : later.host = store.host

section Returns

variable {environment : Environment σ} {later : Machine σ} {word : Int64}

/-- The activation that waits for the word gets it. -/
theorem Leaves.returns (leaves : Leaves machine word store later) {caller : Frame}
    {callers : List (Frame × List Value)}
    (waiting : machine.callers = (caller, [result]) :: callers)
    (inside : result.index < caller.registers.size)
    (allowed : environment.exceeds (later.steps + 1) = false) :
    later.step environment = .next ⟨{ caller with
        registers := caller.registers.setIfInBounds result.index word }, callers,
      machine.depth - 1, store.memory.release machine.frame.floor, later.steps + 1,
      store.host⟩ := by
  obtain ⟨⟨value, behind, rest, holds⟩, same, depth, floor, memory, host⟩ := leaves
  rw [← depth, ← floor, ← memory, ← host]
  obtain ⟨frame, _, _, _, steps, _⟩ := later
  cases same.trans waiting
  have read : readAll frame.registers [value] = some [word] :=
    readAll_eq_some.mpr (.cons holds .nil)
  have written : writeAll caller.registers [result] [word] =
      some (caller.registers.setIfInBounds result.index word) := by
    rw [writeAll, if_pos inside]
    rfl
  exact (Machine.Effect.ret rest rfl read written).step allowed

theorem Leaves.ends (leaves : Leaves machine word store later) (outermost : machine.callers = [])
    (allowed : environment.exceeds (later.steps + 1) = false) :
    later.step environment = .halt ⟨.ok [word], later.steps + 1, store.host⟩ := by
  obtain ⟨⟨value, behind, rest, holds⟩, same, -, -, -, host⟩ := leaves
  rw [← host]
  obtain ⟨frame, _, _, _, steps, _⟩ := later
  cases same.trans outermost
  exact Machine.step_ret rest allowed rfl (readAll_eq_some.mpr (.cons holds .nil))

end Returns

/-- A function starts behind the zeros of its entry, with the arguments in its parameters. -/
theorem Compiles.starts (proper : site.Proper)
    (compiles : Compiles setting definition id declaration bound lowered result last)
    (same : site.final = last.recording) {arguments : List Int64}
    (count : arguments.length = declaration.prototype.parameters.length) {frame : Frame}
    {floor : Nat} {memory grown : Memory}
    (started : activate site.final.builder.function arguments floor memory = .ok (frame, grown))
    (sane : frame.Sane site.environment.module)
    (callers : List (Frame × List Value)) (steps : Nat) (host : σ) :
    ∃ later, Machine.Reaches site.environment
        ⟨frame, callers, site.depth, grown, steps, host⟩ later ∧
      Stays 0 ⟨frame, callers, site.depth, grown, steps, host⟩ later ∧
      Rests site.environment site.final (Stage.opened id declaration)
        ⟨fun _ => 0, grown, host⟩ later ∧
      Shows (Stage.opened id declaration) later (Stage.inputs declaration) arguments := by
  have finished := proper.executed.finished
  obtain ⟨-, bare, parameters⟩ := compiles.entered
  rw [← same] at bare parameters
  obtain ⟨block, faithful⟩ := Faithful.enter finished bare started
  have ahead : Faithful firstBlock site.final frame (site.final.script frame.block)
      (fun _ => 0) (site.final.zeros firstBlock) := by rwa [block]
  obtain ⟨later, reached, stays, opens, kept⟩ := @passes_zeros _ site.environment site.final
    ⟨frame, callers, site.depth, grown, steps, host⟩ _ proper.executed ahead sane
  change Opens site.environment site.final frame.block ⟨fun _ => 0, grown, host⟩ later at opens
  rw [block] at opens
  change ∀ value ∈ (site.final.builder.function.block frame.block).parameters,
    later.frame.registers[value.index]? = frame.registers[value.index]? at kept
  rw [block, parameters] at kept
  have distinct : (site.final.builder.function.block frame.block).parameters.Nodup :=
    (List.nodup_append.mp (finished.sound.single.block_nodup frame.block)).1
  have holds := activate_holds started distinct
    (by rw [block, parameters]; simp [Stage.inputs, count])
  rw [block, parameters] at holds
  refine ⟨later, reached, stays,
    opens.rests (by rw [Stage.shape_opened]) (by rw [Stage.shape_opened]), ?_⟩
  refine List.forall₂_iff_get.mpr ⟨holds.length_eq, fun index inside within => ⟨?_, ?_⟩⟩
  · obtain ⟨_, _, typed⟩ := forall₂_mem_left (Stage.haveTypes_opened id declaration)
      (List.get_mem (Stage.inputs declaration) ⟨index, inside⟩)
    exact Stage.HasType.index_lt typed
  · exact (kept _ (List.get_mem _ _)).trans
      ((List.forall₂_iff_get.mp holds).2 index inside within)

/-- An activation of a function does what the body of its definition says. -/
theorem Compiles.runs (proper : site.Proper)
    (calls : ∀ name id, setting.callable.lookup name = some id →
      CallsAs site.environment site.activation.rounds site.patient site.depth id
        (site.activation.call name))
    (compiles : Compiles setting definition id declaration bound lowered result last)
    (same : site.final = last.recording) {arguments : List Int64}
    (count : arguments.length = declaration.prototype.parameters.length) {frame : Frame}
    {floor : Nat} {memory grown : Memory}
    (started : activate site.final.builder.function arguments floor memory = .ok (frame, grown))
    (sane : frame.Sane site.environment.module)
    (seated : frame.slots = site.activation.slots.toArray)
    (callers : List (Frame × List Value)) (steps : Nat) (host : σ) :
    Realizes site.environment site.activation.rounds site.patient
      ⟨frame, callers, site.depth, grown, steps, host⟩
      (Leaves ⟨frame, callers, site.depth, grown, steps, host⟩)
      (definition.body.evaluate site.activation definition.parameterNames 0
        ⟨fun cell => arguments.getD cell 0, grown, host⟩) := by
  have simulates := compiles.simulates proper calls count
  have entry := compiles.entry
  rw [← same] at entry
  obtain ⟨later, reached, stays, rests, shows⟩ := compiles.starts proper same count started sane
    callers steps host
  obtain ⟨_, _, returns⟩ := compiles
  have active := Stage.active_opened id declaration
  have soundOpened := (Stage.ready_opened id declaration setting).sound
  have soundLowered := simulates.fills.reaches.sound soundOpened
  have ends : Ends lowered site.final := ⟨same ▸ returns.reaches.moves, soundLowered, entry⟩
  have ran := simulates.runs ends soundOpened active rests ⟨stays.depth, stays.slots.trans seated⟩
    shows
  rw [Evaluation.fill_bind] at ran
  refine (ran.mono ?_).reach reached
  intro word after final arrives
  have shape := returns.emit_shape arrives.rests.current
  obtain ⟨events, -, stands⟩ := arrives.rests.next
    (show _ = _ ++ [Event.instruction ⟨[], .ret [result], []⟩] by
      rw [shape]
      exact Function.update_self _ _ _)
    (by rw [same]; exact List.prefix_rfl)
  exact ⟨⟨result, _, stands.rest, arrives.shows.holds 0 rfl rfl⟩,
    arrives.stays.callers.trans stays.callers, arrives.stays.depth.trans stays.depth,
    arrives.stays.floor.trans stays.floor, stands.memory, stands.host⟩

end Bodies

end Lowering

end ExprLang
