import ExprLang.Proofs.Ssa.Activation
import ExprLang.Proofs.Ssa.Availability

/-!
# Contents of variables at run time

While an accepted function is executed, the value that is known for a variable holds what the
variable was given last on the way there.
-/

namespace ExprLang.Ssa

def Recording.code (recording : Recording) (label : Label) (events : List Event) :
    List Instruction :=
  (emitted events).map (Instruction.extend fun side => recording.appended ⟨label, side⟩)

/-- An activation is at some point of the script of its block, with the zeros in `ahead` still
in front of it, and what is known of the variables agrees with their contents. -/
structure Faithful (entry : Label) (recording : Recording) (frame : Frame)
    (events : List Event) (contents : Variable → Int64) (ahead : List (MachineType × Value)) :
    Prop where
  function : frame.function = recording.builder.function
  reachable : recording.builder.function.Reachable frame.block
  size : frame.registers.size = recording.builder.function.values.size
  rest : frame.rest = ahead.map (fun zero => Builder.zeroInstruction zero.1 zero.2) ++
    recording.code frame.block events
  initial : ahead ≠ [] → frame.block = entry ∧ events = recording.script frame.block ∧
    contents = fun _ => 0
  holds : ∃ before, recording.script frame.block = before ++ events ∧
    ∀ var value, settle (recording.incoming frame.block) before var = some value →
      (∀ type, (type, value) ∉ ahead) →
        frame.registers[value.index]? = some (contents var)

theorem forall₂_parallel {first : α → β → Prop} {second : β → γ → Prop} {third : α → γ → Prop}
    {left : List α} {middle : List β} {right : List γ} (links : List.Forall₂ first left middle)
    (words : List.Forall₂ second middle right) (results : List.Forall₂ third left right) :
    ∀ item ∈ left, ∃ argument word, first item argument ∧ second argument word ∧
      third item word := by
  induction links generalizing right with
  | nil => simp
  | cons link _ induction =>
      cases words with
      | cons word words =>
          cases results with
          | cons result results =>
              intro item member
              rcases List.mem_cons.mp member with rfl | later
              · exact ⟨_, _, link, word, result⟩
              · exact induction words results item later

namespace Finished

variable {entry : Label} {recording : Recording}

theorem drop_point (finished : Finished entry recording) {label : Label}
    {before behind : List Event} (split : recording.script label = before ++ behind) :
    (recording.builder.function.block label).instructions.drop (recording.point label before) =
      recording.code label behind := by
  have whole : (recording.builder.function.block label).instructions =
      ((recording.zeros label).map (fun zero => Builder.zeroInstruction zero.1 zero.2) ++
        recording.code label before) ++ recording.code label behind := by
    rw [finished.sound.scripted.code label, split]
    simp [Recording.code]
  rw [whole, List.drop_left' (by simp [Recording.code, Recording.point])]

theorem passes_joined (finished : Finished entry recording) {label : Label} {edge : Edge}
    (member : edge ∈ (recording.builder.state label).predecessors) :
    List.Forall₂ (recording.Passes edge.source) (recording.joined label)
      (recording.appended edge) := by
  have closed := finished.closed label (finished.filled label (List.ne_nil_of_mem member))
  have length := finished.settled label edge member
  rw [Recording.due, closed, if_pos rfl] at length
  have passes := finished.reliable.arguments label edge member
  rw [length, List.take_length] at passes
  exact passes

section Arrival

variable {label : Label} {edge : Edge} {arguments : List Value} {registers later : Array Int64}
  {words : List Int64}

/-- A branch passes its own arguments for the explicit parameters, which come first. -/
theorem written (finished : Finished entry recording)
    (member : edge ∈ (recording.builder.state label).predecessors)
    (fits : List.Forall₂ recording.builder.function.SameType
      (arguments ++ recording.appended edge)
      (recording.builder.function.block label).parameters)
    (read : readAll registers (arguments ++ recording.appended edge) = some words)
    (written : writeAll registers (recording.builder.function.block label).parameters words =
      some later) :
    arguments.length = (recording.explicit label).length ∧
      List.Forall₂ (fun value word => later[value.index]? = some word)
        (recording.explicit label ++ (recording.joined label).map Prod.snd) words := by
  have passes := finished.passes_joined member
  have different : label ≠ entry := by
    intro same
    rw [same, finished.predecessors_entry] at member
    cases member
  have ordered := finished.reliable.ordered label different (.inr (List.ne_nil_of_mem member))
  have lengths := fits.length_eq
  have reads := readAll_eq_some.mp read
  have distinct : (recording.builder.function.block label).parameters.Nodup :=
    (List.nodup_append.mp (finished.sound.single.block_nodup label)).1
  have writes := writeAll_of_nodup written distinct (by rw [← lengths, reads.length_eq])
  rw [ordered] at lengths writes
  refine ⟨?_, writes⟩
  rw [List.length_append, List.length_append, List.length_map, passes.length_eq] at lengths
  omega

/-- After a branch the explicit parameters hold what the arguments held before. -/
theorem explicit_holds (finished : Finished entry recording)
    (member : edge ∈ (recording.builder.state label).predecessors)
    (fits : List.Forall₂ recording.builder.function.SameType
      (arguments ++ recording.appended edge)
      (recording.builder.function.block label).parameters)
    (read : readAll registers (arguments ++ recording.appended edge) = some words)
    (written : writeAll registers (recording.builder.function.block label).parameters words =
      some later) :
    List.Forall₂ (fun parameter argument =>
        later[parameter.index]? = registers[argument.index]?)
      (recording.explicit label) arguments := by
  obtain ⟨front, writes⟩ := finished.written member fits read written
  have reads := List.forall₂_take arguments.length (readAll_eq_some.mp read)
  have writes := List.forall₂_take arguments.length writes
  rw [List.take_left] at reads
  rw [front, List.take_left, ← front] at writes
  refine List.forall₂_iff_get.mpr ⟨front.symm, fun index inside within => ?_⟩
  have kept := (List.forall₂_iff_get.mp reads).2 index within (reads.length_eq ▸ within)
  have wrote := (List.forall₂_iff_get.mp writes).2 index inside (writes.length_eq ▸ inside)
  rw [wrote, kept]

/-- After a branch the parameters for variables hold what the variables held before. -/
theorem joined_holds (finished : Finished entry recording)
    (member : edge ∈ (recording.builder.state label).predecessors)
    (fits : List.Forall₂ recording.builder.function.SameType
      (arguments ++ recording.appended edge)
      (recording.builder.function.block label).parameters)
    (read : readAll registers (arguments ++ recording.appended edge) = some words)
    (written : writeAll registers (recording.builder.function.block label).parameters words =
      some later) {var : Variable} {value : Value}
    (joined : (var, value) ∈ recording.joined label) :
    ∃ argument word, recording.builder.known edge.source var = some argument ∧
      registers[argument.index]? = some word ∧ later[value.index]? = some word := by
  obtain ⟨front, writes⟩ := finished.written member fits read written
  have readsAdded := List.forall₂_drop arguments.length (readAll_eq_some.mp read)
  have writesJoined := List.forall₂_drop arguments.length writes
  rw [List.drop_left] at readsAdded
  rw [front, List.drop_left] at writesJoined
  rw [List.forall₂_map_left_iff, ← front] at writesJoined
  obtain ⟨argument, word, passed, holds, wrote⟩ := forall₂_parallel
    (finished.passes_joined member) readsAdded writesJoined (var, value) joined
  exact ⟨argument, word, passed, holds, wrote⟩

/-- What a variable had at the end of the only block in front still has its contents, because no
parameter is that value. -/
theorem alone_holds (finished : Finished entry recording) (handed : recording.HandsAvailable)
    (only : (recording.builder.state label).predecessors = [edge])
    (reached : recording.builder.function.Reachable label)
    (written : writeAll registers (recording.builder.function.block label).parameters words =
      some later)
    {before behind : List Event} (split : recording.script edge.source = before ++ behind)
    {var : Variable} {value : Value}
    (settled : settle (recording.incoming edge.source) before var = some value) :
    later[value.index]? = registers[value.index]? := by
  have available := finished.available_settled handed split settled
  have notEntry : recording.builder.function.entry? ≠ some label := by
    rw [finished.verified.first]
    intro equal
    cases equal
    rw [finished.predecessors_entry] at only
    cases only
  have elsewhere := finished.sound.single.not_mem_of_predecessor reached notEntry (by
    intro other leads
    obtain ⟨link, linked, rfl⟩ := finished.edge_of_next leads
    rw [only, List.mem_singleton] at linked
    rw [linked]) available
  exact writeAll_of_not_mem written fun parameter =>
    elsewhere (List.mem_append_left _ parameter)

end Arrival

end Finished

namespace Faithful

variable {entry : Label} {recording : Recording} {frame next : Frame} {events : List Event}
  {contents : Variable → Int64} {ahead : List (MachineType × Value)}

theorem define {var : Variable} {value : Value} {word : Int64}
    (faithful : Faithful entry recording frame (.define var value :: events) contents [])
    (holds : frame.registers[value.index]? = some word) :
    Faithful entry recording frame events (Function.update contents var word) [] where
  function := faithful.function
  reachable := faithful.reachable
  size := faithful.size
  rest := faithful.rest
  initial nonempty := absurd rfl nonempty
  holds := by
    obtain ⟨before, split, known⟩ := faithful.holds
    refine ⟨before ++ [.define var value], by simp [split], ?_⟩
    intro asked content settled absent
    rw [settle_append, settle_define, settle_nil] at settled
    by_cases same : asked = var
    · subst same
      rw [Function.update_self] at settled ⊢
      cases settled
      exact holds
    · rw [Function.update_of_ne same] at settled ⊢
      exact known asked content settled absent

theorem use {var : Variable} {value : Value}
    (faithful : Faithful entry recording frame (.use var value :: events) contents []) :
    Faithful entry recording frame events contents [] where
  function := faithful.function
  reachable := faithful.reachable
  size := faithful.size
  rest := faithful.rest
  initial nonempty := absurd rfl nonempty
  holds := by
    obtain ⟨before, split, known⟩ := faithful.holds
    refine ⟨before ++ [.use var value], by simp [split], ?_⟩
    intro asked content settled absent
    rw [settle_append, settle_use, settle_nil] at settled
    exact known asked content settled absent

theorem holds_use (finished : Finished entry recording) {var : Variable} {value : Value}
    (faithful : Faithful entry recording frame (.use var value :: events) contents []) :
    frame.registers[value.index]? = some (contents var) := by
  obtain ⟨before, split, known⟩ := faithful.holds
  exact known var value (finished.sound.tracked.uses _ before var value events split) (by simp)

theorem zero {item : MachineType × Value}
    (faithful : Faithful entry recording frame events contents (item :: ahead))
    (continues : Machine.Continues frame next (Builder.zeroInstruction item.1 item.2))
    (written : next.registers[item.2.index]? = some 0) :
    Faithful entry recording next events contents ahead := by
  obtain ⟨block, script, fresh⟩ := faithful.initial (List.cons_ne_nil item ahead)
  have rest := faithful.rest
  rw [continues.rest, List.map_cons, List.cons_append, List.cons.injEq] at rest
  obtain ⟨before, split, known⟩ := faithful.holds
  constructor
  · rw [continues.function]
    exact faithful.function
  · rw [continues.block]
    exact faithful.reachable
  · rw [continues.size]
    exact faithful.size
  · rw [rest.2, continues.block]
  · intro _
    rw [continues.block]
    exact ⟨block, script, fresh⟩
  · rw [continues.block]
    refine ⟨before, split, fun var value settled absent => ?_⟩
    by_cases same : value = item.2
    · rw [same, written, fresh]
    · rw [continues.others value (by simpa [Builder.zeroInstruction] using same)]
      refine known var value settled fun type member => ?_
      rcases List.mem_cons.mp member with new | old
      · exact same (congrArg Prod.snd new)
      · exact absent type old

/-- An instruction that only defines its results. -/
theorem advance (finished : Finished entry recording) (handed : recording.HandsAvailable)
    {instruction : Instruction}
    (faithful : Faithful entry recording frame (.instruction instruction :: events) contents [])
    (continues : Machine.Continues frame next
      (instruction.extend fun side => recording.appended ⟨frame.block, side⟩)) :
    Faithful entry recording next events contents [] := by
  have rest := faithful.rest
  rw [List.map_nil, List.nil_append, Recording.code, emitted_instruction, List.map_cons,
    continues.rest, List.cons.injEq] at rest
  obtain ⟨before, split, known⟩ := faithful.holds
  constructor
  · rw [continues.function]
    exact faithful.function
  · rw [continues.block]
    exact faithful.reachable
  · rw [continues.size]
    exact faithful.size
  · rw [rest.2, continues.block]
    rfl
  · intro nonempty
    exact absurd rfl nonempty
  · rw [continues.block]
    refine ⟨before ++ [.instruction instruction], by simp [split], ?_⟩
    intro var value settled absent
    rw [settle_append, settle_instruction, settle_nil] at settled
    have available := finished.available_settled handed split settled
    have elsewhere := finished.sound.single.not_mem_drop faithful.reachable available
    rw [finished.drop_point split, Recording.code, emitted_instruction, List.map_cons]
      at elsewhere
    rw [continues.others value fun member => elsewhere (List.mem_flatMap.mpr
      ⟨_, List.mem_cons_self, member⟩)]
    exact known var value settled absent

section Branch

variable {instruction : Instruction} {destination : Destination} {words : List Int64}

theorem mem_script
    (faithful : Faithful entry recording frame (.instruction instruction :: events) contents
      ahead) : instruction ∈ emitted (recording.script frame.block) := by
  obtain ⟨before, split, -⟩ := faithful.holds
  rw [mem_emitted, split]
  simp

/-- A branch leads along an edge, and nothing comes behind it in the script. -/
theorem edge_of_branch (finished : Finished entry recording)
    (faithful : Faithful entry recording frame (.instruction instruction :: events) contents [])
    (branches : Machine.Branches frame next
      (instruction.extend fun side => recording.appended ⟨frame.block, side⟩) destination words) :
    ∃ side original, instruction.operation.destinations[side]? = some original ∧
      ⟨original.block, original.arguments ++ recording.appended ⟨frame.block, side⟩⟩ =
        destination ∧
      ⟨frame.block, side⟩ ∈ (recording.builder.state next.block).predecessors ∧ events = [] := by
  obtain ⟨before, split, -⟩ := faithful.holds
  obtain ⟨side, chosen⟩ := List.mem_iff_getElem?.mp branches.leads
  rw [Instruction.extend, Operation.destinations_extend] at chosen
  obtain ⟨original, wanted, same⟩ := Option.map_eq_some_iff.mp chosen
  refine ⟨side, original, wanted, same, ?_, ?_⟩
  · refine (finished.sound.scripted.edges _ _).mpr
      ⟨instruction, faithful.mem_script, original, wanted, ?_⟩
    rw [branches.block, ← same]
  · refine finished.reliable.tidy _ before instruction events split ?_
    by_contra plain
    rw [Operation.destinations_eq_nil (by simpa [Instruction.isTerminator] using plain)] at wanted
    cases wanted

/-- A branch to another block. -/
theorem branch (finished : Finished entry recording) (handed : recording.HandsAvailable)
    (faithful : Faithful entry recording frame (.instruction instruction :: events) contents [])
    (branches : Machine.Branches frame next
      (instruction.extend fun side => recording.appended ⟨frame.block, side⟩) destination
      words) :
    Faithful entry recording next (recording.script next.block) contents [] := by
  obtain ⟨side, original, wanted, same, member, rfl⟩ := faithful.edge_of_branch finished branches
  obtain ⟨before, split, known⟩ := faithful.holds
  obtain ⟨block, found, rest, written⟩ := branches.found
  rw [faithful.function] at found
  have target : recording.builder.function.block next.block = block := by
    rw [branches.block, Function.block, found]
    rfl
  rw [← target] at written
  have heldThere : ∀ var value,
      recording.builder.known frame.block var = some value →
        settle (recording.incoming frame.block) before var = some value := by
    intro var value holds
    rw [finished.sound.tracked.known, split, settle_append] at holds
    exact holds
  have reached : recording.builder.function.Reachable next.block := by
    obtain ⟨earlier, trail⟩ := faithful.reachable
    exact ⟨frame.block :: earlier, .next _ _ _ trail
      (finished.sound.scripted.mem_successors.mpr ⟨_, member, rfl⟩)⟩
  have zeros := finished.zeros_eq_nil member
  constructor
  · rw [branches.function]
    exact faithful.function
  · exact reached
  · rw [writeAll_size written]
    exact faithful.size
  · rw [rest, ← target, finished.sound.scripted.code, zeros]
    rfl
  · intro nonempty
    exact absurd rfl nonempty
  · refine ⟨[], rfl, fun var value received _ => ?_⟩
    rw [settle_nil] at received
    rcases finished.reliable.sources next.block var value received with
      ⟨type, zero⟩ | ⟨_, edge, only, holds⟩ | joined
    · rw [zeros] at zero
      cases zero
    · rw [only, List.mem_singleton] at member
      subst member
      have before := heldThere var value holds
      rw [finished.alone_holds handed only reached written split before]
      exact known var value before (by simp)
    · have fits := (finished.leads faithful.mem_script wanted).fits
      rw [show original.block = next.block by rw [branches.block, ← same]] at fits
      have read := branches.read
      rw [← same] at read
      obtain ⟨argument, word, holds, contained, wrote⟩ :=
        finished.joined_holds member fits read written joined
      rw [known var argument (heldThere var argument holds) (by simp)] at contained
      rw [wrote, ← contained]

end Branch

theorem enter (finished : Finished entry recording) (bare : recording.joined entry = [])
    {arguments : List Int64} {floor : Nat} {memory grown : Memory}
    (started : activate recording.builder.function arguments floor memory = .ok (frame, grown)) :
    frame.block = entry ∧ Faithful entry recording frame (recording.script entry) (fun _ => 0)
      (recording.zeros entry) := by
  obtain ⟨slots, first, block, registers, _, isEntry, found, written, rfl⟩ :=
    activate_eq_ok.mp started
  rw [finished.verified.first] at isEntry
  cases isEntry
  have same : recording.builder.function.block entry = block := by
    rw [Function.block, found]
    rfl
  refine ⟨rfl, rfl, ⟨[], .entry entry finished.verified.first⟩, ?_, ?_, ?_, ?_⟩
  · rw [writeAll_size written]
    simp
  · rw [← same, finished.sound.scripted.code]
    rfl
  · intro _
    exact ⟨rfl, rfl, rfl⟩
  · refine ⟨[], rfl, fun var value received absent => ?_⟩
    rw [settle_nil] at received
    rcases finished.reliable.sources entry var value received with
      ⟨type, zero⟩ | ⟨_, edge, only, _⟩ | joined
    · exact absurd zero (absent type)
    · rw [finished.predecessors_entry] at only
      cases only
    · rw [bare] at joined
      cases joined

theorem length_rest
    (faithful : Faithful entry recording frame events contents ahead) :
    frame.rest.length = ahead.length + (emitted events).length := by
  rw [faithful.rest]
  simp [Recording.code]

end Faithful

namespace Visits

variable {entry : Label} {recording : Recording} {environment : Environment σ}
  {start machine later : Machine σ} {events : List Event} {contents : Variable → Int64}

theorem faithful (finished : Finished entry recording) (handed : recording.HandsAvailable)
    (initial : Faithful entry recording start.frame (recording.script start.frame.block)
      (fun _ => 0) (recording.zeros start.frame.block))
    (visits : Visits environment recording.script start machine events contents) :
    ∃ ahead, Faithful entry recording machine.frame events contents ahead := by
  induction visits with
  | enter => exact ⟨_, initial⟩
  | @skip machine later events contents visits early proceeds induction =>
      obtain ⟨ahead, faithful⟩ := induction
      have length := faithful.length_rest
      cases ahead with
      | nil =>
          rw [List.length_nil] at length
          omega
      | cons zero ahead =>
          obtain ⟨instruction, head, effect⟩ := proceeds.effect
          have rest := faithful.rest
          rw [List.map_cons, List.cons_append] at rest
          rw [rest, List.head?_cons, Option.some.injEq] at head
          subst head
          rcases effect with continues | ⟨destination, words, branches⟩
          · exact ⟨ahead, faithful.zero continues (proceeds.constant rest)⟩
          · have leads := branches.leads
            simp [Builder.zeroInstruction, Operation.destinations] at leads
  | @define machine var value events contents word visits here holds induction =>
      obtain ⟨ahead, faithful⟩ := induction
      have length := faithful.length_rest
      rw [emitted_define, here] at length
      cases List.length_eq_zero_iff.mp (show ahead.length = 0 by omega)
      exact ⟨[], faithful.define holds⟩
  | @use machine var value events contents visits here induction =>
      obtain ⟨ahead, faithful⟩ := induction
      have length := faithful.length_rest
      rw [emitted_use, here] at length
      cases List.length_eq_zero_iff.mp (show ahead.length = 0 by omega)
      exact ⟨[], faithful.use⟩
  | @instruction machine later instruction events contents visits here proceeds induction =>
      obtain ⟨ahead, faithful⟩ := induction
      have length := faithful.length_rest
      rw [emitted_instruction, List.length_cons, here] at length
      cases List.length_eq_zero_iff.mp (show ahead.length = 0 by omega)
      obtain ⟨executed, head, effect⟩ := proceeds.effect
      rw [faithful.rest, Recording.code, emitted_instruction, List.map_nil, List.nil_append,
        List.map_cons, List.head?_cons, Option.some.injEq] at head
      subst head
      rcases effect with continues | ⟨destination, words, branches⟩
      · have plain := continues.plain
        rw [Instruction.isTerminator_extend] at plain
        rw [plain]
        exact ⟨[], faithful.advance finished handed continues⟩
      · have terminator : instruction.isTerminator = true := by
          by_contra plain
          have leads := branches.leads
          rw [Instruction.extend, Operation.extend_of_destinations_eq_nil
            (Operation.destinations_eq_nil (by simpa [Instruction.isTerminator] using plain)),
            Operation.destinations_eq_nil (by simpa [Instruction.isTerminator] using plain)]
            at leads
          cases leads
        rw [terminator]
        exact ⟨[], faithful.branch finished handed branches⟩

/-- Values that are given to variables or read can be passed without a step. -/
theorem settled (finished : Finished entry recording) (handed : recording.HandsAvailable)
    (initial : Faithful entry recording start.frame (recording.script start.frame.block)
      (fun _ => 0) (recording.zeros start.frame.block))
    (visits : Visits environment recording.script start machine events contents) :
    ∃ events contents, Visits environment recording.script start machine events contents ∧
      ((emitted events).length < machine.frame.rest.length ∨ machine.frame.rest = [] ∨
        ∃ instruction behind, events = .instruction instruction :: behind ∧
          machine.frame.rest.length = (emitted behind).length + 1) := by
  obtain ⟨ahead, faithful⟩ := visits.faithful finished handed initial
  have length := faithful.length_rest
  induction events generalizing contents with
  | nil =>
      refine ⟨[], contents, visits, ?_⟩
      cases rest : machine.frame.rest with
      | nil => exact .inr (.inl rfl)
      | cons _ _ => exact .inl (by simp)
  | cons event events induction =>
      by_cases early : (emitted (event :: events)).length < machine.frame.rest.length
      · exact ⟨_, contents, visits, .inl early⟩
      · cases List.length_eq_zero_iff.mp (show ahead.length = 0 by omega)
        rw [List.length_nil, Nat.zero_add] at length
        cases event with
        | instruction instruction =>
            exact ⟨_, contents, visits, .inr (.inr ⟨instruction, events, rfl, by simp [length]⟩)⟩
        | define var value =>
            obtain ⟨before, split, _⟩ := faithful.holds
            have inside : value.index < machine.frame.registers.size := by
              obtain ⟨type, _, typed⟩ := finished.sound.typed.defines machine.frame.block var value
                (by rw [split]; simp)
              rw [faithful.size]
              simp only [Function.type?, Function.value?, Option.map_eq_some_iff] at typed
              obtain ⟨info, found, _⟩ := typed
              exact (Array.getElem?_eq_some_iff.mp found).1
            have holds : machine.frame.registers[value.index]? =
                some machine.frame.registers[value.index] := by simp [inside]
            exact induction (.define visits length holds) (faithful.define holds)
              (faithful.define holds).length_rest
        | use var value =>
            exact induction (.use visits length) faithful.use faithful.use.length_rest

/-- Every state that the activation comes to is visited. -/
theorem of_runs (finished : Finished entry recording) (handed : recording.HandsAvailable)
    (initial : Faithful entry recording start.frame (recording.script start.frame.block)
      (fun _ => 0) (recording.zeros start.frame.block))
    (visits : Visits environment recording.script start machine events contents)
    (runs : machine.Runs environment later) :
    ∃ events contents, Visits environment recording.script start later events contents := by
  have next : ∀ {machine middle : Machine σ} {events contents},
      Visits environment recording.script start machine events contents →
      machine.Proceeds environment middle →
      ∃ events contents, Visits environment recording.script start middle events contents := by
    intro machine middle events contents visits proceeds
    obtain ⟨events, contents, visits, early | empty | ⟨instruction, behind, rfl, here⟩⟩ :=
      visits.settled finished handed initial
    · exact ⟨_, _, .skip visits early proceeds⟩
    · obtain ⟨_, head, _⟩ := proceeds.effect
      rw [empty] at head
      cases head
    · exact ⟨_, _, .instruction visits here proceeds⟩
  induction runs generalizing events contents with
  | refl => exact ⟨events, contents, visits⟩
  | step first same _ induction =>
      obtain ⟨events, contents, visits⟩ := next visits (.inl ⟨first, same⟩)
      exact induction visits
  | call first deeper body back same _ _ induction =>
      obtain ⟨events, contents, visits⟩ :=
        next visits (.inr ⟨_, _, first, deeper, body, back, same⟩)
      exact induction visits

end Visits

/-! ## Functions built by commands -/

namespace Finished

variable {entry : Label} {recording : Recording}

theorem joined_entry (finished : Finished entry recording)
    (parameters : recording.builder.function.prototype.parameters.length ≤
      (recording.explicit entry).length) : recording.joined entry = [] := by
  have wanted := finished.verified.parameters.length_eq
  rw [(finished.sound.linked.parameters entry).length_eq, List.length_append,
    List.length_map] at wanted
  exact List.length_eq_zero_iff.mp (by omega)

end Finished

namespace History

/-- Every value that is handed in has a definition that dominates its place in the block. -/
def HandsAvailable (history : History) : Prop :=
  ∀ label before event behind, history.script label = before ++ event :: behind →
    ∀ value ∈ event.handed, history.builder.function.Available label
      ((history.builder.function.block label).instructions.length -
        (emitted (event :: behind)).length) value

theorem HandsAvailable.recording {recording : Recording} (sound : Sound recording)
    (available : recording.toHistory.HandsAvailable) : recording.HandsAvailable := by
  intro label before event behind split value member
  have place : recording.point label before =
      (recording.builder.function.block label).instructions.length -
        (emitted (event :: behind)).length := by
    rw [sound.scripted.code label, split, Recording.point, emitted_append, List.map_append]
    simp only [List.length_append, List.length_map]
    omega
  rw [place]
  exact available label before event behind split value member

/-- The recording of a function that was built by commands and accepted. -/
theorem exists_finished {id : FunctionId} {declaration : Declaration} {commands : List Command}
    {entry : Label}
    (accepted : ((start id declaration).performAll commands).builder.finalize = .ok ())
    (first : Function.entry? ((start id declaration).performAll commands).builder.function =
      some entry)
    (disciplined : (start id declaration).Disciplined entry commands)
    (parameters : .appendFunctionParameters entry ∈ commands) :
    ∃ recording : Recording,
      recording.toHistory = (start id declaration).performAll commands ∧
      Finished entry recording ∧ recording.joined entry = [] := by
  obtain ⟨good, closed, filled, other, verified⟩ := Builder.finalize_eq_ok.mp accepted
  obtain ⟨recording, equal, moves, settled, explicit⟩ := @performAll_moves (some entry)
    commands _ (Sound.start id declaration) (Recording.Settled.start id declaration) (by
      intro label same
      cases same
      exact disciplined) good
  have sound := (Sound.start id declaration).moves moves
  have reliable := (Recording.Reliable.start id declaration).moves (Sound.start id declaration)
    moves
  have builder : recording.builder = ((start id declaration).performAll commands).builder :=
    congrArg History.builder equal
  rw [← builder] at closed filled verified first
  rw [verified.first] at first
  cases first
  have finished : Finished entry recording :=
    ⟨sound, reliable, settled, verified, closed, filled⟩
  refine ⟨recording, equal, finished, finished.joined_entry ?_⟩
  rw [(Moves.grows moves).prototype]
  exact explicit entry parameters

end History

/-- Take any sequence of commands to a builder after which the function is accepted, with the
parameters of the function on the entry, in which the caller keeps to the rules for explicit
parameters and variables and hands in only values whose definition dominates the place of use.
Then in every activation of the function all states are reached along the scripts of the blocks,
and whenever control passes the point where a variable was read, the value that was returned
there holds what the variable was given last on the way in this activation, or zero. -/
theorem used_value_holds_last_definition (id : FunctionId) (declaration : Declaration)
    (commands : List Command) (history : History)
    (built : history = (History.start id declaration).performAll commands)
    (accepted : history.builder.finalize = .ok ()) (entry : Label)
    (first : history.builder.function.entry? = some entry)
    (parameters : .appendFunctionParameters entry ∈ commands)
    (disciplined : (History.start id declaration).Disciplined entry commands)
    (dominated : history.HandsAvailable) {σ : Type} (environment : Environment σ)
    (start : Machine σ) (arguments : List Int64) (floor : Nat) (memory grown : Memory)
    (started : activate history.builder.function arguments floor memory =
      .ok (start.frame, grown)) :
    (∀ machine, start.Runs environment machine →
      ∃ events contents, Visits environment history.script start machine events contents) ∧
    ∀ machine var value events contents,
      Visits environment history.script start machine (.use var value :: events) contents →
      machine.frame.rest.length = (emitted events).length →
        machine.frame.registers[value.index]? = some (contents var) := by
  subst built
  obtain ⟨recording, equal, finished, bare⟩ :=
    History.exists_finished accepted first disciplined parameters
  rw [← equal] at dominated started ⊢
  have handed := dominated.recording finished.sound
  obtain ⟨rfl, initial⟩ := Faithful.enter finished bare started
  constructor
  · intro machine runs
    exact Visits.of_runs finished handed initial .enter runs
  · intro machine var value events contents visits here
    obtain ⟨ahead, faithful⟩ := visits.faithful finished handed initial
    have length := faithful.length_rest
    rw [emitted_use, here] at length
    cases List.length_eq_zero_iff.mp (show ahead.length = 0 by omega)
    exact faithful.holds_use finished

def relayCommands : List Command :=
  [.createBlock, .createBlock, .appendFunctionParameters ⟨0⟩, .switchTo ⟨0⟩, .sealBlock ⟨0⟩,
    .declareVariable ⟨0⟩ .i64, .emit (.constant .i64 7), .defineVariable ⟨0⟩ ⟨0⟩,
    .emit (.jump ⟨⟨1⟩, []⟩), .switchTo ⟨1⟩, .useVariable ⟨0⟩, .sealBlock ⟨1⟩,
    .emit (.ret [⟨1⟩])]

def relayDeclaration : Declaration := ⟨"relay", ⟨[], [.i64]⟩, .internal, none⟩

def relay : History :=
  (History.start ⟨0⟩ relayDeclaration).performAll relayCommands

theorem relay_accepted : relay.builder.finalize = .ok () := by rfl

theorem relay_entry : relay.builder.function.entry? = some ⟨0⟩ := by rfl

theorem relay_disciplined :
    (History.start ⟨0⟩ relayDeclaration).Disciplined ⟨0⟩ relayCommands := by decide +kernel

theorem relay_handsAvailable : relay.HandsAvailable := by
  have here : ∀ label ∈ [(⟨0⟩ : Label), ⟨1⟩], ∀ index < (relay.script label).length,
      ∀ value ∈ ((relay.script label)[index]?.map Event.handed).getD [],
        value ∈ (relay.builder.function.block label).definedBefore
          ((relay.builder.function.block label).instructions.length -
            (emitted ((relay.script label).drop index)).length) := by decide +kernel
  obtain ⟨recording, equal, finished, _⟩ := History.exists_finished relay_accepted relay_entry
    relay_disciplined (by simp [relayCommands])
  intro label before event behind split value member
  have inside : label ∈ [(⟨0⟩ : Label), ⟨1⟩] := by
    have exist := finished.sound.scripted.existing label (by
      rw [equal]
      intro empty
      rw [show relay.script label = [] from empty] at split
      simp at split)
    rw [equal, ← relay] at exist
    have size : relay.builder.function.blocks.size = 2 := by rfl
    have small : label.index < 2 := by
      rw [← size]
      simpa [Builder.hasBlock] using exist
    obtain ⟨index⟩ := label
    rcases index with _ | _ | index
    · simp
    · simp
    · simp only at small
      omega
  have found := here label inside before.length (by simp [split]) value (by simp [split, member])
  rw [split, List.drop_left] at found
  exact .of_mem found

theorem used_value_holds_last_definition_relay :
    ∃ (environment : Environment Unit) (start machine : Machine Unit) (events : List Event)
      (contents : Variable → Int64),
      Visits environment relay.script start machine (.use ⟨0⟩ ⟨1⟩ :: events) contents ∧
        contents ⟨0⟩ = 7 ∧ machine.frame.registers[1]? = some (contents ⟨0⟩) := by
  let environment : Environment Unit := ⟨.empty "", fun _ => none, none⟩
  let body := relay.builder.function
  let start : Machine Unit :=
    ⟨⟨body, ⟨0⟩, (body.block ⟨0⟩).instructions, #[0, 0], #[], 0⟩, [], 1, .empty, 0, ()⟩
  let middle : Machine Unit :=
    ⟨⟨body, ⟨0⟩, (body.block ⟨0⟩).instructions.tail, #[7, 0], #[], 0⟩, [], 1, .empty, 1, ()⟩
  let last : Machine Unit :=
    ⟨⟨body, ⟨1⟩, (body.block ⟨1⟩).instructions, #[7, 7], #[], 0⟩, [], 1, .empty, 2, ()⟩
  have started : activate body [] 0 .empty = .ok (start.frame, .empty) := by rfl
  have entered : Visits environment relay.script start start (relay.script ⟨0⟩) _ := .enter
  have computed : Visits environment relay.script start middle
      [.define ⟨0⟩ ⟨0⟩, .instruction ⟨[], .jump ⟨⟨1⟩, []⟩, []⟩] fun _ => 0 :=
    .instruction entered (by rfl) (.inl ⟨by rfl, rfl⟩)
  have given : Visits environment relay.script start middle
      [.instruction ⟨[], .jump ⟨⟨1⟩, []⟩, []⟩] (Function.update (fun _ => 0) ⟨0⟩ 7) :=
    .define computed (by rfl) (by rfl)
  have reached : Visits environment relay.script start last
      [.use ⟨0⟩ ⟨1⟩, .instruction ⟨[], .ret [⟨1⟩], []⟩] (Function.update (fun _ => 0) ⟨0⟩ 7) :=
    .instruction given (by rfl) (.inl ⟨by rfl, rfl⟩)
  have holds := (used_value_holds_last_definition ⟨0⟩ relayDeclaration relayCommands relay rfl
    relay_accepted ⟨0⟩ relay_entry (by simp [relayCommands]) relay_disciplined
    relay_handsAvailable environment start [] 0 .empty .empty started).2 last ⟨0⟩ ⟨1⟩ _ _ reached
    (by rfl)
  exact ⟨environment, start, last, _, _, reached, by simp, holds⟩

end ExprLang.Ssa
