import ExprLang.Proofs.Ssa.Contents

/-!
# Ledgers of builders

A ledger is a history that also lists the parameters of each block that the caller has asked for,
so that the other parameters are known to stand for variables. Main statement: whatever commands
are given in whatever order, as long as nothing was done wrong the blocks, the edges, the values
of variables and the arguments of branches agree with each other.
-/

namespace ExprLang.Ssa

/-! ## Ledgers -/

/-- A history with the parameters of each block that the caller has asked for. -/
structure Ledger extends History where
  asked : Label → List Value

namespace Ledger

def start (id : FunctionId) (declaration : Declaration) : Ledger :=
  ⟨.start id declaration, fun _ => []⟩

def parameters (ledger : Ledger) (label : Label) : List Value :=
  (ledger.builder.function.block label).parameters

/-- The ledger after a command. If the command asks for parameters of a block, these are the ones
that the block has now and did not have before. -/
def perform (ledger : Ledger) (command : Command) : Ledger :=
  let later : Ledger := { ledger with toHistory := ledger.toHistory.perform command }
  match command.widens with
  | none => later
  | some label =>
    { later with
      asked := Function.update ledger.asked label
        (ledger.asked label ++ (later.parameters label).drop (ledger.parameters label).length) }

def performAll (ledger : Ledger) (commands : List Command) : Ledger :=
  commands.foldl perform ledger

def introduced (ledger : Ledger) (label : Label) : List Value :=
  (ledger.parameters label).filter fun value => !(ledger.asked label).contains value

end Ledger

/-! ## Parameters and arguments for variables -/

namespace Recording

variable {recording later : Recording}

def ledger (recording : Recording) : Ledger :=
  ⟨recording.toHistory, recording.explicit⟩

theorem not_mem_parameters (single : recording.builder.function.SingleAssignment)
    (label : Label) : recording.builder.nextValue ∉
      (recording.builder.function.block label).parameters := by
  intro member
  exact Nat.lt_irrefl _ (single.parameter_lt member)

/-- The parameters that nobody asked for are those that stand for variables, in the order in which
they were made, and the arguments that were added to a branch are for the first of them. -/
structure Matched (recording : Recording) : Prop where
  introduced : ∀ label, recording.ledger.introduced label =
    (recording.joined label).map Prod.snd
  appended : ∀ label, ∀ edge ∈ (recording.builder.state label).predecessors,
    ∀ (index : Nat) (value : Value), (recording.appended edge)[index]? = some value →
      ∃ (var : Variable) (param : Value), (recording.joined label)[index]? = some (var, param) ∧
        recording.Suits var value

namespace Matched

theorem start (id : FunctionId) (declaration : Declaration) :
    (Recording.start id declaration).Matched := by
  constructor
  · intro label
    simp [ledger, Ledger.introduced, Ledger.parameters, Recording.start, History.start,
      Builder.start, Function.start, Function.block, Function.block?, Block.empty]
  · intro label edge member
    simp [Recording.start, History.start, Builder.start, Builder.state, BlockState.fresh] at member

/-- A new parameter that nobody asked for. -/
theorem introduced_joined (matched : recording.Matched) (sound : Sound recording) {label : Label}
    (inside : recording.builder.hasBlock label = true) (var : Variable) (type : MachineType)
    (other : Label) :
    ((recording.builder.withParameter label type).function.block other).parameters.filter
        (fun value => !(recording.explicit other).contains value) =
      (Function.update recording.joined label
        (recording.joined label ++ [(var, recording.builder.nextValue)]) other).map Prod.snd := by
  have before : ((recording.builder.function.block other).parameters.filter
      fun value => !(recording.explicit other).contains value) =
          (recording.joined other).map Prod.snd :=
    matched.introduced other
  rw [Builder.block_withParameter _ _ _ _ inside]
  by_cases same : other = label
  · subst same
    have fresh : recording.builder.nextValue ∉ recording.explicit other := fun member =>
      not_mem_parameters sound.single other (sound.linked.mem_explicit member)
    simp only [if_true, Function.update_self, List.filter_append, before, List.map_append]
    simp [fresh]
  · simp only [same, if_false, Function.update_of_ne same]
    exact before

theorem introduced_same (matched : recording.Matched)
    (parameters : ∀ label, (later.builder.function.block label).parameters =
      (recording.builder.function.block label).parameters)
    (explicit : later.explicit = recording.explicit) (joined : later.joined = recording.joined) :
    ∀ label, later.ledger.introduced label = (later.joined label).map Prod.snd := by
  intro label
  have same : later.ledger.introduced label = recording.ledger.introduced label := by
    simp only [Ledger.introduced, Ledger.parameters, ledger]
    rw [parameters, explicit]
  rw [same, joined]
  exact matched.introduced label

/-- More parameters for variables do not change what the arguments are for. -/
theorem appended_grows (matched : recording.Matched) (grows : Grows recording later)
    (same : later.appended = recording.appended)
    (edges : ∀ label, (later.builder.state label).predecessors =
      (recording.builder.state label).predecessors) :
    ∀ label, ∀ edge ∈ (later.builder.state label).predecessors,
      ∀ (index : Nat) (value : Value), (later.appended edge)[index]? = some value →
        ∃ (var : Variable) (param : Value), (later.joined label)[index]? = some (var, param) ∧
          later.Suits var value := by
  intro label edge member index value found
  rw [edges] at member
  rw [same] at found
  obtain ⟨var, param, joined, suits⟩ := matched.appended label edge member index value found
  obtain ⟨more, equal⟩ := grows.joined label
  have inside := (List.getElem?_eq_some_iff.mp joined).1
  refine ⟨var, param, ?_, suits.grows grows⟩
  rw [← equal, List.getElem?_append_left inside, joined]

theorem resolve (matched : recording.Matched) (sound : Sound recording)
    (step : Resolve recording later) : later.Matched := by
  have grows := step.grows
  cases step with
  | pend label var type inside unsealed unknown fresh declared =>
      exact ⟨matched.introduced_joined sound inside var type,
        matched.appended_grows grows rfl fun other => by simp [pend]⟩
  | zero label var type inside closed alone unknown fresh declared =>
      exact ⟨matched.introduced_same (fun other => by simp [zero]) rfl rfl,
        matched.appended_grows grows rfl fun other => by simp [zero]⟩
  | inherit label var edge value inside closed only source fresh =>
      exact ⟨matched.introduced, matched.appended_grows grows rfl fun other => by simp [inherit]⟩
  | join label var type inside closed several unknown fresh declared =>
      exact ⟨matched.introduced_joined sound inside var type,
        matched.appended_grows grows rfl fun other => by simp [join]⟩
  | pass label edge var param content member next source =>
      constructor
      · exact matched.introduced_same (fun other => by simp [pass]) rfl rfl
      · intro other branch inside index value found
        by_cases same : branch = edge
        · subst same
          cases sound.scripted.target_unique member inside
          simp only [pass, Function.update_self] at found
          by_cases early : index < (recording.appended branch).length
          · rw [List.getElem?_append_left early] at found
            exact matched.appended label branch member index value found
          · rw [List.getElem?_append_right (Nat.not_lt.mp early),
              List.getElem?_singleton] at found
            split at found
            · cases found
              have equal : index = (recording.appended branch).length := by omega
              rw [equal]
              exact ⟨var, param, next, (sound.typed.known sound.tracked source).grows grows⟩
            · cases found
        · simp only [pass, Function.update_of_ne same] at found
          exact matched.appended other branch inside index value found

theorem move {entry : Option Label} (matched : recording.Matched) (sound : Sound recording)
    (step : Move entry recording later) : later.Matched := by
  have grows := step.grows
  cases step with
  | resolve step => exact matched.resolve sound step
  | create =>
      exact ⟨matched.introduced_same (fun other => by simp [create]) rfl rfl,
        matched.appended_grows grows rfl fun other => by simp [create]⟩
  | switch label inside left =>
      exact ⟨matched.introduced_same (fun other => by simp [switch]) rfl rfl,
        matched.appended_grows grows rfl fun other => by simp [switch]⟩
  | parameter label type inside ready early =>
      refine ⟨fun other => ?_, matched.appended_grows grows rfl fun other => rfl⟩
      have before : ((recording.builder.function.block other).parameters.filter
          fun value => !(recording.explicit other).contains value) =
          (recording.joined other).map Prod.snd :=
        matched.introduced other
      have old : ∀ value ∈ (recording.builder.function.block other).parameters,
          value ≠ recording.builder.nextValue := by
        rintro value member rfl
        exact not_mem_parameters sound.single other member
      simp only [ledger, Ledger.introduced, Ledger.parameters, parameter,
        Builder.block_withParameter _ _ _ _ inside]
      by_cases same : other = label
      · subst same
        simp only [if_true, Function.update_self, List.filter_append]
        rw [← before]
        refine (congrArg₂ _ (List.filter_congr ?_) (by simp)).trans (List.append_nil _)
        intro value member
        simp [old value member]
      · simp only [same, if_false, Function.update_of_ne same]
        exact before
  | declare var type unknown =>
      exact ⟨matched.introduced, matched.appended_grows grows rfl fun other => rfl⟩
  | define label var type value current declared typed early =>
      exact ⟨matched.introduced, matched.appended_grows grows rfl fun other => by simp [define]⟩
  | use label var value current holds early =>
      exact ⟨matched.introduced, matched.appended_grows grows rfl fun other => rfl⟩
  | close label inside unsealed complete =>
      exact ⟨matched.introduced, matched.appended_grows grows rfl fun other => by simp [close]⟩
  | emit label operation types current unfinished operands fits =>
      have targets : ∀ destination ∈ operation.destinations,
          destination.block.index < recording.builder.states.size := fun destination member =>
        recording.inside (fits.destination member).1
      constructor
      · exact matched.introduced_same (fun other => by simp [Recording.emit]) rfl rfl
      · intro other edge member index value found
        simp only [Recording.emit, Builder.state_withInstruction _ _ _ _ _ targets] at member
        rcases List.mem_append.mp member with old | new
        · obtain ⟨var, param, joined, suits⟩ := matched.appended other edge old index value found
          exact ⟨var, param, joined, suits.grows grows⟩
        · -- nothing was passed along an edge that did not exist
          have source := (Builder.mem_edgesTo.mp new).1
          have nothing := sound.scripted.appended_of_unterminated unfinished edge.side
          rw [← source] at nothing
          change (recording.appended edge)[index]? = some value at found
          rw [show recording.appended edge = [] from nothing] at found
          cases found
  | refer external unknown =>
      exact ⟨matched.introduced, matched.appended_grows grows rfl fun other => rfl⟩
  | reserve size =>
      exact ⟨matched.introduced, matched.appended_grows grows rfl fun other => rfl⟩

theorem moves {entry : Option Label} (matched : recording.Matched) (sound : Sound recording)
    (steps : Moves entry recording later) : later.Matched := by
  induction steps with
  | refl => exact matched
  | tail before step induction => exact induction.move (sound.moves before) step

end Matched

end Recording

/-! ## Commands -/

section Commands

variable {entry : Option Label} {recording later : Recording} {deeds : List Deed}

theorem Performs.explicit {deed : Deed} (performs : Performs entry deed recording later)
    (narrow : deed.widens = none) : later.explicit = recording.explicit := by
  cases performs with
  | parameter => cases narrow
  | use label var value looked => exact looked.keeps.explicit
  | close label looked => exact looked.keeps.explicit
  | _ => rfl

theorem PerformsAll.explicit (performs : PerformsAll entry deeds recording later)
    (narrow : ∀ deed ∈ deeds, deed.widens = none) : later.explicit = recording.explicit := by
  induction performs with
  | nil => rfl
  | cons first _ induction =>
      rw [List.forall_mem_cons] at narrow
      exact (induction narrow.2).trans (first.explicit narrow.1)

theorem PerformsAll.widened {label : Label} (performs : PerformsAll entry deeds recording later)
    (wide : ∀ deed ∈ deeds, deed.widens = some label) :
    ∃ more, later.ledger.parameters label = recording.ledger.parameters label ++ more ∧
      later.explicit =
        Function.update recording.explicit label (recording.explicit label ++ more) := by
  induction performs with
  | nil => exact ⟨[], by simp, by simp⟩
  | @cons before middle last deed rest first _ induction =>
      rw [List.forall_mem_cons] at wide
      obtain ⟨more, parameters, explicit⟩ := induction wide.2
      cases first with
      | parameter other type inside =>
          cases wide.1
          refine ⟨before.builder.nextValue :: more, ?_, ?_⟩
          · rw [parameters]
            simp only [Recording.ledger, Ledger.parameters, Recording.parameter,
              Builder.block_withParameter _ _ _ _ inside, if_true, List.append_assoc,
              List.singleton_append]
          · rw [explicit]
            simp [Recording.parameter]
      | _ => cases wide.1

theorem Ledger.toHistory_perform (ledger : Ledger) (command : Command) :
    (ledger.perform command).toHistory = ledger.toHistory.perform command := by
  rw [Ledger.perform]
  split <;> rfl

theorem Ledger.performAll_misuse {commands : List Command} {ledger : Ledger}
    (good : (ledger.performAll commands).builder.misuse = none) :
    ledger.builder.misuse = none := by
  induction commands generalizing ledger with
  | nil => exact good
  | cons command rest induction =>
      have first : (ledger.perform command).builder.misuse = none := induction good
      rw [ledger.toHistory_perform] at first
      exact History.perform_misuse first

/-- A command that ends without a misuse does deeds, and the ledger tells the explicit
parameters. -/
theorem Recording.ledger_perform (sound : Sound recording) (settled : recording.Settled)
    {command : Command}
    (good : (recording.ledger.perform command).builder.misuse = none) :
    ∃ (deeds : List Deed) (later : Recording),
      later.ledger = recording.ledger.perform command ∧
      PerformsAll none deeds recording later ∧
      ∀ deed ∈ deeds, deed.widens = command.widens ∧ deed.looks = command.looks := by
  rw [Ledger.toHistory_perform] at good
  obtain ⟨deeds, later, history, performs, kinds, _⟩ :=
    @perform_performs none recording sound settled command (by simp) good
  have widens : ∀ deed ∈ deeds, deed.widens = command.widens := fun deed member =>
    (kinds deed member).1
  refine ⟨deeds, later, ?_, performs, kinds⟩
  rw [Ledger.perform]
  cases asks : command.widens with
  | none =>
      rw [asks] at widens
      rw [ledger, history, performs.explicit widens]
      rfl
  | some label =>
      rw [asks] at widens
      obtain ⟨more, parameters, explicit⟩ := performs.widened widens
      have now : Ledger.parameters ⟨recording.toHistory.perform command, recording.explicit⟩ label =
          recording.ledger.parameters label ++ more := by
        rw [← history]
        exact parameters
      change later.ledger = ⟨recording.toHistory.perform command,
        Function.update recording.explicit label (recording.explicit label ++
          (Ledger.parameters ⟨recording.toHistory.perform command, recording.explicit⟩ label).drop
            (recording.ledger.parameters label).length)⟩
      rw [now, List.drop_left, ← explicit, ← history]
      rfl

theorem Recording.ledger_performAll (commands : List Command) {recording : Recording}
    (sound : Sound recording) (settled : recording.Settled)
    (good : (recording.ledger.performAll commands).builder.misuse = none) :
    ∃ later : Recording, later.ledger = recording.ledger.performAll commands ∧
      Moves none recording later ∧ later.Settled := by
  induction commands generalizing recording with
  | nil => exact ⟨recording, rfl, .refl, settled⟩
  | cons command rest induction =>
      have first : (recording.ledger.perform command).builder.misuse = none :=
        Ledger.performAll_misuse good
      obtain ⟨deeds, middle, equal, performs, _⟩ := ledger_perform sound settled first
      have moves := performs.moves
      have unfolded : recording.ledger.performAll (command :: rest) =
          middle.ledger.performAll rest := by
        rw [equal]
        rfl
      rw [unfolded] at good ⊢
      obtain ⟨later, final, others, settledLater⟩ :=
        induction (sound.moves moves) (settled.performsAll sound performs) good
      exact ⟨later, final, moves.trans others, settledLater⟩

end Commands

/-! ## Consistent ledgers -/

namespace Ledger

/-- The caller asked for a branch that leads along an edge, with some arguments. -/
def Gives (ledger : Ledger) (edge : Edge) (given : Destination) : Prop :=
  ∃ instruction, .instruction instruction ∈ ledger.script edge.source ∧
    instruction.operation.destinations[edge.side]? = some given

/-- The block that an edge leaves ends with a branch that leads along the edge, with some
arguments. -/
def Passes (ledger : Ledger) (edge : Edge) (passed : Destination) : Prop :=
  ∃ before last, (ledger.builder.function.block edge.source).instructions = before ++ [last] ∧
    last.operation.destinations[edge.side]? = some passed

/-- What is known of blocks, edges and variables is right: only the last instruction of a block is
a terminator; the predecessors of a block are the branches to it, each of them once; what is known
of a variable has the type that the variable was declared with; and a branch passes what the
caller gave it, followed by nothing as long as the block is not sealed, and then by one argument
for each parameter that stands for a variable, of the type of that parameter. -/
structure Consistent (ledger : Ledger) : Prop where
  terminal : ∀ label before instruction behind,
    (ledger.builder.function.block label).instructions = before ++ instruction :: behind →
      instruction.isTerminator = true → behind = []
  distinct : ∀ label, (ledger.builder.state label).predecessors.Nodup
  edges : ∀ label edge, edge ∈ (ledger.builder.state label).predecessors ↔
    ∃ instruction ∈ (ledger.builder.function.block edge.source).instructions,
      ∃ destination, instruction.operation.destinations[edge.side]? = some destination ∧
        destination.block = label
  typed : ∀ label var value, ledger.builder.known label var = some value →
    ∃ type, ledger.builder.declared.lookup var = some type ∧
      ledger.builder.function.type? value = some type
  passed : ∀ label, ∀ edge ∈ (ledger.builder.state label).predecessors, ∃ given added,
    ledger.Gives edge ⟨label, given⟩ ∧ ledger.Passes edge ⟨label, given ++ added⟩ ∧
      List.Forall₂ ledger.builder.function.SameType added
        (if (ledger.builder.state label).isSealed then ledger.introduced label else [])

end Ledger

namespace Recording

variable {recording : Recording}

theorem terminal_code (scripted : recording.Scripted) {label : Label}
    {before behind : List Instruction} {instruction : Instruction}
    (split : (recording.builder.function.block label).instructions =
      before ++ instruction :: behind)
    (ends : instruction.isTerminator = true) : behind = [] := by
  rw [scripted.code label] at split
  rcases List.append_eq_append_iff.mp split with ⟨more, rfl, tail⟩ | ⟨more, zeros, tail⟩
  · obtain ⟨first, rest, equal, rfl, mapped⟩ := List.map_eq_append_iff.mp tail
    obtain ⟨original, others, rfl, rfl, rfl⟩ := List.map_eq_cons_iff.mp mapped
    rw [Instruction.isTerminator_extend] at ends
    rw [scripted.terminal label first original others equal ends, List.map_nil]
  · cases more with
    | nil =>
        rw [List.nil_append] at tail
        obtain ⟨original, others, equal, rfl, rfl⟩ := List.map_eq_cons_iff.mp tail.symm
        rw [Instruction.isTerminator_extend] at ends
        rw [scripted.terminal label [] original others equal ends, List.map_nil]
    | cons zero zeroes =>
        -- zeros in front of a block do not end it
        cases (List.cons.inj tail).1
        have member : instruction ∈ (recording.zeros label).map
            (fun zero => Builder.zeroInstruction zero.1 zero.2) := by
          rw [zeros]
          simp
        obtain ⟨zero, _, rfl⟩ := List.mem_map.mp member
        cases ends

/-- The branches in the code of a block are those in its script. -/
theorem leads_code (scripted : recording.Scripted) (label target : Label) (side : Nat) :
    (∃ instruction ∈ (recording.builder.function.block label).instructions,
        ∃ destination, instruction.operation.destinations[side]? = some destination ∧
          destination.block = target) ↔
      ∃ instruction ∈ emitted (recording.script label),
        ∃ destination, instruction.operation.destinations[side]? = some destination ∧
          destination.block = target := by
  rw [scripted.code label]
  constructor
  · rintro ⟨instruction, member, destination, found, leads⟩
    rcases List.mem_append.mp member with zero | written
    · obtain ⟨zero, _, rfl⟩ := List.mem_map.mp zero
      cases found
    · obtain ⟨original, here, rfl⟩ := List.mem_map.mp written
      rw [Instruction.extend, Operation.destinations_extend, Option.map_eq_some_iff] at found
      obtain ⟨given, found, rfl⟩ := found
      exact ⟨original, here, given, found, leads⟩
  · rintro ⟨original, here, given, found, leads⟩
    refine ⟨_, List.mem_append_right _ (List.mem_map_of_mem here),
      ⟨given.block, given.arguments ++ recording.appended ⟨label, side⟩⟩, ?_, ?_⟩
    · rw [Instruction.extend, Operation.destinations_extend, found]
      rfl
    · exact leads

/-- The arguments that were added to a branch have the types of the parameters they are for. -/
theorem sameType_appended (sound : Sound recording) (settled : recording.Settled)
    (matched : recording.Matched) {label : Label} {edge : Edge}
    (member : edge ∈ (recording.builder.state label).predecessors) :
    List.Forall₂ recording.builder.function.SameType (recording.appended edge)
      (if (recording.builder.state label).isSealed then recording.ledger.introduced label
        else []) := by
  have length := settled label edge member
  rw [due] at length
  split
  · rename_i closed
    rw [if_pos closed] at length
    rw [matched.introduced label, List.forall₂_iff_get]
    refine ⟨by simpa using length, ?_⟩
    intro index left right
    obtain ⟨var, param, joined, type, declared, typed⟩ := matched.appended label edge member index
      _ (List.getElem?_eq_getElem left)
    obtain ⟨_, again, param_typed⟩ := sound.typed.incoming label var param
      (sound.tracked.joins label var param (List.mem_of_getElem? joined))
    rw [declared] at again
    cases again
    refine ⟨type, typed, ?_⟩
    have equal : ((recording.joined label).map Prod.snd)[index]? = some param := by
      rw [List.getElem?_map, joined]
      rfl
    rw [List.get_eq_getElem, (List.getElem_eq_iff right).mpr equal]
    exact param_typed
  · rename_i unsealed
    rw [if_neg unsealed] at length
    rw [List.length_eq_zero_iff.mp length]
    exact .nil

theorem gives_passes (scripted : recording.Scripted) {label : Label} {edge : Edge}
    (member : edge ∈ (recording.builder.state label).predecessors) :
    ∃ given, recording.ledger.Gives edge ⟨label, given⟩ ∧
      recording.ledger.Passes edge ⟨label, given ++ recording.appended edge⟩ := by
  obtain ⟨before, last, split, destination, found, rfl⟩ := scripted.split_of_edge member
  refine ⟨destination.arguments, ⟨last, ?_, found⟩, ?_⟩
  · rw [← mem_emitted, show recording.ledger.script = recording.script from rfl, split]
    simp
  · refine ⟨(recording.zeros edge.source).map
          (fun zero => Builder.zeroInstruction zero.1 zero.2) ++
        before.map (Instruction.extend fun side => recording.appended ⟨edge.source, side⟩),
      last.extend fun side => recording.appended ⟨edge.source, side⟩, ?_, ?_⟩
    · rw [show recording.ledger.builder = recording.builder from rfl,
        scripted.code edge.source, split]
      simp
    · rw [Instruction.extend, Operation.destinations_extend, found]
      rfl

theorem consistent (sound : Sound recording) (settled : recording.Settled)
    (matched : recording.Matched) : recording.ledger.Consistent where
  terminal label before instruction behind split ends :=
    terminal_code sound.scripted split ends
  distinct label := sound.linked.distinct label
  edges label edge := (sound.scripted.edges label edge).trans
    (leads_code sound.scripted edge.source label edge.side).symm
  typed label var value holds := sound.typed.known sound.tracked holds
  passed label edge member := by
    obtain ⟨given, gives, passes⟩ := gives_passes sound.scripted member
    exact ⟨given, _, gives, passes, sameType_appended sound settled matched member⟩

end Recording

/-- Whatever commands are given to a builder, in whatever order and about whatever blocks: if
nothing was done wrong, everything is consistent. -/
theorem consistent_of_no_misuse (id : FunctionId) (declaration : Declaration)
    (commands : List Command)
    (good : ((Ledger.start id declaration).performAll commands).builder.misuse = none) :
    ((Ledger.start id declaration).performAll commands).Consistent := by
  have sound := Sound.start id declaration
  obtain ⟨recording, equal, moves, settled⟩ := Recording.ledger_performAll commands sound
    (Recording.Settled.start id declaration) good
  change recording.ledger = (Ledger.start id declaration).performAll commands at equal
  rw [← equal]
  exact Recording.consistent (sound.moves moves) settled
    ((Recording.Matched.start id declaration).moves sound moves)

/-- A loop with an explicit parameter that also reads a variable, and whose header is sealed only
when its back edge is there. -/
def repeatCommands : List Command :=
  [.createBlock, .createBlock, .createBlock, .appendFunctionParameters ⟨0⟩,
    .appendParameter ⟨1⟩ .i64, .declareVariable ⟨0⟩ .i64, .switchTo ⟨0⟩, .sealBlock ⟨0⟩,
    .defineVariable ⟨0⟩ ⟨0⟩, .emit (.jump ⟨⟨1⟩, [⟨0⟩]⟩), .switchTo ⟨1⟩, .useVariable ⟨0⟩,
    .emit (.branch ⟨2⟩ ⟨⟨1⟩, [⟨1⟩]⟩ ⟨⟨2⟩, []⟩), .sealBlock ⟨1⟩, .switchTo ⟨2⟩, .sealBlock ⟨2⟩,
    .useVariable ⟨0⟩, .emit (.ret [⟨2⟩])]

def repeatLedger : Ledger :=
  (Ledger.start ⟨0⟩ ⟨"repeat", ⟨[.i64], [.i64]⟩, .internal, none⟩).performAll repeatCommands

theorem consistent_of_no_misuse_repeat : repeatLedger.builder.misuse = none ∧
    repeatLedger.Consistent ∧ repeatLedger.introduced ⟨1⟩ = [⟨2⟩] ∧
      (repeatLedger.builder.function.block ⟨0⟩).instructions.map
        (fun instruction => instruction.operation.destinations) = [[⟨⟨1⟩, [⟨0⟩, ⟨0⟩]⟩]] := by
  have good : repeatLedger.builder.misuse = none := by decide +kernel
  exact ⟨good, consistent_of_no_misuse _ _ repeatCommands good, by decide +kernel,
    by decide +kernel⟩

end ExprLang.Ssa
