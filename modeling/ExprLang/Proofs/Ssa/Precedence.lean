import ExprLang.Proofs.Ssa.Ledger

/-!
# The order of parameters

The parameters of a block that the caller asked for come in front of those that stand for
variables, unless the caller asks for one when the block is sealed and has parameters for variables
already. Every branch passes one argument for each of them: what the caller gave for the former,
and for each of the latter what its variable holds at the end of the block with the branch.
-/

namespace ExprLang.Ssa

/-! ## What one of several commands does -/

namespace Ledger

variable {first : Ledger} {commands : List Command} {command : Command}
  {effect : Ledger → Ledger → Prop}

/-- One of some commands that are given to a ledger one after the other has an effect. -/
def Happens (first : Ledger) (commands : List Command) (effect : Ledger → Ledger → Prop) : Prop :=
  ∃ before command behind, commands = before ++ command :: behind ∧
    effect (first.performAll before) ((first.performAll before).perform command)

theorem performAll_concat (first : Ledger) (commands : List Command) (command : Command) :
    first.performAll (commands ++ [command]) = (first.performAll commands).perform command :=
  List.foldl_append

theorem not_happens_nil : ¬ first.Happens [] effect := by
  rintro ⟨before, command, behind, split, _⟩
  simp at split

theorem happens_concat : first.Happens (commands ++ [command]) effect ↔
    first.Happens commands effect ∨
      effect (first.performAll commands) ((first.performAll commands).perform command) := by
  constructor
  · rintro ⟨before, done, behind, split, holds⟩
    rcases List.eq_nil_or_concat behind with rfl | ⟨rest, last, rfl⟩
    · obtain ⟨rfl, same⟩ := List.append_inj' split rfl
      cases same
      exact .inr holds
    · rw [List.concat_eq_append, ← List.cons_append, ← List.append_assoc] at split
      exact .inl ⟨before, done, rest, (List.append_inj' split rfl).1, holds⟩
  · rintro (⟨before, done, behind, rfl, holds⟩ | holds)
    · exact ⟨before, done, behind ++ [command], by simp, holds⟩
    · exact ⟨commands, command, [], rfl, holds⟩

def Adds (ledger : Ledger) (edge : Edge) (added : List Value) : Prop :=
  ∃ target given, ledger.Gives edge ⟨target, given⟩ ∧
    ledger.Passes edge ⟨target, given ++ added⟩

/-- A block gets its parameter with the given index among those for variables, and the parameter
is what the variable holds in the block. -/
def Introduces (label : Label) (index : Nat) (var : Variable) (param : Value)
    (earlier later : Ledger) : Prop :=
  (earlier.introduced label)[index]? = none ∧ (later.introduced label)[index]? = some param ∧
    later.builder.known label var = some param

/-- A branch gets the argument with the given index among those that are added to it, and the
argument is what the variable holds at the end of the block with the branch. -/
def Supplies (edge : Edge) (index : Nat) (var : Variable) (argument : Value)
    (earlier later : Ledger) : Prop :=
  ∃ old new, earlier.Adds edge old ∧ old[index]? = none ∧
    later.Adds edge new ∧ new[index]? = some argument ∧
    later.builder.known edge.source var = some argument

/-- A sealed block with parameters for variables gets parameters that the caller asked for. -/
def Late (label : Label) (earlier later : Ledger) : Prop :=
  (earlier.builder.state label).isSealed = true ∧ earlier.introduced label ≠ [] ∧
    later.asked label ≠ earlier.asked label

/-! ## Two orders of parameters -/

def Ordered (ledger : Ledger) (label : Label) : Prop :=
  ledger.parameters label = ledger.asked label ++ ledger.introduced label

def Mixed (ledger : Ledger) (label : Label) : Prop :=
  ∃ wanted ∈ ledger.asked label, ∃ param ∈ ledger.introduced label,
    [param, wanted].Sublist (ledger.parameters label)

theorem Ordered.not_mixed {ledger : Ledger} {label : Label} (ordered : ledger.Ordered label) :
    ¬ ledger.Mixed label := by
  rintro ⟨wanted, asked, param, introduced, behind⟩
  have fresh : ∀ value ∈ ledger.introduced label, value ∉ ledger.asked label := by
    intro value member
    simpa using (List.mem_filter.mp member).2
  rw [ordered, List.sublist_append_iff] at behind
  obtain ⟨left, right, split, leftInside, rightInside⟩ := behind
  cases left with
  | nil =>
      rw [List.nil_append] at split
      exact fresh wanted (rightInside.subset (by simp [← split])) asked
  | cons head tail =>
      cases (List.cons.inj split).1
      exact fresh param introduced (leftInside.subset List.mem_cons_self)

variable {earlier later : Ledger} {label : Label} {more : List Value}

theorem Ordered.introduce (ordered : earlier.Ordered label)
    (parameters : later.parameters label = earlier.parameters label ++ more)
    (introduced : later.introduced label = earlier.introduced label ++ more)
    (asked : later.asked label = earlier.asked label) : later.Ordered label := by
  rw [Ordered, parameters, introduced, asked, ordered, List.append_assoc]

theorem Ordered.ask (ordered : earlier.Ordered label)
    (parameters : later.parameters label = earlier.parameters label ++ more)
    (introduced : later.introduced label = earlier.introduced label)
    (asked : later.asked label = earlier.asked label ++ more)
    (free : more = [] ∨ earlier.introduced label = []) : later.Ordered label := by
  rw [Ordered, parameters, introduced, asked, ordered]
  rcases free with rfl | empty
  · simp
  · simp [empty]

theorem Mixed.grows (mixed : earlier.Mixed label)
    (parameters : earlier.parameters label <+: later.parameters label)
    (introduced : earlier.introduced label <+: later.introduced label)
    (asked : earlier.asked label <+: later.asked label) : later.Mixed label := by
  obtain ⟨wanted, inside, param, member, behind⟩ := mixed
  exact ⟨wanted, asked.subset inside, param, introduced.subset member,
    behind.trans parameters.sublist⟩

end Ledger

/-! ## Deeds that look up variables -/

/-- What looking up variables does: what was known stays known, and of all new parameters and
arguments is known what they are for. -/
structure Looks (recording later : Recording) : Prop where
  explicit : later.explicit = recording.explicit
  predecessors : ∀ label, (later.builder.state label).predecessors =
    (recording.builder.state label).predecessors
  known : ∀ label var value, recording.builder.known label var = some value →
    later.builder.known label var = some value
  longer : ∀ edge, recording.appended edge <+: later.appended edge
  joined : ∀ label, ∃ more, later.joined label = recording.joined label ++ more ∧
    later.ledger.parameters label = recording.ledger.parameters label ++ more.map Prod.snd ∧
    ∀ item ∈ more, later.builder.known label item.1 = some item.2
  appended : ∀ edge (index : Nat) value, (later.appended edge)[index]? = some value →
    (recording.appended edge)[index]? = some value ∨
      (recording.appended edge)[index]? = none ∧ ∃ label var param,
        edge ∈ (recording.builder.state label).predecessors ∧
        (later.joined label)[index]? = some (var, param) ∧
        later.builder.known edge.source var = some value

theorem getElem?_of_prefix {α : Type} {left right : List α} (longer : left <+: right)
    {index : Nat} {item : α} (found : left[index]? = some item) : right[index]? = some item := by
  obtain ⟨more, rfl⟩ := longer
  rw [List.getElem?_append_left (List.getElem?_eq_some_iff.mp found).1, found]

namespace Looks

variable {entry : Option Label} {recording middle later : Recording}

theorem joined_prefix (looks : Looks recording later) (label : Label) :
    recording.joined label <+: later.joined label := by
  obtain ⟨more, equal, _⟩ := looks.joined label
  exact ⟨more, equal.symm⟩

/-- Nothing changes but what is known. -/
theorem of_same (explicit : later.explicit = recording.explicit)
    (joined : later.joined = recording.joined) (appended : later.appended = recording.appended)
    (predecessors : ∀ label, (later.builder.state label).predecessors =
      (recording.builder.state label).predecessors)
    (parameters : ∀ label, later.ledger.parameters label = recording.ledger.parameters label)
    (known : ∀ label var value, recording.builder.known label var = some value →
      later.builder.known label var = some value) : Looks recording later where
  explicit := explicit
  predecessors := predecessors
  known := known
  longer edge := by rw [appended]
  joined label := ⟨[], by simp [joined], by simp [parameters], by simp⟩
  appended edge index value found := by
    rw [appended] at found
    exact .inl found

theorem refl (recording : Recording) : Looks recording recording :=
  of_same rfl rfl rfl (fun _ => rfl) (fun _ => rfl) fun _ _ _ holds => holds

theorem trans (left : Looks recording middle) (right : Looks middle later) :
    Looks recording later where
  explicit := right.explicit.trans left.explicit
  predecessors label := (right.predecessors label).trans (left.predecessors label)
  known label var value holds := right.known label var value (left.known label var value holds)
  longer edge := (left.longer edge).trans (right.longer edge)
  joined label := by
    obtain ⟨early, joined, parameters, known⟩ := left.joined label
    obtain ⟨late, joinedThen, parametersThen, knownThen⟩ := right.joined label
    refine ⟨early ++ late, by rw [joinedThen, joined, List.append_assoc],
      by rw [parametersThen, parameters, List.append_assoc, List.map_append], ?_⟩
    intro item member
    rcases List.mem_append.mp member with old | new
    · exact right.known label _ _ (known item old)
    · exact knownThen item new
  appended edge index value found := by
    rcases right.appended edge index value found with before | ⟨absent, label, var, param, new⟩
    · rcases left.appended edge index value before with old |
        ⟨absent, label, var, param, member, joined, holds⟩
      · exact .inl old
      · exact .inr ⟨absent, label, var, param, member,
          getElem?_of_prefix (right.joined_prefix label) joined, right.known _ _ _ holds⟩
    · refine .inr ⟨?_, label, var, param, by rw [← left.predecessors]; exact new.1, new.2⟩
      rw [List.getElem?_eq_none_iff] at absent ⊢
      exact (left.longer edge).length_le.trans absent

/-- One more parameter that stands for a variable. -/
theorem joined_parameter {label : Label} (inside : recording.builder.hasBlock label = true)
    {var : Variable} (type : MachineType) {known : Label → Variable → Option Value}
    (holds : known label var = some recording.builder.nextValue) (other : Label) :
    ∃ more, Function.update recording.joined label
          (recording.joined label ++ [(var, recording.builder.nextValue)]) other =
        recording.joined other ++ more ∧
      ((recording.builder.withParameter label type).function.block other).parameters =
        (recording.builder.function.block other).parameters ++ more.map Prod.snd ∧
      ∀ item ∈ more, known other item.1 = some item.2 := by
  rw [Builder.block_withParameter _ _ _ _ inside]
  by_cases same : other = label
  · subst same
    refine ⟨[(var, recording.builder.nextValue)], by simp, by simp, ?_⟩
    rintro item member
    cases List.mem_singleton.mp member
    exact holds
  · exact ⟨[], by simp [same], by simp [same], by simp⟩

theorem resolve (step : Resolve recording later) : Looks recording later := by
  have known : ∀ label var value, recording.builder.known label var = some value →
      later.builder.known label var = some value := fun _ _ _ holds => step.known holds
  cases step with
  | pend label var type inside unsealed unknown fresh declared =>
      have holds : (recording.pend label var type).builder.known label var =
          some recording.builder.nextValue := by
        simp [Recording.pend, Builder.known_withKnown, recording.inside inside]
      exact {
        explicit := rfl
        predecessors := fun other => by simp [Recording.pend]
        known
        longer := fun edge => List.prefix_refl _
        joined := joined_parameter inside type holds
        appended := fun edge index value found => .inl found }
  | zero label var type inside closed alone unknown fresh declared =>
      exact of_same rfl rfl rfl (fun other => by simp [Recording.zero])
        (fun other => by simp [Recording.ledger, Ledger.parameters, Recording.zero]) known
  | inherit label var edge value inside closed only source fresh =>
      exact of_same rfl rfl rfl (fun other => by simp [Recording.inherit]) (fun other => rfl) known
  | join label var type inside closed several unknown fresh declared =>
      have place : label.index < (recording.builder.withParameter label type).states.size := by
        simpa using recording.inside inside
      have holds : (recording.join label var type).builder.known label var =
          some recording.builder.nextValue := by
        simp [Recording.join, Builder.known_withKnown _ _ _ _ _ place]
      exact {
        explicit := rfl
        predecessors := fun other => by simp [Recording.join]
        known
        longer := fun edge => List.prefix_refl _
        joined := joined_parameter inside type holds
        appended := fun edge index value found => .inl found }
  | pass label edge var param value member next source =>
      refine ⟨rfl, fun other => by simp [Recording.pass], known, ?_, ?_, ?_⟩
      · intro branch
        by_cases same : branch = edge
        · subst same
          simp [Recording.pass]
        · simp [Recording.pass, same]
      · exact fun other => ⟨[], by simp [Recording.pass],
          by simp [Recording.ledger, Ledger.parameters, Recording.pass], by simp⟩
      · intro branch index content found
        by_cases same : branch = edge
        · subst same
          simp only [Recording.pass, Function.update_self] at found
          rcases Nat.lt_trichotomy index (recording.appended branch).length with early | rfl | late
          · rw [List.getElem?_append_left early] at found
            exact .inl found
          · rw [List.getElem?_concat_length] at found
            cases found
            exact .inr ⟨List.getElem?_eq_none_iff.mpr (Nat.le_refl _), label, var, param, member,
              next, known _ _ _ source⟩
          · rw [List.getElem?_eq_none_iff.mpr (by simp; omega)] at found
            cases found
        · simp only [Recording.pass, Function.update_of_ne same] at found
          exact .inl found

theorem resolves (steps : Resolves recording later) : Looks recording later := by
  induction steps with
  | refl => exact .refl recording
  | tail _ step induction => exact induction.trans (resolve step)

theorem performs {deed : Deed} (performs : Performs entry deed recording later)
    (looks : deed.looks = true) : Looks recording later := by
  cases performs with
  | use label var value looked =>
      exact (resolves looked).trans (of_same rfl rfl rfl (fun _ => rfl) (fun _ => rfl)
        fun _ _ _ holds => holds)
  | close label looked =>
      exact (resolves looked).trans (of_same rfl rfl rfl (fun other => by simp [Recording.close])
        (fun _ => rfl) (fun other var value holds => by simpa [Recording.close] using holds))
  | _ => cases looks

theorem performsAll {deeds : List Deed} (performs : PerformsAll entry deeds recording later)
    (looks : ∀ deed ∈ deeds, deed.looks = true) : Looks recording later := by
  induction performs with
  | nil => exact .refl _
  | cons first _ induction =>
      rw [List.forall_mem_cons] at looks
      exact (Looks.performs first looks.1).trans (induction looks.2)

end Looks

/-! ## Other deeds -/

/-- What other deeds do: there are no more parameters and arguments for variables, and blocks get
explicit parameters only as long as they have no parameters for variables, or once they are
sealed. -/
structure Leaves (recording later : Recording) : Prop where
  joined : later.joined = recording.joined
  appended : later.appended = recording.appended
  isSealed : ∀ label, (later.builder.state label).isSealed =
    (recording.builder.state label).isSealed
  parameters : ∀ label, ∃ more,
    later.ledger.parameters label = recording.ledger.parameters label ++ more ∧
    later.explicit label = recording.explicit label ++ more ∧
    (more = [] ∨ recording.joined label = [] ∨ (recording.builder.state label).isSealed = true)

namespace Leaves

variable {entry : Option Label} {recording middle later : Recording}

theorem of_same (joined : later.joined = recording.joined)
    (appended : later.appended = recording.appended)
    (explicit : later.explicit = recording.explicit)
    (isSealed : ∀ label, (later.builder.state label).isSealed =
      (recording.builder.state label).isSealed)
    (parameters : ∀ label, later.ledger.parameters label = recording.ledger.parameters label) :
    Leaves recording later :=
  ⟨joined, appended, isSealed, fun label =>
    ⟨[], by simp [parameters], by simp [explicit], .inl rfl⟩⟩

theorem refl (recording : Recording) : Leaves recording recording :=
  of_same rfl rfl rfl (fun _ => rfl) fun _ => rfl

theorem trans (left : Leaves recording middle) (right : Leaves middle later) :
    Leaves recording later where
  joined := right.joined.trans left.joined
  appended := right.appended.trans left.appended
  isSealed label := (right.isSealed label).trans (left.isSealed label)
  parameters label := by
    obtain ⟨early, parameters, explicit, free⟩ := left.parameters label
    obtain ⟨late, parametersThen, explicitThen, freeThen⟩ := right.parameters label
    refine ⟨early ++ late, by rw [parametersThen, parameters, List.append_assoc],
      by rw [explicitThen, explicit, List.append_assoc], ?_⟩
    rw [left.joined, left.isSealed] at freeThen
    rcases free with rfl | free
    · exact freeThen
    · exact .inr free

theorem performs {deed : Deed} (sound : Sound recording)
    (performs : Performs entry deed recording later) (blind : deed.looks = false) :
    Leaves recording later := by
  cases performs with
  | create =>
      exact of_same rfl rfl rfl (by simp [Recording.create])
        (by simp [Recording.ledger, Ledger.parameters, Recording.create])
  | switch label inside left =>
      exact of_same rfl rfl rfl (by simp [Recording.switch])
        (by simp [Recording.ledger, Ledger.parameters, Recording.switch])
  | parameter label type inside ready early =>
      refine ⟨rfl, rfl, fun _ => rfl, fun other => ?_⟩
      simp only [Recording.ledger, Ledger.parameters, Recording.parameter,
        Builder.block_withParameter _ _ _ _ inside]
      by_cases same : other = label
      · subst same
        refine ⟨[recording.builder.nextValue], by simp, by simp, .inr ?_⟩
        cases closed : (recording.builder.state other).isSealed with
        | true => exact .inr rfl
        | false =>
            -- The parameters for variables of a block that is not sealed are pending.
            rw [sound.tracked.pending other closed] at ready
            exact .inl ready
      · exact ⟨[], by simp [same], by simp [same], .inl rfl⟩
  | define => exact of_same rfl rfl rfl (by simp [Recording.define]) fun _ => rfl
  | use | close => cases blind
  | emit =>
      exact of_same rfl rfl rfl (by simp [Recording.emit])
        (by simp [Recording.ledger, Ledger.parameters, Recording.emit])
  | declare | refer | reserve => exact of_same rfl rfl rfl (fun _ => rfl) fun _ => rfl

theorem performsAll {deeds : List Deed} (sound : Sound recording)
    (performs : PerformsAll entry deeds recording later)
    (blind : ∀ deed ∈ deeds, deed.looks = false) : Leaves recording later := by
  induction performs with
  | nil => exact .refl _
  | cons first _ induction =>
      rw [List.forall_mem_cons] at blind
      exact (Leaves.performs sound first blind.1).trans
        (induction (sound.moves first.moves) blind.2)

end Leaves

/-! ## Accounts of commands -/

structure Recounts (first : Ledger) (commands : List Command) (recording : Recording) : Prop where
  ledger : recording.ledger = first.performAll commands
  sound : Sound recording
  settled : recording.Settled
  matched : recording.Matched

/-- Every parameter for a variable and every argument for one goes back to a command. -/
structure Traced (first : Ledger) (commands : List Command) (recording : Recording) : Prop where
  introduced : ∀ label (index : Nat) var param,
    (recording.joined label)[index]? = some (var, param) →
      first.Happens commands (Ledger.Introduces label index var param)
  supplied : ∀ edge (index : Nat) value, (recording.appended edge)[index]? = some value →
    ∃ label var param, edge ∈ (recording.builder.state label).predecessors ∧
      (recording.joined label)[index]? = some (var, param) ∧
      first.Happens commands (Ledger.Supplies edge index var value)

structure Sorted (first : Ledger) (commands : List Command) (ledger : Ledger) : Prop where
  ordered : ∀ label, ¬ first.Happens commands (Ledger.Late label) → ledger.Ordered label
  mixed : ∀ label, first.Happens commands (Ledger.Late label) → ledger.Mixed label

section Accounts

variable {first : Ledger} {commands : List Command} {command : Command}
  {recording later : Recording}

namespace Recounts

theorem start (id : FunctionId) (declaration : Declaration) :
    Recounts (.start id declaration) [] (.start id declaration) :=
  ⟨rfl, .start id declaration, .start id declaration, .start id declaration⟩

theorem perform {deeds : List Deed} (recounts : Recounts first commands recording)
    (ledger : later.ledger = recording.ledger.perform command)
    (performs : PerformsAll none deeds recording later) :
    Recounts first (commands ++ [command]) later where
  ledger := by rw [ledger, recounts.ledger, Ledger.performAll_concat]
  sound := recounts.sound.moves performs.moves
  settled := recounts.settled.performsAll recounts.sound performs
  matched := recounts.matched.moves recounts.sound performs.moves

theorem happens_concat (before : Recounts first commands recording)
    (after : Recounts first (commands ++ [command]) later) {effect : Ledger → Ledger → Prop} :
    first.Happens (commands ++ [command]) effect ↔
      first.Happens commands effect ∨ effect recording.ledger later.ledger := by
  rw [Ledger.happens_concat, before.ledger, after.ledger, Ledger.performAll_concat]

end Recounts

theorem Recording.adds (scripted : recording.Scripted) {label : Label} {edge : Edge}
    (member : edge ∈ (recording.builder.state label).predecessors) :
    recording.ledger.Adds edge (recording.appended edge) := by
  obtain ⟨given, gives, passes⟩ := gives_passes scripted member
  exact ⟨label, given, gives, passes⟩

namespace Traced

theorem start (id : FunctionId) (declaration : Declaration) :
    Traced (.start id declaration) [] (.start id declaration) where
  introduced label index var param found := by simp [Recording.start] at found
  supplied edge index value found := by simp [Recording.start] at found

theorem look (traced : Traced first commands recording)
    (before : Recounts first commands recording)
    (after : Recounts first (commands ++ [command]) later) (looks : Looks recording later) :
    Traced first (commands ++ [command]) later where
  introduced label index var param found := by
    rw [before.happens_concat after]
    obtain ⟨more, joined, _, known⟩ := looks.joined label
    have place : (later.ledger.introduced label)[index]? = some param := by
      rw [after.matched.introduced, List.getElem?_map, found]
      rfl
    rw [joined] at found
    by_cases early : index < (recording.joined label).length
    · rw [List.getElem?_append_left early] at found
      exact .inl (traced.introduced label index var param found)
    · rw [List.getElem?_append_right (Nat.not_lt.mp early)] at found
      refine .inr ⟨?_, place, known _ (List.mem_of_getElem? found)⟩
      rw [before.matched.introduced, List.getElem?_map,
        List.getElem?_eq_none_iff.mpr (Nat.not_lt.mp early)]
      rfl
  supplied edge index value found := by
    rcases looks.appended edge index value found with
      old | ⟨absent, label, var, param, member, joined, known⟩
    · obtain ⟨label, var, param, member, joined, happens⟩ := traced.supplied edge index value old
      exact ⟨label, var, param, by rw [looks.predecessors]; exact member,
        getElem?_of_prefix (looks.joined_prefix label) joined,
        (before.happens_concat after).mpr (.inl happens)⟩
    · have memberThen : edge ∈ (later.builder.state label).predecessors := by
        rw [looks.predecessors]
        exact member
      exact ⟨label, var, param, memberThen, joined, (before.happens_concat after).mpr (.inr
        ⟨_, _, Recording.adds before.sound.scripted member, absent,
          Recording.adds after.sound.scripted memberThen, found, known⟩)⟩

theorem leave (traced : Traced first commands recording)
    (before : Recounts first commands recording)
    (after : Recounts first (commands ++ [command]) later) (grows : Grows recording later)
    (leaves : Leaves recording later) : Traced first (commands ++ [command]) later where
  introduced label index var param found := by
    rw [leaves.joined] at found
    exact (before.happens_concat after).mpr (.inl (traced.introduced label index var param found))
  supplied edge index value found := by
    rw [leaves.appended] at found
    obtain ⟨label, var, param, member, joined, happens⟩ := traced.supplied edge index value found
    exact ⟨label, var, param, (grows.predecessors label).subset member,
      by rw [leaves.joined]; exact joined, (before.happens_concat after).mpr (.inl happens)⟩

end Traced

namespace Sorted

theorem start (id : FunctionId) (declaration : Declaration) :
    Sorted (.start id declaration) [] (.start id declaration) where
  ordered label _ := by
    simp [Ledger.Ordered, Ledger.introduced, Ledger.parameters, Ledger.start, History.start,
      Builder.start, Function.start, Function.block, Function.block?, Block.empty]
  mixed label late := absurd late Ledger.not_happens_nil

theorem look (sorted : Sorted first commands recording.ledger)
    (before : Recounts first commands recording)
    (after : Recounts first (commands ++ [command]) later) (looks : Looks recording later) :
    Sorted first (commands ++ [command]) later.ledger := by
  have asked : ∀ label, later.ledger.asked label = recording.ledger.asked label :=
    congrFun looks.explicit
  have punctual : ∀ label, first.Happens (commands ++ [command]) (Ledger.Late label) ↔
      first.Happens commands (Ledger.Late label) := by
    intro label
    rw [before.happens_concat after, or_iff_left fun late => late.2.2 (asked label)]
  have parameters : ∀ label, ∃ more,
      later.ledger.parameters label = recording.ledger.parameters label ++ more ∧
      later.ledger.introduced label = recording.ledger.introduced label ++ more := by
    intro label
    obtain ⟨more, joined, parameters, _⟩ := looks.joined label
    refine ⟨more.map Prod.snd, parameters, ?_⟩
    rw [after.matched.introduced, before.matched.introduced, joined, List.map_append]
  constructor
  · intro label timely
    rw [punctual] at timely
    obtain ⟨more, parameters, introduced⟩ := parameters label
    exact (sorted.ordered label timely).introduce parameters introduced (asked label)
  · intro label late
    rw [punctual] at late
    obtain ⟨more, parameters, introduced⟩ := parameters label
    exact (sorted.mixed label late).grows ⟨more, parameters.symm⟩ ⟨more, introduced.symm⟩
      (by rw [asked])

theorem leave (sorted : Sorted first commands recording.ledger)
    (before : Recounts first commands recording)
    (after : Recounts first (commands ++ [command]) later) (leaves : Leaves recording later) :
    Sorted first (commands ++ [command]) later.ledger := by
  have introduced : ∀ label,
      later.ledger.introduced label = recording.ledger.introduced label := by
    intro label
    rw [after.matched.introduced, before.matched.introduced, leaves.joined]
  have parameters : ∀ label, ∃ more,
      later.ledger.parameters label = recording.ledger.parameters label ++ more ∧
      later.ledger.asked label = recording.ledger.asked label ++ more ∧
      (more = [] ∨ recording.ledger.introduced label = [] ∨
        (recording.ledger.builder.state label).isSealed = true) := by
    intro label
    obtain ⟨more, parameters, asked, free⟩ := leaves.parameters label
    refine ⟨more, parameters, asked, free.imp_right (Or.imp_left fun none => ?_)⟩
    rw [before.matched.introduced, none, List.map_nil]
  constructor
  · intro label timely
    rw [before.happens_concat after, not_or] at timely
    obtain ⟨more, parameters, asked, free⟩ := parameters label
    refine (sorted.ordered label timely.1).ask parameters (introduced label) asked ?_
    by_contra neither
    rw [not_or] at neither
    refine timely.2 ⟨(free.resolve_left neither.1).resolve_left neither.2, neither.2, ?_⟩
    rw [asked]
    exact fun same => neither.1 (List.append_right_eq_self.mp same)
  · intro label late
    obtain ⟨more, parameters, asked, _⟩ := parameters label
    rcases (before.happens_concat after).mp late with early | ⟨_, nonempty, different⟩
    · exact (sorted.mixed label early).grows ⟨more, parameters.symm⟩ (by rw [introduced])
        ⟨more, asked.symm⟩
    · -- Everything new comes after the parameters that were there.
      obtain ⟨param, old⟩ := List.exists_mem_of_ne_nil _ nonempty
      obtain ⟨wanted, new⟩ := List.exists_mem_of_ne_nil more fun empty => different (by
        rw [asked, empty, List.append_nil])
      refine ⟨wanted, ?_, param, by rw [introduced]; exact old, ?_⟩
      · rw [asked]
        exact List.mem_append_right _ new
      · rw [parameters]
        exact (List.singleton_sublist.mpr (List.mem_filter.mp old).1).append
          (List.singleton_sublist.mpr new)

end Sorted

theorem exists_recounts (id : FunctionId) (declaration : Declaration) (commands : List Command)
    (good : ((Ledger.start id declaration).performAll commands).builder.misuse = none) :
    ∃ recording, Recounts (Ledger.start id declaration) commands recording ∧
      Traced (Ledger.start id declaration) commands recording ∧
      Sorted (Ledger.start id declaration) commands recording.ledger := by
  induction commands using List.reverseRecOn with
  | nil => exact ⟨_, .start id declaration, .start id declaration, .start id declaration⟩
  | append_singleton commands command induction =>
      rw [Ledger.performAll_concat] at good
      obtain ⟨recording, recounts, traced, sorted⟩ := induction
        (Ledger.performAll_misuse (show (Ledger.performAll _ [command]).builder.misuse = none from
          good))
      rw [← recounts.ledger] at good
      obtain ⟨deeds, later, ledger, performs, kinds⟩ :=
        Recording.ledger_perform recounts.sound recounts.settled good
      have after := recounts.perform ledger performs
      have kinds : ∀ deed ∈ deeds, deed.looks = command.looks := fun deed member =>
        (kinds deed member).2
      refine ⟨later, after, ?_⟩
      cases looks : command.looks with
      | true =>
          rw [looks] at kinds
          have looked := Looks.performsAll performs kinds
          exact ⟨traced.look recounts after looked, sorted.look recounts after looked⟩
      | false =>
          rw [looks] at kinds
          have left := Leaves.performsAll recounts.sound performs kinds
          exact ⟨traced.leave recounts after (Moves.grows performs.moves) left,
            sorted.leave recounts after left⟩

/-- A branch of an accepted function passes one argument for each parameter. -/
theorem Recounts.lengths (recounts : Recounts first commands recording)
    (accepted : recording.builder.finalize = .ok ()) {label : Label} {edge : Edge}
    (member : edge ∈ (recording.builder.state label).predecessors) {given : List Value}
    (gives : recording.ledger.Gives edge ⟨label, given⟩) :
    given.length = (recording.explicit label).length ∧
      (recording.appended edge).length = (recording.joined label).length := by
  obtain ⟨_, closed, filled, entry, verified⟩ := Builder.finalize_eq_ok.mp accepted
  have added := recounts.settled label edge member
  rw [Recording.due, if_pos (closed label (filled label (List.ne_nil_of_mem member)))] at added
  refine ⟨?_, added⟩
  obtain ⟨instruction, written, found⟩ := gives
  have fits := (recounts.sound.leads verified (mem_emitted.mpr written) found).fits.length_eq
  have parameters := (recounts.sound.linked.parameters label).length_eq
  rw [List.length_append, List.length_map] at parameters
  rw [parameters, List.length_append] at fits
  change given.length + (recording.appended edge).length = _ at fits
  omega

end Accounts

/-- In an accepted function the parameters of a block that the caller asked for come first exactly
if none of them was asked for when the block was sealed and had parameters for variables. In either
case a branch passes as many arguments as there are parameters: what the caller gave, one for each
parameter that was asked for, and then one for each parameter for a variable, which is what that
variable held at the end of the block with the branch when the argument was added. So if the
parameters that were asked for come first, they are bound to what the caller gave, and those for
variables to what was added. -/
theorem explicit_parameters_come_first (id : FunctionId) (declaration : Declaration)
    (commands : List Command)
    (accepted : ((Ledger.start id declaration).performAll commands).builder.finalize = .ok ()) :
    let first := Ledger.start id declaration
    let ledger := first.performAll commands
    ∀ label,
      (ledger.parameters label = ledger.asked label ++ ledger.introduced label ↔
        ¬ first.Happens commands (Ledger.Late label)) ∧
      ∀ edge ∈ (ledger.builder.state label).predecessors, ∃ given added,
        ledger.Gives edge ⟨label, given⟩ ∧ ledger.Passes edge ⟨label, given ++ added⟩ ∧
        given.length = (ledger.asked label).length ∧
        added.length = (ledger.introduced label).length ∧
        (∀ (index : Nat) argument, added[index]? = some argument → ∃ var param,
          (ledger.introduced label)[index]? = some param ∧
          first.Happens commands (Ledger.Introduces label index var param) ∧
          first.Happens commands (Ledger.Supplies edge index var argument)) ∧
        (¬ first.Happens commands (Ledger.Late label) →
          (given ++ added).zip (ledger.parameters label) =
            given.zip (ledger.asked label) ++ added.zip (ledger.introduced label)) := by
  intro first ledger label
  obtain ⟨recording, recounts, traced, sorted⟩ := exists_recounts id declaration commands
    (Builder.finalize_eq_ok.mp accepted).1
  have same : recording.ledger = ledger := recounts.ledger
  change ledger.builder.finalize = .ok () at accepted
  rw [← same] at accepted ⊢
  refine ⟨⟨?_, sorted.ordered label⟩, ?_⟩
  · intro ordered late
    exact Ledger.Ordered.not_mixed ordered (sorted.mixed label late)
  · intro edge member
    obtain ⟨given, gives, passes⟩ := Recording.gives_passes recounts.sound.scripted member
    obtain ⟨asked, added⟩ := recounts.lengths accepted member gives
    refine ⟨given, recording.appended edge, gives, passes, asked, ?_, ?_, ?_⟩
    · rw [added, recounts.matched.introduced, List.length_map]
    · intro index argument found
      obtain ⟨target, var, param, leads, joined, supplied⟩ :=
        traced.supplied edge index argument found
      cases recounts.sound.scripted.target_unique leads member
      refine ⟨var, param, ?_, traced.introduced label index var param joined, supplied⟩
      rw [recounts.matched.introduced, List.getElem?_map, joined]
      rfl
    · intro timely
      rw [sorted.ordered label timely]
      exact List.zip_append asked

theorem explicit_parameters_come_first_repeat : repeatLedger.builder.finalize = .ok () ∧
    repeatLedger.parameters ⟨1⟩ = repeatLedger.asked ⟨1⟩ ++ repeatLedger.introduced ⟨1⟩ ∧
    repeatLedger.introduced ⟨1⟩ = [⟨2⟩] ∧
    ¬ (Ledger.start ⟨0⟩ ⟨"repeat", ⟨[.i64], [.i64]⟩, .internal, none⟩).Happens repeatCommands
      (Ledger.Late ⟨1⟩) := by
  have accepted : repeatLedger.builder.finalize = .ok () := by decide +kernel
  have ordered : repeatLedger.parameters ⟨1⟩ =
      repeatLedger.asked ⟨1⟩ ++ repeatLedger.introduced ⟨1⟩ := by decide +kernel
  exact ⟨accepted, ordered, by decide +kernel,
    (explicit_parameters_come_first _ _ repeatCommands accepted ⟨1⟩).1.mp ordered⟩

/-- A block whose second parameter is asked for when it is sealed already and has a parameter for a
variable. -/
def tardyCommands : List Command :=
  [.createBlock, .createBlock, .declareVariable ⟨0⟩ .i64, .switchTo ⟨0⟩,
    .emit (.constant .i64 1), .emit (.constant .i64 2), .defineVariable ⟨0⟩ ⟨1⟩,
    .emit (.jump ⟨⟨1⟩, [⟨0⟩]⟩), .sealBlock ⟨0⟩, .switchTo ⟨1⟩, .useVariable ⟨0⟩, .sealBlock ⟨1⟩,
    .appendParameter ⟨1⟩ .i64, .emit (.ret [⟨3⟩])]

def tardyLedger : Ledger :=
  (Ledger.start ⟨0⟩ ⟨"main", ⟨[], [.i64]⟩, .exported, none⟩).performAll tardyCommands

/-- The function is accepted, and the only parameter that was asked for comes last: it is bound to
what the variable holds. -/
theorem variable_before_explicit_parameter : tardyLedger.builder.finalize = .ok () ∧
    tardyLedger.parameters ⟨1⟩ = [⟨2⟩, ⟨3⟩] ∧ tardyLedger.asked ⟨1⟩ = [⟨3⟩] ∧
    tardyLedger.introduced ⟨1⟩ = [⟨2⟩] ∧
    (tardyLedger.builder.function.block ⟨0⟩).instructions.getLast?.map
      (fun instruction => instruction.operation.destinations) = some [⟨⟨1⟩, [⟨0⟩, ⟨1⟩]⟩] := by
  refine ⟨?_, ?_, ?_, ?_, ?_⟩ <;> decide +kernel

end ExprLang.Ssa
