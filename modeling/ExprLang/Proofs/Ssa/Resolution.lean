import ExprLang.Proofs.Ssa.Linking

/-!
# What lookups do

A lookup that ends without a misuse is a sequence of resolving steps, after which the value of
the variable is known where it was looked up.
-/

namespace ExprLang.Ssa

namespace Build

/-! ## The cases of a lookup -/

def passEdges (var : Variable) (type : MachineType) (fuel : Nat) :
    List Edge → Builder → Builder
  | [], builder => builder
  | edge :: edges, builder =>
    let found := (lookup var type fuel edge.source).run builder
    passEdges var type fuel edges (found.2.withArgument edge found.1)

theorem passEdges_run (var : Variable) (type : MachineType) (fuel : Nat) (edges : List Edge)
    (builder : Builder) :
    (edges.forM fun edge => do
      let argument ← lookup var type fuel edge.source
      passArgument edge argument).run builder = ((), passEdges var type fuel edges builder) := by
  induction edges generalizing builder with
  | nil => rfl
  | cons edge rest induction =>
      rw [passEdges]
      exact induction _

section Cases

variable (var : Variable) (type : MachineType) (fuel : Nat) (label : Label) (builder : Builder)

theorem lookup_zero :
    (lookup var type 0 label).run builder = (⟨0⟩, builder.blame (.endlessLookup var)) := rfl

theorem lookup_known {value : Value} (known : builder.known label var = some value) :
    (lookup var type (fuel + 1) label).run builder = (value, builder) := by
  have found : (builder.state label).known.lookup var = some value := known
  rw [lookup]
  simp only [StateT.run_bind, StateT.run_get, pure_bind, found]
  rfl

theorem lookup_open (unknown : builder.known label var = none)
    (unsealed : (builder.state label).isSealed = false) :
    (lookup var type (fuel + 1) label).run builder = (builder.nextValue,
      ((builder.withParameter label type).withPending label var builder.nextValue).withKnown
        label var builder.nextValue) := by
  have found : (builder.state label).known.lookup var = none := unknown
  rw [lookup]
  simp only [StateT.run_bind, StateT.run_get, pure_bind, found, unsealed]
  rfl

theorem lookup_alone (unknown : builder.known label var = none)
    (closed : (builder.state label).isSealed = true)
    (alone : (builder.state label).predecessors = []) :
    (lookup var type (fuel + 1) label).run builder = (builder.nextValue,
      (builder.withZero label type).withKnown label var builder.nextValue) := by
  have found : (builder.state label).known.lookup var = none := unknown
  rw [lookup]
  simp only [StateT.run_bind, StateT.run_get, pure_bind, found, closed, alone]
  rfl

theorem lookup_single {edge : Edge} (unknown : builder.known label var = none)
    (closed : (builder.state label).isSealed = true)
    (only : (builder.state label).predecessors = [edge]) :
    (lookup var type (fuel + 1) label).run builder =
      let found := (lookup var type fuel edge.source).run builder
      (found.1, found.2.withKnown label var found.1) := by
  have found : (builder.state label).known.lookup var = none := unknown
  rw [lookup]
  simp only [StateT.run_bind, StateT.run_get, pure_bind, found, closed, only]
  rfl

theorem lookup_merge (unknown : builder.known label var = none)
    (closed : (builder.state label).isSealed = true)
    (several : 2 ≤ (builder.state label).predecessors.length) :
    (lookup var type (fuel + 1) label).run builder = (builder.nextValue,
      passEdges var type fuel (builder.state label).predecessors
        ((builder.withParameter label type).withKnown label var builder.nextValue)) := by
  have found : (builder.state label).known.lookup var = none := unknown
  obtain ⟨first, second, rest, edges⟩ : ∃ first second rest,
      (builder.state label).predecessors = first :: second :: rest := by
    rcases edges : (builder.state label).predecessors with _ | ⟨first, _ | ⟨second, rest⟩⟩
    · simp [edges] at several
    · simp [edges] at several
    · exact ⟨first, second, rest, rfl⟩
  have passed := passEdges_run var type fuel (builder.state label).predecessors
    ((builder.withParameter label type).withKnown label var builder.nextValue)
  rw [lookup]
  simp only [StateT.run_bind, StateT.run_get, pure_bind, found, closed]
  rw [edges] at passed ⊢
  have second := congrArg Prod.snd passed
  exact congrArg (fun last : Builder => (builder.nextValue, last)) second

end Cases

/-! ## Misuse is kept -/

theorem passEdges_misuse {var : Variable} {type : MachineType} {fuel : Nat}
    (honest : ∀ label builder, ((lookup var type fuel label).run builder).2.misuse = none →
      builder.misuse = none) (edges : List Edge) (builder : Builder)
    (good : (passEdges var type fuel edges builder).misuse = none) : builder.misuse = none := by
  induction edges generalizing builder with
  | nil => exact good
  | cons edge rest induction =>
      rw [passEdges] at good
      have before := induction _ good
      exact honest edge.source builder before

theorem lookup_misuse (var : Variable) (type : MachineType) (fuel : Nat) (label : Label)
    (builder : Builder) (good : ((lookup var type fuel label).run builder).2.misuse = none) :
    builder.misuse = none := by
  induction fuel generalizing label builder with
  | zero =>
      rw [lookup_zero] at good
      simp only [Builder.blame, Option.or_eq_none_iff] at good
      exact good.1
  | succ fuel induction =>
      cases known : builder.known label var with
      | some value =>
          rw [lookup_known _ _ _ _ _ known] at good
          exact good
      | none =>
          cases closed : (builder.state label).isSealed with
          | false =>
              rw [lookup_open _ _ _ _ _ known closed] at good
              exact good
          | true =>
              rcases edges : (builder.state label).predecessors with
                _ | ⟨edge, _ | ⟨second, rest⟩⟩
              · rw [lookup_alone _ _ _ _ _ known closed edges] at good
                exact good
              · rw [lookup_single _ _ _ _ _ known closed edges] at good
                exact induction edge.source builder good
              · rw [lookup_merge _ _ _ _ _ known closed (by simp [edges])] at good
                have before := passEdges_misuse induction _ _ good
                exact before

end Build

/-! ## What lookups keep -/

structure Keeps (recording later : Recording) : Prop where
  isSealed : ∀ label, (later.builder.state label).isSealed =
    (recording.builder.state label).isSealed
  isPlaced : ∀ label, (later.builder.state label).isPlaced =
    (recording.builder.state label).isPlaced
  predecessors : ∀ label, (later.builder.state label).predecessors =
    (recording.builder.state label).predecessors
  hasBlock : ∀ label, later.builder.hasBlock label = recording.builder.hasBlock label
  script : later.script = recording.script
  explicit : later.explicit = recording.explicit
  current : later.builder.current = recording.builder.current
  declared : later.builder.declared = recording.builder.declared
  imports : later.builder.imports = recording.builder.imports
  layout : later.builder.function.layout = recording.builder.function.layout
  slots : later.builder.function.slots = recording.builder.function.slots
  references : later.builder.function.references = recording.builder.function.references

namespace Keeps

variable {recording middle later : Recording}

theorem refl (recording : Recording) : Keeps recording recording :=
  ⟨fun _ => rfl, fun _ => rfl, fun _ => rfl, fun _ => rfl, rfl, rfl, rfl, rfl, rfl, rfl, rfl, rfl⟩

theorem trans (first : Keeps recording middle) (second : Keeps middle later) :
    Keeps recording later where
  isSealed label := (second.isSealed label).trans (first.isSealed label)
  isPlaced label := (second.isPlaced label).trans (first.isPlaced label)
  predecessors label := (second.predecessors label).trans (first.predecessors label)
  hasBlock label := (second.hasBlock label).trans (first.hasBlock label)
  script := second.script.trans first.script
  explicit := second.explicit.trans first.explicit
  current := second.current.trans first.current
  declared := second.declared.trans first.declared
  imports := second.imports.trans first.imports
  layout := second.layout.trans first.layout
  slots := second.slots.trans first.slots
  references := second.references.trans first.references

end Keeps

theorem Resolve.keeps {recording later : Recording} (step : Resolve recording later) :
    Keeps recording later := by
  cases step <;> constructor <;>
    first
    | rfl
    | simp [Recording.pend, Recording.zero, Recording.inherit, Recording.join, Recording.pass]

theorem Resolves.keeps {recording later : Recording} (steps : Resolves recording later) :
    Keeps recording later := by
  induction steps with
  | refl => exact .refl recording
  | tail _ step induction => exact induction.trans step.keeps

/-! ## Arguments that are still to be passed -/

namespace Recording

variable {recording middle later : Recording}

/-- How many arguments for variables the branches to a block have to pass. As long as it is
not sealed they pass none. -/
def due (recording : Recording) (label : Label) : Nat :=
  if (recording.builder.state label).isSealed then (recording.joined label).length else 0

def Settled (recording : Recording) : Prop :=
  ∀ label, ∀ edge ∈ (recording.builder.state label).predecessors,
    (recording.appended edge).length = recording.due label

def SettledFor (recording : Recording) (var : Variable) : Prop :=
  ∀ label, recording.builder.known label var = none →
    ∀ edge ∈ (recording.builder.state label).predecessors,
      (recording.appended edge).length = recording.due label

end Recording

/-- What looking up a variable does: parameters and arguments get more by the same number,
except for the given surplus of arguments, and there are no new parameters where the variable
is known. -/
structure Shifts (var : Variable) (surplus : Edge → Nat) (recording later : Recording) :
    Prop where
  steps : Resolves recording later
  kept : ∀ label, recording.builder.known label var ≠ none →
    later.joined label = recording.joined label
  balance : ∀ label, ∀ edge ∈ (recording.builder.state label).predecessors,
    (later.appended edge).length + recording.due label =
      (recording.appended edge).length + later.due label + surplus edge

namespace Shifts

variable {recording middle later : Recording} {var : Variable} {first second : Edge → Nat}

theorem refl (var : Variable) (recording : Recording) :
    Shifts var (fun _ => 0) recording recording :=
  ⟨.refl, fun _ _ => rfl, fun _ _ _ => rfl⟩

theorem trans (left : Shifts var first recording middle) (right : Shifts var second middle later) :
    Shifts var (fun edge => first edge + second edge) recording later where
  steps := left.steps.trans right.steps
  kept label known := by
    rw [right.kept label (left.steps.known_ne_none known), left.kept label known]
  balance label edge member := by
    have before := left.balance label edge member
    have after := right.balance label edge (by
      rw [left.steps.keeps.predecessors]
      exact member)
    omega

theorem settledFor (shifts : Shifts var (fun _ => 0) recording later)
    (settled : recording.SettledFor var) : later.SettledFor var := by
  intro label unknown edge member
  rw [shifts.steps.keeps.predecessors] at member
  have before : recording.builder.known label var = none := by
    by_contra known
    exact shifts.steps.known_ne_none known unknown
  have equal := settled label before edge member
  have balance := shifts.balance label edge member
  omega

theorem settled (shifts : Shifts var (fun _ => 0) recording later)
    (settled : recording.Settled) : later.Settled := by
  intro label edge member
  rw [shifts.steps.keeps.predecessors] at member
  have equal := settled label edge member
  have balance := shifts.balance label edge member
  omega

theorem congr {surplus : Edge → Nat} (shifts : Shifts var first recording later)
    (equal : ∀ edge, first edge = surplus edge) : Shifts var surplus recording later := by
  rw [← funext equal]
  exact shifts

/-- A step that adds neither parameters of sealed blocks nor arguments. -/
theorem of_resolve (step : Resolve recording later)
    (kept : ∀ label, recording.builder.known label var ≠ none →
      later.joined label = recording.joined label)
    (due : ∀ label, later.due label = recording.due label)
    (appended : later.appended = recording.appended) :
    Shifts var (fun _ => 0) recording later := by
  refine ⟨.single step, kept, fun label edge _ => ?_⟩
  rw [due, appended, Nat.add_zero]

theorem pend {label : Label} {type : MachineType}
    (step : Resolve recording (recording.pend label var type))
    (unknown : recording.builder.known label var = none)
    (unsealed : (recording.builder.state label).isSealed = false) :
    Shifts var (fun _ => 0) recording (recording.pend label var type) := by
  refine of_resolve step ?_ ?_ rfl
  · intro other known
    have different : other ≠ label := by
      intro same
      rw [same] at known
      exact known unknown
    simp [Recording.pend, different]
  · intro other
    rw [Recording.due, Recording.due, step.keeps.isSealed]
    by_cases same : other = label
    · simp [same, unsealed]
    · simp [Recording.pend, same]

theorem pass {edge : Edge} {value : Value}
    (step : Resolve recording (recording.pass edge value)) :
    Shifts var (fun other => if other = edge then 1 else 0) recording
      (recording.pass edge value) := by
  refine ⟨.single step, fun _ _ => rfl, fun other link member => ?_⟩
  have due : (recording.pass edge value).due other = recording.due other := rfl
  rw [due]
  by_cases same : link = edge
  · subst same
    simp only [Recording.pass, Function.update_self, List.length_append, List.length_cons,
      List.length_nil, if_true]
    omega
  · simp [Recording.pass, same]

end Shifts

theorem Recording.SettledFor.pass {recording : Recording} {var : Variable} {label : Label}
    {edge : Edge} {value : Value} (settled : recording.SettledFor var)
    (scripted : recording.Scripted) (known : recording.builder.known label var ≠ none)
    (leads : edge ∈ (recording.builder.state label).predecessors) :
    (recording.pass edge value).SettledFor var := by
  intro other unknown link linked
  have different : link ≠ edge := by
    rintro rfl
    rw [scripted.target_unique linked leads] at unknown
    exact known unknown
  have unchanged : (recording.pass edge value).appended link = recording.appended link := by
    simp [Recording.pass, different]
  rw [unchanged]
  exact settled other unknown link linked

theorem Recording.SettledFor.join {recording : Recording} {var : Variable} {label : Label}
    {type : MachineType} (settled : recording.SettledFor var)
    (step : Resolve recording (recording.join label var type))
    (known : (recording.join label var type).builder.known label var ≠ none) :
    (recording.join label var type).SettledFor var := by
  intro other unknown edge member
  have different : other ≠ label := by
    rintro rfl
    exact known unknown
  have before : recording.builder.known other var = none := by
    by_contra there
    exact Resolves.known_ne_none (.single step) there unknown
  rw [step.keeps.predecessors] at member
  have old := settled other before edge member
  rw [Recording.due] at old
  rw [Recording.due, step.keeps.isSealed]
  simpa [Recording.join, different] using old

/-! ## Lookups as resolving steps -/

def Answers (var : Variable) (type : MachineType) (fuel : Nat) : Prop :=
  ∀ (label : Label) (recording : Recording), Sound recording → recording.SettledFor var →
    recording.builder.hasBlock label = true →
    recording.builder.declared.lookup var = some type →
    ((Build.lookup var type fuel label).run recording.builder).2.misuse = none →
    ∃ later : Recording,
      later.builder = ((Build.lookup var type fuel label).run recording.builder).2 ∧
      Shifts var (fun _ => 0) recording later ∧
      later.builder.known label var =
        some ((Build.lookup var type fuel label).run recording.builder).1

/-- Passing a variable along edges gives each of them the argument that comes next. -/
theorem passEdges_shifts {var : Variable} {type : MachineType} {fuel : Nat}
    (answers : Answers var type fuel) {label : Label} {param : Value} (edges : List Edge)
    (recording : Recording) (sound : Sound recording) (settled : recording.SettledFor var)
    (distinct : edges.Nodup) (known : recording.builder.known label var ≠ none)
    (next : ∀ edge ∈ edges, edge ∈ (recording.builder.state label).predecessors ∧
      (recording.joined label)[(recording.appended edge).length]? = some (var, param))
    (declared : recording.builder.declared.lookup var = some type)
    (good : (Build.passEdges var type fuel edges recording.builder).misuse = none) :
    ∃ later : Recording,
      later.builder = Build.passEdges var type fuel edges recording.builder ∧
      Shifts var (fun edge => if edge ∈ edges then 1 else 0) recording later := by
  induction edges generalizing recording with
  | nil =>
      refine ⟨recording, rfl, (Shifts.refl var recording).congr ?_⟩
      simp
  | cons edge rest induction =>
      obtain ⟨member, place⟩ := next edge List.mem_cons_self
      rw [Build.passEdges] at good ⊢
      have before := Build.passEdges_misuse (Build.lookup_misuse var type fuel) _ _ good
      obtain ⟨middle, equal, looked, found⟩ := answers edge.source recording sound settled
        (sound.scripted.hasBlock_source member) declared before
      generalize (Build.lookup var type fuel edge.source).run recording.builder = result
        at good equal found ⊢
      obtain ⟨value, builder⟩ := result
      simp only at equal found good ⊢
      subst equal
      -- Nothing has changed at the block itself, because the variable is known there.
      have joined := looked.kept label known
      have lengths : ∀ link ∈ (recording.builder.state label).predecessors,
          (middle.appended link).length = (recording.appended link).length := by
        intro link leads
        have balance := looked.balance label link leads
        rw [Recording.due, Recording.due, looked.steps.keeps.isSealed, joined] at balance
        omega
      have leads : edge ∈ (middle.builder.state label).predecessors := by
        rw [looked.steps.keeps.predecessors]
        exact member
      have step : Resolve middle (middle.pass edge value) := by
        refine .pass label edge var param value leads ?_ found
        rw [joined, lengths edge member]
        exact place
      have passed : Shifts var _ middle (middle.pass edge value) := Shifts.pass step
      have stays : (middle.pass edge value).SettledFor var :=
        (looked.settledFor settled).pass (sound.resolves looked.steps).scripted
          (looked.steps.known_ne_none known) leads
      have both := looked.trans passed
      obtain ⟨later, final, shifted⟩ := induction (middle.pass edge value)
        (sound.resolves both.steps) stays (List.nodup_cons.mp distinct).2
        (both.steps.known_ne_none known)
        (by
          intro link later
          obtain ⟨linked, following⟩ := next link (List.mem_cons_of_mem edge later)
          have different : link ≠ edge := by
            intro same
            rw [same] at later
            exact (List.nodup_cons.mp distinct).1 later
          refine ⟨by rw [both.steps.keeps.predecessors]; exact linked, ?_⟩
          have unchanged : (middle.pass edge value).appended link = middle.appended link := by
            simp [Recording.pass, different]
          rw [unchanged, lengths link linked, both.kept label known]
          exact following)
        (by
          rw [both.steps.keeps.declared]
          exact declared)
        good
      refine ⟨later, final, (both.trans shifted).congr fun link => ?_⟩
      by_cases same : link = edge
      · subst same
        simp [(List.nodup_cons.mp distinct).1]
      · simp [same]

/-- How a step can find out about a variable in a block. -/
theorem Resolve.learned {recording later : Recording} (step : Resolve recording later)
    {label : Label} {var : Variable} {value : Value}
    (unknown : recording.builder.known label var = none)
    (holds : later.builder.known label var = some value) :
    later.incoming label var = some value ∧
      ((recording.builder.state label).isSealed = false ∨
        (recording.builder.state label).predecessors = [] ∨
        (∃ edge, (recording.builder.state label).predecessors = [edge] ∧
          recording.builder.known edge.source var = some value) ∨
        2 ≤ (recording.builder.state label).predecessors.length) := by
  cases step with
  | pend other asked type inside unsealed fresh unreceived declared =>
      have place := recording.inside inside
      simp only [Recording.pend] at holds
      rw [Builder.known_withKnown _ _ _ _ _ (by simpa using place)] at holds
      split at holds
      · rename_i here
        rw [here.1, here.2]
        simp only [Recording.pend, Recording.received_eq]
        exact ⟨by simpa using holds, .inl unsealed⟩
      · simp [unknown] at holds
  | zero other asked type inside closed alone fresh unreceived declared =>
      have place := recording.inside inside
      simp only [Recording.zero] at holds
      rw [Builder.known_withKnown _ _ _ _ _ (by simpa using place)] at holds
      split at holds
      · rename_i here
        rw [here.1, here.2]
        simp only [Recording.zero, Recording.received_eq]
        exact ⟨by simpa using holds, .inr (.inl alone)⟩
      · simp [unknown] at holds
  | inherit other asked edge content inside closed only source fresh =>
      have place := recording.inside inside
      simp only [Recording.inherit] at holds
      rw [Builder.known_withKnown _ _ _ _ _ place] at holds
      split at holds
      · rename_i here
        cases holds
        rw [here.1, here.2]
        simp only [Recording.inherit, Recording.received_eq]
        exact ⟨by simp, .inr (.inr (.inl ⟨edge, only, source⟩))⟩
      · rw [unknown] at holds
        cases holds
  | join other asked type inside closed several fresh unreceived declared =>
      have place := recording.inside inside
      simp only [Recording.join] at holds
      rw [Builder.known_withKnown _ _ _ _ _ (by simpa using place)] at holds
      split at holds
      · rename_i here
        rw [here.1, here.2]
        simp only [Recording.join, Recording.received_eq]
        exact ⟨by simpa using holds, .inr (.inr (.inr several))⟩
      · simp [unknown] at holds
  | pass other link asked param content member next source =>
      rw [show (recording.pass link content).builder.known label var =
        recording.builder.known label var from rfl, unknown] at holds
      cases holds

/-- What becomes known of a variable in a sealed block with one predecessor is what is known
there. -/
theorem Resolves.inherited {recording later : Recording} (steps : Resolves recording later)
    {label : Label} {edge : Edge} {var : Variable} {value : Value}
    (closed : (recording.builder.state label).isSealed = true)
    (only : (recording.builder.state label).predecessors = [edge])
    (unknown : recording.builder.known label var = none)
    (holds : later.builder.known label var = some value) :
    later.builder.known edge.source var = some value ∧
      later.incoming label var = some value := by
  induction steps generalizing value with
  | refl =>
      rw [unknown] at holds
      cases holds
  | @tail middle later before step induction =>
      cases known : middle.builder.known label var with
      | some content =>
          have same := step.known known
          rw [holds] at same
          cases same
          obtain ⟨source, received⟩ := induction known
          exact ⟨step.known source, step.grows.incoming label var value received⟩
      | none =>
          have keeps := Resolves.keeps before
          obtain ⟨received, way⟩ := step.learned known holds
          refine ⟨?_, received⟩
          rw [keeps.isSealed, keeps.predecessors, closed, only] at way
          rcases way with unsealed | alone | ⟨link, single, source⟩ | several
          · cases unsealed
          · cases alone
          · cases single
            exact step.known source
          · simp at several

namespace Shifts

/-- One more parameter for a variable, followed by one more argument of every branch. -/
theorem join {recording later : Recording} {label : Label} {var : Variable} {type : MachineType}
    (step : Resolve recording (recording.join label var type))
    (unknown : recording.builder.known label var = none)
    (closed : (recording.builder.state label).isSealed = true)
    (passed : Shifts var
      (fun edge => if edge ∈ (recording.builder.state label).predecessors then 1 else 0)
      (recording.join label var type) later)
    (scripted : recording.Scripted) : Shifts var (fun _ => 0) recording later := by
  refine ⟨.head step passed.steps, ?_, ?_⟩
  · intro other known
    have different : other ≠ label := by
      intro same
      rw [same] at known
      exact known unknown
    rw [passed.kept other (Resolves.known_ne_none (.single step) known)]
    simp [Recording.join, different]
  · intro other edge member
    have balance := passed.balance other edge (by
      rw [step.keeps.predecessors]
      exact member)
    have unchanged : (recording.join label var type).appended = recording.appended := rfl
    rw [unchanged, Recording.due, step.keeps.isSealed] at balance
    rw [Recording.due]
    by_cases same : other = label
    · subst same
      simp [Recording.join, closed, member] at balance ⊢
      omega
    · have elsewhere : edge ∉ (recording.builder.state label).predecessors := fun again =>
        same (scripted.target_unique member again)
      simp [Recording.join, same, elsewhere] at balance ⊢
      exact balance

end Shifts

/-- A lookup in a sealed block with one predecessor. -/
theorem lookup_single_answers {var : Variable} {type : MachineType} {fuel : Nat}
    (answers : Answers var type fuel) {label : Label} {edge : Edge} {recording : Recording}
    (sound : Sound recording) (settled : recording.SettledFor var)
    (unknown : recording.builder.known label var = none)
    (inside : recording.builder.hasBlock label = true)
    (closed : (recording.builder.state label).isSealed = true)
    (only : (recording.builder.state label).predecessors = [edge])
    (declared : recording.builder.declared.lookup var = some type) :
    let found := (Build.lookup var type fuel edge.source).run recording.builder
    (found.2.withKnown label var found.1).misuse = none →
      ∃ later : Recording, later.builder = found.2.withKnown label var found.1 ∧
        Shifts var (fun _ => 0) recording later ∧
        later.builder.known label var = some found.1 := by
  intro found good
  have member : edge ∈ (recording.builder.state label).predecessors := by simp [only]
  obtain ⟨middle, equal, looked, source⟩ := answers edge.source recording sound settled
    (sound.scripted.hasBlock_source member) declared good
  have keeps := looked.steps.keeps
  have insideThen : middle.builder.hasBlock label = true := by
    rw [keeps.hasBlock]
    exact inside
  have fresh : (middle.builder.known label var = none ∧ middle.incoming label var = none) ∨
      (middle.builder.known label var = some found.1 ∧
        middle.incoming label var = some found.1) := by
    cases known : middle.builder.known label var with
    | none =>
        exact .inl ⟨rfl, ((sound.resolves looked.steps).tracked.untouched known).1⟩
    | some value =>
        obtain ⟨there, received⟩ := looked.steps.inherited closed only unknown known
        rw [source] at there
        cases there
        exact .inr ⟨rfl, received⟩
  have step := Resolve.inherit label var edge found.1 insideThen
    (by rw [keeps.isSealed]; exact closed) (by rw [keeps.predecessors]; exact only) source fresh
  have last : Shifts var (fun _ => 0) middle (middle.inherit label var found.1) := by
    refine Shifts.of_resolve step (fun _ _ => rfl) ?_ rfl
    intro other
    rw [Recording.due, Recording.due, step.keeps.isSealed]
    rfl
  refine ⟨_, ?_, looked.trans last, ?_⟩
  · exact congrArg (Builder.withKnown · label var found.1) equal
  · simp only [Recording.inherit]
    rw [Builder.known_withKnown _ _ _ _ _ (middle.inside insideThen)]
    simp

/-- A lookup in a sealed block with several predecessors. -/
theorem lookup_merge_answers {var : Variable} {type : MachineType} {fuel : Nat}
    (answers : Answers var type fuel) {label : Label} {recording : Recording}
    (sound : Sound recording) (settled : recording.SettledFor var)
    (unknown : recording.builder.known label var = none)
    (inside : recording.builder.hasBlock label = true)
    (closed : (recording.builder.state label).isSealed = true)
    (several : 2 ≤ (recording.builder.state label).predecessors.length)
    (declared : recording.builder.declared.lookup var = some type)
    (good : (Build.passEdges var type fuel (recording.builder.state label).predecessors
      (recording.join label var type).builder).misuse = none) :
    ∃ later : Recording,
      later.builder = Build.passEdges var type fuel
        (recording.builder.state label).predecessors
        (recording.join label var type).builder ∧
      Shifts var (fun _ => 0) recording later ∧
      later.builder.known label var = some recording.builder.nextValue := by
  have step := Resolve.join label var type inside closed several unknown
    (sound.tracked.untouched unknown).1 declared
  have known : (recording.join label var type).builder.known label var =
      some recording.builder.nextValue := by
    simp only [Recording.join]
    rw [Builder.known_withKnown _ _ _ _ _ (by simpa using recording.inside inside)]
    simp
  have aware : (recording.join label var type).builder.known label var ≠ none := by simp [known]
  obtain ⟨later, equal, passed⟩ := passEdges_shifts answers
    (recording.builder.state label).predecessors (recording.join label var type)
    (sound.resolves (.single step)) (settled.join step aware) (sound.linked.distinct label) aware
    (by
      intro edge member
      refine ⟨by rw [step.keeps.predecessors]; exact member, ?_⟩
      have length := settled label unknown edge member
      rw [Recording.due, closed, if_pos rfl] at length
      simp only [Recording.join, Function.update_self, length]
      exact List.getElem?_concat_length)
    (by
      rw [step.keeps.declared]
      exact declared)
    good
  exact ⟨later, equal, Shifts.join step unknown closed passed sound.scripted,
    passed.steps.known known⟩

theorem lookup_answers (var : Variable) (type : MachineType) (fuel : Nat) :
    Answers var type fuel := by
  induction fuel with
  | zero =>
      intro label recording sound settled inside declared good
      rw [Build.lookup_zero] at good
      simp [Builder.blame] at good
  | succ fuel answers =>
      intro label recording sound settled inside declared good
      have place := recording.inside inside
      cases unknown : recording.builder.known label var with
      | some value =>
          rw [Build.lookup_known _ _ _ _ _ unknown]
          exact ⟨recording, rfl, .refl var recording, unknown⟩
      | none =>
          have fresh := (sound.tracked.untouched unknown).1
          cases closed : (recording.builder.state label).isSealed with
          | false =>
              rw [Build.lookup_open _ _ _ _ _ unknown closed]
              have step := Resolve.pend label var type inside closed unknown fresh declared
              refine ⟨_, rfl, Shifts.pend step unknown closed, ?_⟩
              simp only [Recording.pend]
              rw [Builder.known_withKnown _ _ _ _ _ (by simpa using place)]
              simp
          | true =>
              rcases edges : (recording.builder.state label).predecessors with
                _ | ⟨edge, _ | ⟨second, rest⟩⟩
              · rw [Build.lookup_alone _ _ _ _ _ unknown closed edges]
                have step := Resolve.zero label var type inside closed edges unknown fresh
                  declared
                refine ⟨_, rfl, Shifts.of_resolve step (fun _ _ => rfl) ?_ rfl, ?_⟩
                · intro other
                  rw [Recording.due, Recording.due, step.keeps.isSealed]
                  rfl
                · simp only [Recording.zero]
                  rw [Builder.known_withKnown _ _ _ _ _ (by simpa using place)]
                  simp
              · rw [Build.lookup_single _ _ _ _ _ unknown closed edges] at good ⊢
                exact lookup_single_answers answers sound settled unknown inside closed edges
                  declared good
              · have several : 2 ≤ (recording.builder.state label).predecessors.length := by
                  simp [edges]
                rw [Build.lookup_merge _ _ _ _ _ unknown closed several] at good ⊢
                exact lookup_merge_answers answers sound settled unknown inside closed several
                  declared good

end ExprLang.Ssa
