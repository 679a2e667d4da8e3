import ExprLang.Proofs.Ssa.Emission

/-!
# Sealing

Sealing a block passes arguments for all its pending parameters, one parameter after the other
and for each of them along all edges.
-/

namespace ExprLang.Ssa

namespace Build

theorem passWith_run (look : MachineType → Nat → Label → Build Value) (builder : Builder)
    (label : Label) (param : Value) :
    (do
      let builder ← get
      let type := builder.function.type param
      let fuel ← lookupFuel
      (builder.state label).predecessors.forM fun edge => do
        let argument ← look type fuel edge.source
        passArgument edge argument : Build Unit).run builder =
      ((builder.state label).predecessors.forM fun edge => do
        let argument ← look (builder.function.type param) (fuel builder) edge.source
        passArgument edge argument).run builder := rfl

theorem passAlong_run (builder : Builder) (label : Label) (var : Variable) (param : Value) :
    (passAlong label var param).run builder =
      ((), passEdges var (builder.function.type param) (fuel builder)
        (builder.state label).predecessors builder) := by
  rw [passAlong, passWith_run (lookup var)]
  exact passEdges_run var (builder.function.type param) (fuel builder)
    (builder.state label).predecessors builder

theorem passAlong_misuse {builder : Builder} {label : Label} {var : Variable} {param : Value}
    (good : ((passAlong label var param).run builder).2.misuse = none) :
    builder.misuse = none := by
  rw [passAlong_run] at good
  exact passEdges_misuse (lookup_misuse _ _ _) _ _ good

theorem passPending_none {builder : Builder} {label : Label} {index : Nat} (count : Nat)
    (none : (builder.state label).pending[index]? = none) :
    (passPending label count index).run builder = ((), builder) := by
  cases count with
  | zero => rfl
  | succ count =>
      simp only [passPending, StateT.run_bind, StateT.run_get, pure_bind, none]
      rfl

theorem passPending_some {builder : Builder} {label : Label} {index : Nat} {var : Variable}
    {param : Value} (count : Nat)
    (some : (builder.state label).pending[index]? = some (var, param)) :
    (passPending label (count + 1) index).run builder =
      (passPending label count (index + 1)).run ((passAlong label var param).run builder).2 := by
  simp only [passPending, StateT.run_bind, StateT.run_get, pure_bind, some]
  rfl

theorem passPending_misuse {builder : Builder} {label : Label} {count index : Nat}
    (good : ((passPending label count index).run builder).2.misuse = none) :
    builder.misuse = none := by
  induction count generalizing builder index with
  | zero => exact good
  | succ count induction =>
      cases found : (builder.state label).pending[index]? with
      | none =>
          rw [passPending_none _ found] at good
          exact good
      | some item =>
          rw [passPending_some _ found] at good
          exact passAlong_misuse (induction good)

theorem sealBlock_run {builder : Builder} {label : Label}
    (inside : builder.hasBlock label = true)
    (unsealed : (builder.state label).isSealed = false) :
    (sealBlock label).run builder =
      ((), (((passPending label builder.declared.length 0).run builder).2).withSeal label) := by
  simp only [sealBlock, StateT.run_bind, StateT.run_get, pure_bind, inside, unsealed]
  rfl

theorem sealBlock_inv {builder : Builder} {label : Label}
    (good : ((sealBlock label).run builder).2.misuse = none) :
    builder.misuse = none ∧ builder.hasBlock label = true ∧
      (builder.state label).isSealed = false := by
  cases inside : builder.hasBlock label with
  | false =>
      exfalso
      simp only [sealBlock, StateT.run_bind, StateT.run_get, pure_bind, inside] at good
      exact builder.misuse_blame_ne _ good
  | true =>
      cases unsealed : (builder.state label).isSealed with
      | true =>
          exfalso
          simp only [sealBlock, StateT.run_bind, StateT.run_get, pure_bind, inside, unsealed]
            at good
          exact builder.misuse_blame_ne _ good
      | false =>
          rw [sealBlock_run inside unsealed] at good
          exact ⟨passPending_misuse good, rfl, rfl⟩

end Build

namespace Recording

def SettledBut (recording : Recording) (label : Label) : Prop :=
  ∀ other, other ≠ label → ∀ edge ∈ (recording.builder.state other).predecessors,
    (recording.appended edge).length = recording.due other

theorem SettledBut.settledFor {recording : Recording} {label : Label} {var : Variable}
    (settled : recording.SettledBut label) (known : recording.builder.known label var ≠ none) :
    recording.SettledFor var := by
  intro other unknown edge member
  refine settled other ?_ edge member
  intro same
  rw [same] at unknown
  exact known unknown

end Recording

/-- Passing one pending parameter of a block that is not sealed along all edges. -/
theorem passAlong_shifts {recording : Recording} (sound : Sound recording) {label : Label}
    {var : Variable} {param : Value} {index : Nat} (settled : recording.SettledBut label)
    (unsealed : (recording.builder.state label).isSealed = false)
    (item : (recording.joined label)[index]? = some (var, param))
    (lengths : ∀ edge ∈ (recording.builder.state label).predecessors,
      (recording.appended edge).length = index)
    (good : ((Build.passAlong label var param).run recording.builder).2.misuse = none) :
    ∃ later : Recording,
      later.builder = ((Build.passAlong label var param).run recording.builder).2 ∧
      Resolves recording later ∧ later.joined label = recording.joined label ∧
      (∀ edge ∈ (recording.builder.state label).predecessors,
        (later.appended edge).length = index + 1) ∧ later.SettledBut label := by
  have joined : (var, param) ∈ recording.joined label := List.mem_of_getElem? item
  have received := sound.tracked.joins label var param joined
  obtain ⟨type, declared, typed⟩ := sound.typed.incoming label var param received
  have known : recording.builder.known label var ≠ none := by
    rw [sound.tracked.known label]
    intro unknown
    rw [(settle_eq_none.mp unknown).1] at received
    cases received
  have same : recording.builder.function.type param = type := by
    simp [Function.type, typed]
  rw [Build.passAlong_run, same] at good ⊢
  obtain ⟨later, equal, shifts⟩ := passEdges_shifts (lookup_answers var type _)
    (recording.builder.state label).predecessors recording sound (settled.settledFor known)
    (sound.linked.distinct label) known
    (fun edge member => ⟨member, by rw [lengths edge member]; exact item⟩) declared good
  refine ⟨later, equal, shifts.steps, shifts.kept label known, ?_, ?_⟩
  · intro edge member
    have balance := shifts.balance label edge member
    rw [Recording.due, Recording.due, shifts.steps.keeps.isSealed, unsealed,
      lengths edge member] at balance
    simpa [member] using balance
  · intro other different edge member
    rw [shifts.steps.keeps.predecessors] at member
    have elsewhere : edge ∉ (recording.builder.state label).predecessors := fun again =>
      different (sound.scripted.target_unique member again)
    have balance := shifts.balance other edge member
    have old := settled other different edge member
    simp only [elsewhere, if_false] at balance
    omega

/-- Passing all pending parameters from an index on. -/
theorem passPending_resolves {recording : Recording} (sound : Sound recording) {label : Label}
    {count index : Nat} (settled : recording.SettledBut label)
    (unsealed : (recording.builder.state label).isSealed = false)
    (lengths : ∀ edge ∈ (recording.builder.state label).predecessors,
      (recording.appended edge).length = index)
    (early : index ≤ (recording.joined label).length)
    (enough : (recording.joined label).length ≤ index + count)
    (good : ((Build.passPending label count index).run recording.builder).2.misuse = none) :
    ∃ later : Recording,
      later.builder = ((Build.passPending label count index).run recording.builder).2 ∧
      Resolves recording later ∧
      (∀ edge ∈ (recording.builder.state label).predecessors,
        (later.appended edge).length = (later.joined label).length) ∧
      later.SettledBut label := by
  induction count generalizing recording index with
  | zero =>
      refine ⟨recording, rfl, .refl, ?_, settled⟩
      intro edge member
      rw [lengths edge member]
      omega
  | succ count induction =>
      have pending := sound.tracked.pending label unsealed
      cases found : (recording.joined label)[index]? with
      | none =>
          rw [Build.passPending_none _ (by rw [pending]; exact found)]
          refine ⟨recording, rfl, .refl, ?_, settled⟩
          intro edge member
          have length := List.getElem?_eq_none_iff.mp found
          rw [lengths edge member]
          omega
      | some item =>
          obtain ⟨var, param⟩ := item
          rw [Build.passPending_some _ (by rw [pending]; exact found)] at good ⊢
          obtain ⟨middle, equal, steps, joined, longer, others⟩ :=
            passAlong_shifts sound settled unsealed found lengths (Build.passPending_misuse good)
          rw [← equal] at good ⊢
          have keeps := steps.keeps
          have inside := (List.getElem?_eq_some_iff.mp found).1
          obtain ⟨later, final, rest, complete, last⟩ := induction (sound.resolves steps) others
            (by rw [keeps.isSealed]; exact unsealed)
            (by
              intro edge member
              rw [keeps.predecessors] at member
              exact longer edge member)
            (by rw [joined]; omega) (by rw [joined]; omega) good
          refine ⟨later, final, steps.trans rest, ?_, last⟩
          intro edge member
          exact complete edge (by rw [keeps.predecessors]; exact member)

/-- Sealing a block, if it is no misuse. -/
theorem sealBlock_performs {entry : Option Label} {recording : Recording}
    (sound : Sound recording) (settled : recording.Settled) {label : Label}
    (good : ((Build.sealBlock label).run recording.builder).2.misuse = none) :
    ∃ later : Recording,
      later.builder = ((Build.sealBlock label).run recording.builder).2 ∧
      later.script = recording.script ∧ Performs entry (.close label) recording later := by
  obtain ⟨_, inside, unsealed⟩ := Build.sealBlock_inv good
  rw [Build.sealBlock_run inside unsealed] at good ⊢
  have empty : ∀ edge ∈ (recording.builder.state label).predecessors,
      (recording.appended edge).length = 0 := by
    intro edge member
    rw [settled label edge member, Recording.due, unsealed]
    rfl
  obtain ⟨middle, equal, steps, complete, others⟩ := passPending_resolves sound
    (fun other _ => settled other) unsealed empty (Nat.zero_le _)
    (by rw [Nat.zero_add]; exact sound.joined_length_le label) good
  have keeps := steps.keeps
  have insideThen : middle.builder.hasBlock label = true := by
    rw [keeps.hasBlock]
    exact inside
  have completeThen : ∀ edge ∈ (middle.builder.state label).predecessors,
      (middle.appended edge).length = (middle.joined label).length := by
    intro edge member
    rw [keeps.predecessors] at member
    exact complete edge member
  refine ⟨middle.close label, ?_, keeps.script, .close label steps ?_ insideThen
    (by rw [keeps.isSealed]; exact unsealed) completeThen⟩
  · exact congrArg (Builder.withSeal · label) equal
  · intro other edge member
    have place := middle.inside insideThen
    simp only [Recording.close, Builder.predecessors_withSeal] at member
    rw [Recording.due]
    simp only [Recording.close, Builder.state_withSeal _ _ _ place]
    by_cases same : other = label
    · rw [same] at member ⊢
      simpa using completeThen edge member
    · have old := others other same edge member
      rw [Recording.due] at old
      simpa [same] using old

end ExprLang.Ssa
