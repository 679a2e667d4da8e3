import ExprLang.Proofs.Lowering.Scope
import ExprLang.Proofs.Lowering.Walk

/-!
# Stages at which lowering can go on

At every stage the builder is in order, so that the next request is no misuse and is done as it
was meant.
-/

namespace ExprLang

namespace Ssa

def Shape.Descends (shape : Shape) : Prop :=
  ∀ label edge, shape.isSealed label = true → shape.predecessors label = [edge] →
    edge.source.index < label.index

theorem Shape.Flows.descends {source target : Label} {first last : Shape}
    (flows : Flows source target first last) (bare : last.Bare) (descends : first.Descends) :
    last.Descends := by
  intro label edge closed only
  by_cases old : label.index < first.blocks
  · rw [flows.apart.isSealed label old] at closed
    rw [flows.apart.predecessors label old] at only
    exact descends label edge closed only
  · by_cases inside : label.index < last.blocks
    · exact (flows.inner label (by omega) inside).1.descends edge only
    · rw [bare.isSealed label (by omega)] at closed
      cases closed

/-- A block may be sealed if it can be entered in several ways, or from an earlier block. -/
theorem Performs.descends {entry : Option Label} {deed : Deed} {recording later : Recording}
    (performs : Performs entry deed recording later) (descends : recording.shape.Descends)
    (closing : ∀ label, deed = .close label → ∀ edge,
      recording.shape.predecessors label = [edge] → edge.source.index < label.index) :
    later.shape.Descends := by
  cases deed with
  | create => rw [performs.shape_create]; exact descends
  | switch label => rw [performs.shape_switch]; exact descends
  | parameter label type => rw [performs.shape_parameter]; exact descends
  | declare var type => rw [performs.shape_declare]; exact descends
  | refer external => rw [performs.shape_refer]; exact descends
  | reserve size => rw [performs.shape_reserve]; exact descends
  | define var value =>
      obtain ⟨label, current⟩ : ∃ label, recording.shape.current = some label := by
        cases performs with
        | define label _ _ _ current => exact ⟨label, current⟩
      rw [performs.shape_define current]
      exact descends
  | use var value =>
      obtain ⟨label, current⟩ : ∃ label, recording.shape.current = some label := by
        cases performs with
        | use label _ _ looked _ current =>
            rw [looked.keeps.current] at current
            exact ⟨label, current⟩
      rw [performs.shape_use current]
      exact descends
  | close label =>
      rw [performs.shape_close]
      intro other edge closed only
      by_cases same : other = label
      · subst same
        exact closing other rfl edge only
      · simp only [Shape.close, Function.update_of_ne same] at closed
        exact descends other edge closed only
  | emit operation types =>
      obtain ⟨label, current, fits⟩ : ∃ label, recording.shape.current = some label ∧
          operation.Fits recording.builder types := by
        cases performs with
        | emit label _ _ current _ _ fits => exact ⟨label, current, fits⟩
      rw [performs.shape_emit current]
      intro other edge closed only
      have elsewhere : ∀ destination ∈ operation.destinations, destination.block ≠ other := by
        rintro destination member rfl
        have unsealed := (fits.destination member).2
        exact Bool.false_ne_true (unsealed.symm.trans closed)
      simp only [Shape.emit, Shape.edgesTo_eq_nil 0 elsewhere, List.append_nil] at only
      exact descends other edge closed only

theorem Performs.type?_parameter {entry : Option Label} {label : Label} {type : MachineType}
    {recording later : Recording}
    (performs : Performs entry (.parameter label type) recording later) :
    later.builder.function.type? recording.builder.nextValue = some type := by
  cases performs
  exact Builder.type?_withParameter _ _ _

theorem Performs.type?_emit {entry : Option Label} {operation : Operation} {type : MachineType}
    {recording later : Recording}
    (performs : Performs entry (.emit operation [type]) recording later) :
    later.builder.function.type? recording.builder.nextValue = some type := by
  cases performs
  simp [Function.type?, Function.value?, Recording.emit, Builder.withInstruction,
    Builder.modifyBlock, Builder.withValues, Builder.nextValue]

theorem Performs.suits {entry : Option Label} {var : Variable} {value : Value}
    {recording later : Recording} (performs : Performs entry (.use var value) recording later)
    (sound : Sound recording) : later.Suits var value := by
  cases performs with
  | use label _ _ looked settled current holds early =>
      have soundThen := sound.resolves looked
      exact soundThen.typed.known soundThen.tracked holds

theorem Recording.traceable {recording : Recording} (sound : Sound recording)
    (descends : recording.shape.Descends) : recording.builder.Traceable where
  balanced := recording.balanced
  inside _ _ member := recording.inside (sound.scripted.hasBlock_source member)
  unwinds := Builder.unwinds_of_descends descends

end Ssa

namespace Lowering

open Ssa

/-! ## Types of values -/

def Stage.HasType (stage : Stage) (value : Value) (type : MachineType) : Prop :=
  stage.recording.builder.function.type? value = some type

section Types

variable {setting : Setting} {names : List String} {first last : Stage} {value : Value}
  {type : MachineType}

theorem Stage.HasType.exist (typed : first.HasType value type) :
    (first.recording.builder.function.value? value).isSome = true := by
  rw [HasType, Function.type?, Option.map_eq_some_iff] at typed
  obtain ⟨info, found, _⟩ := typed
  rw [found]
  rfl

theorem Stage.HasType.type_eq (typed : first.HasType value type) :
    first.recording.builder.function.type value = type := by
  rw [Function.type, typed]
  rfl

theorem Stage.HasType.reaches (typed : first.HasType value type) (reaches : Reaches first last) :
    last.HasType value type :=
  (Moves.grows reaches.moves).type? typed

theorem Does.parameter_hasType {label : Label} (does : Does [.parameter label type] first last) :
    last.HasType first.next type := by
  obtain ⟨_ | ⟨performs, _ | _⟩, same⟩ := does
  exact performs.type?_parameter

theorem Does.emit_hasType {operation : Operation}
    (does : Does [.emit operation [type]] first last) : last.HasType first.next type := by
  obtain ⟨_ | ⟨performs, _ | _⟩, same⟩ := does
  exact performs.type?_emit

theorem Does.use_hasType {var : Variable} (does : Does [.use var value] first last)
    (sound : Sound first.recording) (tabled : Tabled setting names first) :
    last.HasType value .i64 := by
  have tabledThen := does.tabled rfl tabled
  obtain ⟨_ | ⟨performs, _ | _⟩, same⟩ := does
  obtain ⟨type, declared, typed⟩ := performs.suits sound
  rw [tabledThen.declared] at declared
  split at declared
  · cases declared
    exact typed
  · cases declared

theorem Forks.hasType {test result : Value} (forks : Forks test first result last) :
    last.HasType result .i64 := by
  obtain ⟨creates, merges, branches⟩ := forks
  exact merges.parameter_hasType.reaches branches.reaches

theorem Lowers.hasType {work : Work} {values : List Value}
    (lowers : Lowers setting work first values last) :
    ∀ {names}, Sound first.recording → Tabled setting names first →
      ∀ value ∈ values, last.HasType value .i64 := by
  induction lowers with
  | integer emits | boolean emits =>
      intro names sound tabled
      simpa using emits.emit_hasType
  | ident _ uses =>
      intro names sound tabled
      simpa using uses.use_hasType sound tabled
  | comparison _ _ _ widens =>
      intro names sound tabled
      simpa using widens.emit_hasType
  | arithmetic _ _ emits | call _ _ emits | each _ _ _ _ _ _ emits =>
      intro names sound tabled
      simpa using emits.emit_hasType
  | bind _ binds inner =>
      intro names sound tabled value member
      exact (inner sound tabled value member).reaches binds.reaches
  | sequence onLeft _ _ right =>
      intro names sound tabled
      exact right (onLeft.reaches.sound sound) (onLeft.tabled tabled)
  | conditional onTest forks leftArm turns rightArm joins =>
      intro names sound tabled
      have reaches := (leftArm.reaches.trans turns.reaches).trans
        (rightArm.reaches.trans joins.reaches)
      simpa using forks.hasType.reaches reaches
  | array _ _ _ _ locates =>
      intro names sound tabled
      simpa using locates.emit_hasType
  | index _ _ _ _ _ _ _ loads | length _ loads =>
      intro names sound tabled
      simpa using loads.emit_hasType
  | nil | stop => simp
  | cons onHead onTail head tail =>
      intro names sound tabled value member
      rcases List.mem_cons.mp member with rfl | later
      · exact (head sound tabled value List.mem_cons_self).reaches onTail.reaches
      · exact tail (onHead.reaches.sound sound) (onHead.tabled tabled) value later
  | store => simp

end Types

/-! ## Stages at which nothing is in the way -/

structure Steady (stage : Stage) : Prop where
  sound : Sound stage.recording
  settled : stage.recording.Settled
  descends : stage.shape.Descends
  clean : stage.recording.builder.misuse = none

/-- The builder is in order, it knows the variables and functions that it has to, and the block
that is filled can be filled further. -/
structure Ready (setting : Setting) (names : List String) (stage : Stage) : Prop
    extends Steady stage where
  tabled : Tabled setting names stage
  active : ∃ source, stage.shape.Active source

section Readiness

variable {setting : Setting} {names others : List String} {first last : Stage}

theorem Does.steady {deed : Deed} (does : Does [deed] first last) (steady : Steady first)
    (clean : last.recording.builder.misuse = none)
    (closing : ∀ label, deed = .close label → ∀ edge,
      first.shape.predecessors label = [edge] → edge.source.index < label.index) :
    Steady last where
  sound := does.reaches.sound steady.sound
  settled := steady.settled.performsAll steady.sound does.performs
  descends := by
    obtain ⟨_ | ⟨performs, _ | _⟩, _⟩ := does
    exact performs.descends steady.descends closing
  clean := clean

theorem Ready.later (ready : Ready setting names first) (reaches : Reaches first last)
    (tabled : Tabled setting others last) (descends : last.shape.Descends)
    (active : ∃ source, last.shape.Active source)
    (clean : last.recording.builder.misuse = none) : Ready setting others last where
  tabled := tabled
  sound := reaches.sound ready.sound
  settled := by
    obtain ⟨deeds, performs⟩ := reaches
    exact ready.settled.performsAll ready.sound performs
  descends := descends
  active := active
  clean := clean

theorem Ready.flows (ready : Ready setting names first) (reaches : Reaches first last)
    (tabled : Tabled setting others last) {source target : Label}
    (flows : Shape.Flows source target first.shape last.shape)
    (clean : last.recording.builder.misuse = none) : Ready setting others last :=
  ready.later reaches tabled
    (flows.descends (Recording.bare (reaches.sound ready.sound)) ready.descends)
    ⟨target, flows.active⟩ clean

theorem Does.emit_ready {operation : Operation} {types : List MachineType}
    (does : Does [.emit operation types] first last) (plain : operation.isTerminator = false)
    (ready : Ready setting names first) (clean : last.recording.builder.misuse = none) :
    Ready setting names last := by
  obtain ⟨source, active⟩ := ready.active
  exact ready.flows does.reaches (does.tabled rfl ready.tabled) (does.emit_flows plain active)
    clean

theorem Does.reserve_ready {size : UInt32} (does : Does [.reserve size] first last)
    (ready : Ready setting names first) (clean : last.recording.builder.misuse = none) :
    Ready setting names last := by
  refine ready.later does.reaches (does.tabled rfl ready.tabled) ?_ ?_ clean
  · rw [does.reserve_shape]
    exact ready.descends
  · rw [does.reserve_shape]
    exact ready.active

theorem Binds.ready {name : String} {value : Value} (binds : Binds name value first last)
    (ready : Ready setting names first) (clean : last.recording.builder.misuse = none) :
    Ready setting (name :: names) last := by
  obtain ⟨source, active⟩ := ready.active
  exact ready.flows binds.reaches (binds.tabled ready.tabled) (binds.flows active) clean

theorem Refers.ready {name : String} {reference : Reference}
    (refers : Refers setting name first reference last) (ready : Ready setting names first)
    (clean : last.recording.builder.misuse = none) : Ready setting names last := by
  refine ready.later refers.reaches (refers.tabled ready.tabled) ?_ ?_ clean
  · rw [refers.shape]
    exact ready.descends
  · rw [refers.shape]
    exact ready.active

theorem Lowers.ready {work : Work} {values : List Value}
    (lowers : Lowers setting work first values last) (ready : Ready setting names first)
    (clean : last.recording.builder.misuse = none) : Ready setting (work.scope names) last := by
  obtain ⟨source, active⟩ := ready.active
  obtain ⟨target, flows⟩ := lowers.flows ready.sound active
  exact ready.flows lowers.reaches (lowers.tabled ready.tabled) flows clean

end Readiness

end Lowering

end ExprLang
