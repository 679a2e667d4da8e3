import ExprLang.Proofs.Lowering.Derivation
import ExprLang.Proofs.Ssa.Grounding

/-!
# Dominance in lowered code

While an expression is lowered, values that were got for its parts are kept until they are
used, and blocks may be made in between. They can still be used, because all of these blocks
can only be entered by way of the block in which the value was got.
-/

namespace ExprLang.Lowering

open Ssa

/-- A function is finished some time after a stage. -/
structure Ends (stage : Stage) (final : Recording) : Prop where
  moves : Moves (some firstBlock) stage.recording final
  sound : Sound stage.recording
  entry : final.builder.function.entry? = some firstBlock

namespace Ends

variable {first last : Stage} {final : Recording} {source target label : Label}

theorem earlier (ends : Ends last final) (reaches : Reaches first last)
    (sound : Sound first.recording) : Ends first final :=
  ⟨reaches.moves.trans ends.moves, sound, ends.entry⟩

theorem script (ends : Ends last final) (label : Label) :
    last.shape.script label <+: final.script label :=
  (Moves.grows ends.moves).script label

theorem explicit (ends : Ends last final) {value : Value}
    (member : value ∈ last.shape.explicit label) : value ∈ final.explicit label :=
  ((Moves.grows ends.moves).explicit label).subset member

theorem precedes (ends : Ends last final)
    (flows : Shape.Flows source target first.shape last.shape)
    (active : first.shape.Active source) (outside : first.shape.blocks ≤ label.index)
    (inside : label.index < last.shape.blocks) :
    final.builder.function.Precedes source label := by
  have soundThen := ends.sound.moves ends.moves
  refine @Function.Precedes.of_region final.builder.function source firstBlock
    (fun label => first.shape.blocks ≤ label.index ∧ label.index < last.shape.blocks) ends.entry
    ?_ ?_ label ⟨outside, inside⟩
  · have exist := active.inside
    simp only [firstBlock]
    omega
  · rintro other target ⟨outside, inside⟩ leads
    obtain ⟨edge, member, rfl⟩ := soundThen.scripted.mem_successors.mp leads
    obtain ⟨inner, _⟩ := flows.inner target outside inside
    rw [((Moves.grows ends.moves).isSealed target inner.isSealed).2] at member
    rcases inner.entered edge member with same | later
    · exact .inl same
    · exact .inr ⟨later,
        (last.recording.hasBlock_iff _).mp (ends.sound.scripted.hasBlock_source member)⟩

end Ends

def Anchored (final : Recording) (shape : Shape) : Prop :=
  ∀ label before event behind, shape.script label = before ++ event :: behind →
    ∀ value ∈ event.handed, final.Grounded label before value

def Held (final : Recording) (shape : Shape) (value : Value) : Prop :=
  ∀ label, shape.current = some label → final.Grounded label (shape.script label) value

section Notes

variable {final : Recording} {shape : Shape} {label : Label} {value : Value}

theorem Anchored.note (anchored : Anchored final shape) {event : Event}
    (held : ∀ value ∈ event.handed, final.Grounded label (shape.script label) value) :
    Anchored final (shape.note label event) := by
  intro other before item behind split
  by_cases same : other = label
  · subst same
    simp only [Shape.note, Function.update_self] at split
    rcases List.eq_nil_or_concat behind with rfl | ⟨rest, last, rfl⟩
    · obtain ⟨equal, ends⟩ := List.append_inj' split rfl
      cases ends
      rw [← equal]
      exact held
    · rw [List.concat_eq_append, ← List.cons_append, ← List.append_assoc] at split
      exact anchored other before item rest (List.append_inj' split rfl).1
  · simp only [Shape.note, Function.update_of_ne same] at split
    exact anchored other before item behind split

theorem Anchored.emit (anchored : Anchored final shape) {instruction : Instruction}
    (held : ∀ value ∈ (Event.instruction instruction).handed,
      final.Grounded label (shape.script label) value) :
    Anchored final (shape.emit label instruction) :=
  anchored.note held

theorem grounded_result {instruction : Instruction} (member : value ∈ instruction.results) :
    final.Grounded label ((shape.emit label instruction).script label) value := by
  refine .inl (.inr (.inl ⟨instruction, ?_, member⟩))
  simp [Shape.emit, Shape.note]

end Notes

theorem Held.flows {final : Recording} {first last : Stage} {source target : Label}
    {value : Value} (held : Held final first.shape value) (ends : Ends last final)
    (active : first.shape.Active source)
    (flows : Shape.Flows source target first.shape last.shape) :
    Held final last.shape value := by
  intro label current
  cases flows.active.current.symm.trans current
  have grounded := held source active.current
  have longer := flows.before.script source
  rcases flows.place with rfl | outside
  · exact grounded.mono longer
  · have precedes := ends.precedes flows active outside flows.active.inside
    exact grounded.of_precedes (longer.trans (ends.script source)) precedes _

/-! ## Parts that hand in what they have got -/

/-- Everything that is handed in from one stage to another was got before, and some values can
be handed in afterwards. -/
structure Anchors (final : Recording) (first last : Stage) (values : List Value) : Prop where
  reaches : Reaches first last
  anchors : ∀ {source : Label}, Ends last final → Sound first.recording →
    first.shape.Active source → Anchored final first.shape →
      ∃ target, Shape.Flows source target first.shape last.shape ∧
        Anchored final last.shape ∧ ∀ value ∈ values, Held final last.shape value

namespace Anchors

variable {final : Recording} {first middle last : Stage} {values others : List Value}

theorem subset (anchors : Anchors final first last values) (fewer : others ⊆ values) :
    Anchors final first last others where
  reaches := anchors.reaches
  anchors ends sound active anchored := by
    obtain ⟨target, flows, anchored, held⟩ := anchors.anchors ends sound active anchored
    exact ⟨target, flows, anchored, fun value member => held value (fewer member)⟩

theorem refl (final : Recording) (stage : Stage) : Anchors final stage stage [] where
  reaches := ⟨_, .nil⟩
  anchors _ _ active anchored := ⟨_, .refl active, anchored, by simp⟩

theorem append (left : Anchors final first middle values)
    (right : Anchors final middle last others) : Anchors final first last (values ++ others) where
  reaches := left.reaches.trans right.reaches
  anchors ends sound active anchored := by
    have soundThen := left.reaches.sound sound
    obtain ⟨between, toMiddle, anchored, heldLeft⟩ :=
      left.anchors (ends.earlier right.reaches soundThen) sound active anchored
    obtain ⟨target, toLast, anchored, heldRight⟩ :=
      right.anchors ends soundThen toMiddle.active anchored
    refine ⟨target, toMiddle.trans toLast, anchored, fun value member => ?_⟩
    rcases List.mem_append.mp member with early | late
    · exact (heldLeft value early).flows ends toMiddle.active toLast
    · exact heldRight value late

theorem emit (before : Anchors final first middle values) {operation : Operation}
    {types : List MachineType} (does : Does [.emit operation types] middle last)
    (plain : operation.isTerminator = false) (used : operation.operands ⊆ values) :
    Anchors final first last
      (middle.recording.builder.nextValues types.length ++ values) where
  reaches := before.reaches.trans does.reaches
  anchors ends sound active anchored := by
    have soundThen := before.reaches.sound sound
    obtain ⟨target, toMiddle, anchored, held⟩ :=
      before.anchors (ends.earlier does.reaches soundThen) sound active anchored
    have current := toMiddle.active.current
    have emitted := does.emit_flows plain toMiddle.active
    refine ⟨target, toMiddle.trans emitted, ?_, fun value member => ?_⟩
    · rw [does.emit_shape current]
      refine anchored.emit fun value member => ?_
      rw [Event.handed, Operation.destinations_eq_nil plain, List.flatMap_nil, List.append_nil]
        at member
      exact held value (used member) target current
    · rcases List.mem_append.mp member with new | old
      · intro label here
        cases emitted.active.current.symm.trans here
        rw [does.emit_shape current]
        exact grounded_result new
      · exact (held value old).flows ends toMiddle.active emitted

theorem use {var : Variable} {value : Value} (uses : Does [.use var value] first last) :
    Anchors final first last [value] where
  reaches := uses.reaches
  anchors {source} ends sound active anchored := by
    refine ⟨source, uses.use_flows active, ?_⟩
    rw [uses.use_shape active.current]
    refine ⟨anchored.note (by simp [Event.handed]), ?_⟩
    simp only [List.mem_singleton, forall_eq]
    intro label current
    cases active.current.symm.trans current
    refine .inl (.inr (.inr ⟨var, ?_⟩))
    simp [Shape.note]

theorem bind (before : Anchors final first middle values) {name : String} {value : Value}
    (binds : Binds name value middle last) (member : value ∈ values) :
    Anchors final first last values where
  reaches := before.reaches.trans binds.reaches
  anchors ends sound active anchored := by
    have soundThen := before.reaches.sound sound
    obtain ⟨target, toMiddle, anchored, held⟩ :=
      before.anchors (ends.earlier binds.reaches soundThen) sound active anchored
    have current := toMiddle.active.current
    have bound := binds.flows toMiddle.active
    refine ⟨target, toMiddle.trans bound, ?_, fun other inside => ?_⟩
    · rw [binds.shape current]
      refine anchored.note ?_
      simpa [Event.handed] using held value member target current
    · exact (held other inside).flows ends toMiddle.active bound

theorem of_shape (reaches : Reaches first last) (same : last.shape = first.shape) :
    Anchors final first last [] where
  reaches := reaches
  anchors _ _ active anchored := by
    rw [same]
    exact ⟨_, .refl active, anchored, by simp⟩

theorem hop {shape later : Shape} {source target merge : Label} {value : Value}
    (hops : later = shape.hop source (.jump ⟨merge, [value]⟩) target)
    (active : shape.Active source) (anchored : Anchored final shape)
    (held : Held final shape value) : Anchored final later := by
  rw [hops]
  refine anchored.emit ?_
  simpa [Event.handed, Operation.operands, Operation.destinations] using
    held source active.current

/-- What the arms of a condition give is handed to the block in which they meet. -/
theorem conditional {tested opened filled turned done : Stage} {test result left right : Value}
    (before : Anchors final first tested [test]) (forks : Forks test tested result opened)
    (leftFills : Fills opened filled) (leftArm : Anchors final opened filled [left])
    (turns : Does (hopping (.jump ⟨⟨tested.blocks + 2⟩, [left]⟩) ⟨tested.blocks + 1⟩)
      filled turned)
    (rightFills : Fills turned done) (rightArm : Anchors final turned done [right])
    (joins : Does (hopping (.jump ⟨⟨tested.blocks + 2⟩, [right]⟩) ⟨tested.blocks + 2⟩)
      done last) :
    Anchors final first last [result] where
  reaches := before.reaches.trans (forks.reaches.trans (leftArm.reaches.trans
    (turns.reaches.trans (rightArm.reaches.trans joins.reaches))))
  anchors ends sound active anchored := by
    have soundTested := before.reaches.sound sound
    have soundOpened := forks.reaches.sound soundTested
    have soundFilled := leftArm.reaches.sound soundOpened
    have soundTurned := turns.reaches.sound soundFilled
    have endsDone := ends.earlier joins.reaches (rightArm.reaches.sound soundTurned)
    have endsFilled := endsDone.earlier (turns.reaches.trans rightArm.reaches) soundFilled
    have endsOpened := endsFilled.earlier leftArm.reaches soundOpened
    obtain ⟨middle, toTested, anchored, held⟩ :=
      before.anchors (endsOpened.earlier forks.reaches soundTested) sound active anchored
    obtain ⟨leftEnd, rightEnd, inLeft, toLeft, inRight, toRight, whole⟩ :=
      forks.flows soundTested toTested.active leftFills turns rightFills joins
    have anchored : Anchored final opened.shape := by
      rw [forks.shape toTested.active.current]
      refine anchored.emit ?_
      simpa [Event.handed, Operation.operands, Operation.destinations] using
        held test List.mem_cons_self middle toTested.active.current
    obtain ⟨otherLeft, again, anchored, heldLeft⟩ :=
      leftArm.anchors endsFilled soundOpened inLeft anchored
    have anchored := hop (turns.hop_shape again.active.current) again.active anchored
      (heldLeft left List.mem_cons_self)
    obtain ⟨otherRight, once, anchored, heldRight⟩ :=
      rightArm.anchors endsDone soundTurned inRight anchored
    refine ⟨_, toTested.trans whole, hop (joins.hop_shape once.active.current) once.active anchored
      (heldRight right List.mem_cons_self), ?_⟩
    simp only [List.mem_singleton, forall_eq]
    intro label current
    cases whole.active.current.symm.trans current
    refine .inl (.inl (endsOpened.explicit ?_))
    rw [forks.shape toTested.active.current]
    simp [Shape.fork, Shape.hop, Shape.close, Shape.switch, Shape.emit, Shape.note,
      Shape.parameter, Stage.blocks, Stage.shape, Recording.shape]

theorem enterLoop {shape : Shape} {source : Label} {limit counter round one done : Value}
    (anchored : Anchored final shape)
    (limits : ∀ before, final.Grounded ⟨shape.blocks⟩ before limit)
    (counts : ∀ before, final.Grounded ⟨shape.blocks⟩ before counter) :
    Anchored final (shape.enterLoop source limit counter round one done) := by
  change Anchored final ((((shape.emit source ⟨[one], .constant .i64 1, []⟩).emit source
    ⟨[], .jump ⟨⟨shape.blocks⟩, [one]⟩, []⟩).emit ⟨shape.blocks⟩
    ⟨[done], .compare .greater counter limit, []⟩).emit ⟨shape.blocks⟩
    ⟨[], .branch done ⟨⟨shape.blocks + 2⟩, []⟩ ⟨⟨shape.blocks + 1⟩, [counter]⟩, []⟩)
  refine Anchored.emit (Anchored.emit (Anchored.emit (anchored.emit ?_) ?_) ?_) ?_
  · simp [Event.handed, Operation.operands, Operation.destinations]
  · simp only [Event.handed, Operation.operands, Operation.destinations, List.flatMap_cons,
      List.flatMap_nil, List.append_nil, List.nil_append, List.mem_singleton, forall_eq]
    exact grounded_result (List.mem_singleton.mpr rfl)
  · simp only [Event.handed, Operation.operands, Operation.destinations, List.flatMap_nil,
      List.append_nil, List.mem_cons, List.not_mem_nil, or_false, forall_eq_or_imp, forall_eq]
    exact ⟨counts _, limits _⟩
  · simp only [Event.handed, Operation.operands, Operation.destinations, List.flatMap_cons,
      List.flatMap_nil, List.append_nil, List.nil_append, List.singleton_append, List.mem_cons,
      List.not_mem_nil, or_false, forall_eq_or_imp, forall_eq]
    exact ⟨grounded_result (List.mem_singleton.mpr rfl), counts _⟩

section Opened

variable {limited opened : Stage} {source : Label} {limit counter round one done : Value}

theorem grounded_counter (ends : Ends opened final)
    (opens : opened.shape = limited.shape.enterLoop source limit counter round one done)
    (before : List Event) : final.Grounded ⟨limited.shape.blocks⟩ before counter := by
  refine .inl (.inl (ends.explicit ?_))
  rw [opens]
  simp [Shape.enterLoop, Shape.hop, Shape.close, Shape.switch, Shape.emit, Shape.note,
    Shape.parameter]

theorem grounded_round (ends : Ends opened final)
    (opens : opened.shape = limited.shape.enterLoop source limit counter round one done)
    (before : List Event) : final.Grounded ⟨limited.shape.blocks + 1⟩ before round := by
  refine .inl (.inl (ends.explicit ?_))
  rw [opens]
  simp [Shape.enterLoop, Shape.hop, Shape.close, Shape.switch, Shape.emit, Shape.note,
    Shape.parameter]

theorem grounded_one (ends : Ends opened final)
    (opens : opened.shape = limited.shape.enterLoop source limit counter round one done)
    (inside : source.index < limited.shape.blocks)
    (precedes : final.builder.function.Precedes source label) (before : List Event) :
    final.Grounded label before one := by
  refine .inr ⟨source, precedes, .inr (.inl
    ⟨⟨[one], .constant .i64 1, []⟩, ?_, List.mem_singleton.mpr rfl⟩)⟩
  rw [mem_emitted]
  refine (ends.script source).subset ?_
  have different : source ≠ ⟨limited.shape.blocks⟩ := by
    rw [ne_eq, Label.eq_iff]
    exact Nat.ne_of_lt inside
  rw [opens]
  simp [Shape.enterLoop, Shape.hop, Shape.close, Shape.switch, Shape.emit, Shape.note,
    Shape.parameter, Shape.create, different]

end Opened

/-- The body of a loop hands the next number to its start. -/
theorem loop {limited opened inside filled advanced : Stage} {name : String}
    {limit round one value : Value} (before : Anchors final first limited [limit])
    (enters : Enters limit limited round one opened) (binds : Binds name round opened inside)
    (fills : Fills inside filled) (body : Anchors final inside filled [value])
    (advances : Does [.emit (.arithmetic .add round one) [.i64]] filled advanced)
    (leaves : Does (leaving filled.next limited.blocks) advanced last) :
    Anchors final first last [] where
  reaches := before.reaches.trans (enters.reaches.trans (binds.reaches.trans
    (body.reaches.trans (advances.reaches.trans leaves.reaches))))
  anchors ends sound active anchored := by
    have soundLimited := before.reaches.sound sound
    have soundOpened := enters.reaches.sound soundLimited
    have soundInside := binds.reaches.sound soundOpened
    have soundFilled := body.reaches.sound soundInside
    have endsFilled := ends.earlier (advances.reaches.trans leaves.reaches) soundFilled
    have endsInside := endsFilled.earlier body.reaches soundInside
    have endsOpened := endsInside.earlier binds.reaches soundOpened
    obtain ⟨middle, toLimited, anchored, held⟩ :=
      before.anchors (endsOpened.earlier enters.reaches soundLimited) sound active anchored
    obtain ⟨bodyEnd, inBody, bound, toEnd, toAdvanced, whole⟩ :=
      enters.flows soundLimited toLimited.active binds fills advances leaves
    obtain ⟨counter, done, opens⟩ := enters.shape toLimited.active.current
    have bare := Recording.bare soundLimited
    have blocks : opened.shape.blocks = limited.shape.blocks + 3 := by
      rw [opens]
      rfl
    have most : last.shape.blocks = advanced.shape.blocks := by
      rw [leaves.leave_shape toAdvanced.active.current]
      rfl
    have more := (bound.before.trans (toEnd.before.trans toAdvanced.before)).blocks
    have behind : ∀ {label : Label}, limited.shape.blocks ≤ label.index →
        label.index < last.shape.blocks → final.builder.function.Precedes middle label :=
      fun outside within => ends.precedes whole toLimited.active outside within
    have limits : ∀ before, final.Grounded ⟨limited.shape.blocks⟩ before limit := by
      intro before
      refine (held limit List.mem_cons_self middle toLimited.active.current).of_precedes ?_
        (behind (Nat.le_refl _) (show limited.shape.blocks < _ by omega)) before
      exact (whole.before.script middle).trans (ends.script middle)
    have anchored : Anchored final opened.shape := by
      rw [opens]
      exact enterLoop anchored limits (grounded_counter endsOpened opens)
    have anchored : Anchored final inside.shape := by
      rw [binds.shape inBody.current]
      refine anchored.note ?_
      simpa [Event.handed] using grounded_round endsOpened opens _
    obtain ⟨sameEnd, again, anchored, _⟩ :=
      body.anchors endsFilled soundInside bound.active anchored
    cases toEnd.active.current.symm.trans again.active.current
    have heldRound : Held final inside.shape round := by
      intro label current
      cases bound.active.current.symm.trans current
      exact grounded_round endsOpened opens _
    have heldRound := heldRound.flows endsFilled bound.active toEnd
    have endPlace : limited.shape.blocks ≤ bodyEnd.index :=
      toEnd.bounded (Nat.le_succ _) bound.active.inside
    have anchored : Anchored final advanced.shape := by
      rw [advances.emit_shape toEnd.active.current]
      refine anchored.emit ?_
      simp only [Event.handed, Operation.operands, Operation.destinations, List.flatMap_nil,
        List.append_nil, List.mem_cons, List.not_mem_nil, or_false, forall_eq_or_imp, forall_eq]
      exact ⟨heldRound bodyEnd toEnd.active.current, grounded_one endsOpened opens
        toLimited.active.inside (behind endPlace (most ▸ toAdvanced.active.inside)) _⟩
    refine ⟨_, toLimited.trans whole, ?_, by simp⟩
    rw [leaves.leave_shape toAdvanced.active.current]
    refine anchored.emit ?_
    simp only [Event.handed, Operation.operands, Operation.destinations, List.flatMap_cons,
      List.flatMap_nil, List.append_nil, List.nil_append, List.mem_singleton, forall_eq]
    rw [advances.emit_shape toEnd.active.current]
    exact grounded_result (List.mem_singleton.mpr rfl)

end Anchors

/-- Everything that is handed in while something is lowered was got before, and so were the
values that come out. -/
theorem Lowers.anchors {setting : Setting} {work : Work} {values : List Value}
    {first last : Stage} (final : Recording) (lowers : Lowers setting work first values last) :
    Anchors final first last values := by
  induction lowers with
  | integer emits | boolean emits =>
      exact (Anchors.refl final _).emit emits rfl (by simp [Operation.operands])
  | ident _ uses => exact .use uses
  | comparison _ _ compares widens left right =>
      refine (((left.append right).emit compares rfl ?_).emit widens rfl ?_).subset ?_
      · simp [Operation.operands]
      · simp [Operation.operands, nextValues_one, Stage.next]
      · simp [nextValues_one, Stage.next]
  | arithmetic _ _ emits left right =>
      refine ((left.append right).emit emits rfl ?_).subset ?_
      · simp [Operation.operands]
      · simp [nextValues_one, Stage.next]
  | bind _ binds inner => exact inner.bind binds List.mem_cons_self
  | sequence _ _ left right => exact (left.append right).subset (by simp)
  | call refers _ emits arguments =>
      refine (((Anchors.of_shape refers.reaches refers.shape).append arguments).emit emits rfl
        ?_).subset ?_
      · simp [Operation.operands]
      · simp [nextValues_one, Stage.next]
  | conditional _ forks leftArm turns rightArm joins test left right =>
      exact test.conditional forks leftArm.fills left turns rightArm.fills right joins
  | each _ enters binds inLoop advances leaves emits bound body =>
      exact (bound.loop enters binds inLoop.fills body advances leaves).emit emits rfl
        (by simp [Operation.operands])
  | array reserves counts starts _ locates elements =>
      refine ((((((Anchors.of_shape reserves.reaches reserves.reserve_shape).emit counts rfl
        ?_).emit starts rfl ?_)).append elements).emit locates rfl ?_).subset ?_
      · simp [Operation.operands]
      · simp [Operation.operands, nextValues_one, Stage.next]
      · simp [Operation.operands]
      · simp [nextValues_one, Stage.next]
  | index _ _ ones words places scales locates loads target position =>
      refine (((((((target.append position).emit ones rfl ?_).emit words rfl ?_).emit places rfl
        ?_).emit scales rfl ?_).emit locates rfl ?_).emit loads rfl ?_).subset ?_
      all_goals simp [Operation.operands, nextValues_one, Stage.next]
  | length _ loads target =>
      refine (target.emit loads rfl ?_).subset ?_
      · simp [Operation.operands]
      · simp [nextValues_one, Stage.next]
  | nil | stop => exact .refl final _
  | cons _ _ head tail => exact head.append tail
  | store _ stores _ head tail =>
      refine ((head.emit stores rfl ?_).append tail).subset (by simp)
      simp [Operation.operands]

end ExprLang.Lowering
