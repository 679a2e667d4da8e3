import ExprLang.Proofs.Semantics.Simulation

/-!
# Conditions and loops that do what an evaluation says

The code of a condition passes control to one of its arms, and the value of the arm to the block
in which they meet. The code of a loop counts in a parameter of the block in which a round starts.
What a machine does there in one round is said first; a whole loop is as many of them as there are
numbers up to its limit.
-/

namespace ExprLang

open Ssa

namespace Ssa.Shape

variable {shape : Shape} {source : Label} {limit counter round one done : Value}

theorem script_enterLoop_source (inside : source.index < shape.blocks) :
    (shape.enterLoop source limit counter round one done).script source =
      shape.script source ++ [.instruction ⟨[one], .constant .i64 1, []⟩,
        .instruction ⟨[], .jump ⟨⟨shape.blocks⟩, [one]⟩, []⟩] := by
  have different : source ≠ ⟨shape.blocks⟩ := by
    rintro rfl
    exact Nat.lt_irrefl _ inside
  simp [enterLoop, hop, close, switch, emit, note, create, parameter, different]

theorem script_enterLoop_header (bare : shape.Bare) (inside : source.index < shape.blocks) :
    (shape.enterLoop source limit counter round one done).script ⟨shape.blocks⟩ =
      [.instruction ⟨[done], .compare .greater counter limit, []⟩,
        .instruction ⟨[], .branch done ⟨⟨shape.blocks + 2⟩, []⟩
          ⟨⟨shape.blocks + 1⟩, [counter]⟩, []⟩] := by
  have different : (⟨shape.blocks⟩ : Label) ≠ source := by
    rintro rfl
    exact Nat.lt_irrefl _ inside
  have blank := bare.script ⟨shape.blocks⟩ (Nat.le_refl _)
  simp [enterLoop, hop, close, switch, emit, note, create, parameter, different, blank]

theorem script_enterLoop_body (bare : shape.Bare) (inside : source.index < shape.blocks) :
    (shape.enterLoop source limit counter round one done).script ⟨shape.blocks + 1⟩ = [] := by
  have different : (⟨shape.blocks + 1⟩ : Label) ≠ source := by
    rintro rfl
    exact Nat.lt_asymm inside (Nat.lt_succ_self _)
  rw [script_enterLoop different (by simp)]
  exact bare.script _ (Nat.le_succ _)

theorem explicit_enterLoop (bare : shape.Bare) :
    (shape.enterLoop source limit counter round one done).explicit ⟨shape.blocks⟩ = [counter] ∧
      (shape.enterLoop source limit counter round one done).explicit ⟨shape.blocks + 1⟩ =
        [round] := by
  have header := bare.explicit ⟨shape.blocks⟩ (Nat.le_refl _)
  have body := bare.explicit ⟨shape.blocks + 1⟩ (Nat.le_succ _)
  simp [enterLoop, hop, close, switch, emit, note, create, parameter, header, body]

end Ssa.Shape

namespace Lowering

section Conditions

variable {site : Site σ} {first opened filled turned done last : Stage} {source : Label}
  {test result left right : Value} {machine : Machine σ} {store : Store σ} {count : Nat}

/-- The blocks of a condition are empty when they are filled. -/
theorem Forks.empty (forks : Forks test first result opened) (sound : Sound first.recording)
    (active : first.shape.Active source) (leftArm : Fills opened filled)
    (turns : Does (hopping (.jump ⟨⟨first.blocks + 2⟩, [left]⟩) ⟨first.blocks + 1⟩)
      filled turned)
    (rightArm : Fills turned done)
    (joins : Does (hopping (.jump ⟨⟨first.blocks + 2⟩, [right]⟩) ⟨first.blocks + 2⟩)
      done last) :
    opened.shape.script ⟨first.blocks⟩ = [] ∧ turned.shape.script ⟨first.blocks + 1⟩ = [] ∧
      last.shape.script ⟨first.blocks + 2⟩ = [] := by
  have bare := Recording.bare sound
  obtain ⟨leftEnd, rightEnd, inLeft, toLeft, inRight, toRight, whole⟩ :=
    forks.flows sound active leftArm turns rightArm joins
  have inside := active.inside
  have opens := forks.shape active.current
  have turnedShape := turns.hop_shape toLeft.active.current
  have joined := joins.hop_shape toRight.active.current
  have more := toLeft.before.blocks
  have rightPlace := toRight.place
  rw [opens] at toLeft more
  rw [turnedShape] at toRight rightPlace
  rw [Shape.blocks_fork] at more
  have blankRight : (⟨first.blocks + 1⟩ : Label) ≠ leftEnd ∧
      filled.shape.script ⟨first.blocks + 1⟩ = [] :=
    toLeft.untouched bare inside (Nat.lt_succ_self _)
      (show first.blocks + 1 < first.blocks + 3 by omega)
  have blankMerge : (⟨first.blocks + 2⟩ : Label) ≠ leftEnd ∧
      filled.shape.script ⟨first.blocks + 2⟩ = [] :=
    toLeft.untouched bare inside (Nat.lt_add_of_pos_right Nat.two_pos) (Nat.lt_succ_self _)
  refine ⟨?_, ?_, ?_⟩
  · have different : (⟨first.blocks⟩ : Label) ≠ source := by
      rintro rfl
      exact Nat.lt_irrefl _ inside
    rw [opens, Shape.script_fork different]
    exact bare.script _ (Nat.le_refl _)
  · rw [turnedShape, Shape.script_hop _ _ _ _ _ blankRight.1, blankRight.2]
  · have different : (⟨first.blocks + 2⟩ : Label) ≠ rightEnd := by
      rintro rfl
      rcases rightPlace with same | outside
      · exact absurd (congrArg Label.index same) (Nat.succ_ne_self _)
      · exact absurd (Nat.le_trans more outside) (Nat.not_succ_le_self _)
    rw [joined, Shape.script_hop _ _ _ _ _ different,
      toRight.apart.script ⟨first.blocks + 2⟩ more
        (by simp), Shape.script_hop _ _ _ _ _ blankMerge.1, blankMerge.2]

/-- An arm of a condition passes its value on to the block in which the arms meet. -/
theorem Simulates.arm (proper : site.Proper) {value : Value} {merge target label : Label}
    {evaluation : Evaluation σ Int64}
    (simulates : Simulates site opened filled [] [] [value] (fun word => [word]) evaluation)
    (hops : Does (hopping (.jump ⟨merge, [value]⟩) target) filled last)
    (ends : Ends last site.final) (sound : Sound opened.recording)
    (active : opened.shape.Active label) (blank : opened.shape.script label = [])
    (merges : [result] <+: site.final.explicit merge)
    (new : ∀ parameter ∈ (site.final.builder.function.block merge).parameters,
      count ≤ parameter.index) (larger : count ≤ opened.size)
    (opens : Opens site.environment site.final label store machine)
    (serves : site.Serves machine) :
    Realizes site.environment site.activation.rounds site.patient machine (fun word after later =>
        Opens site.environment site.final merge after later ∧ Stays count machine later ∧
          later.frame.registers[result.index]? = some word) (evaluation store) := by
  have soundFilled := simulates.fills.reaches.sound sound
  refine (simulates.runs (ends.earlier hops.reaches soundFilled) sound active
    (opens.rests active.current blank) serves .nil).further ?_
  rintro word after later ⟨rests, stays, shows⟩
  have shape := hops.hop_shape rests.current
  obtain ⟨events, -, stands⟩ := rests.next (by rw [shape]; exact Function.update_self _ _ _)
    (ends.script _)
  obtain ⟨last, next, lands⟩ := stands.jump proper.executed
  exact ⟨last, .single next, lands.opens,
    (stays.fewer larger).trans (lands.stays new) (Nat.le_refl _),
    (lands.first rfl merges).trans (shows.holds 0 rfl rfl)⟩

theorem Forks.merges {final : Recording} (forks : Forks test first result opened)
    (ends : Ends opened final) (sound : Sound first.recording)
    (active : first.shape.Active source) :
    [result] <+: final.explicit ⟨first.blocks + 2⟩ := by
  have opens : opened.shape.explicit ⟨first.blocks + 2⟩ = first.shape.explicit ⟨first.blocks + 2⟩ ++
      [result] := by
    rw [forks.shape active.current]
    exact Function.update_self _ _ _
  have none : first.shape.explicit ⟨first.blocks + 2⟩ = [] :=
    (Recording.bare sound).explicit _ (Nat.le_add_right _ _)
  rw [none, List.nil_append] at opens
  exact opens ▸ (Moves.grows ends.moves).explicit ⟨first.blocks + 2⟩

/-- A condition does what its arms do. -/
theorem Forks.simulates (proper : site.Proper) (forks : Forks test first result opened)
    {onTrue onFalse : Evaluation σ Int64}
    (leftArm : Simulates site opened filled [] [] [left] (fun word => [word]) onTrue)
    (turns : Does (hopping (.jump ⟨⟨first.blocks + 2⟩, [left]⟩) ⟨first.blocks + 1⟩)
      filled turned)
    (rightArm : Simulates site turned done [] [] [right] (fun word => [word]) onFalse)
    (joins : Does (hopping (.jump ⟨⟨first.blocks + 2⟩, [right]⟩) ⟨first.blocks + 2⟩)
      done last) {known : List Value} {facts : List Int64} {word : Int64} (place : Nat)
    (chosen : known[place]? = some test) (given : facts[place]? = some word) :
    Simulates site first last known facts [result] (fun word => [word])
      (if word ≠ 0 then onTrue else onFalse) where
  fills := by
    refine ⟨forks.reaches.trans (leftArm.fills.reaches.trans (turns.reaches.trans
      (rightArm.fills.reaches.trans joins.reaches))), fun sound active => ?_⟩
    obtain ⟨_, _, _, _, _, _, whole⟩ := forks.flows sound active leftArm.fills turns
      rightArm.fills joins
    exact ⟨_, whole⟩
  runs {source store machine} ends sound active rests serves shows := by
    have soundOpened := forks.reaches.sound sound
    have soundFilled := leftArm.fills.reaches.sound soundOpened
    have soundTurned := turns.reaches.sound soundFilled
    have soundDone := rightArm.fills.reaches.sound soundTurned
    have endsDone := ends.earlier joins.reaches soundDone
    have endsTurned := endsDone.earlier rightArm.fills.reaches soundTurned
    have endsOpened := endsTurned.earlier (leftArm.fills.reaches.trans turns.reaches) soundOpened
    obtain ⟨leftEnd, rightEnd, inLeft, toLeft, inRight, toRight, whole⟩ :=
      forks.flows sound active leftArm.fills turns rightArm.fills joins
    obtain ⟨blankLeft, blankRight, blankMerge⟩ :=
      forks.empty sound active leftArm.fills turns rightArm.fills joins
    have merges := forks.merges endsOpened sound active
    have new : ∀ label : Label, first.blocks ≤ label.index →
        ∀ parameter ∈ (site.final.builder.function.block label).parameters,
          first.size ≤ parameter.index := fun _ outside _ =>
      Moves.parameter_le (forks.reaches.moves.trans endsOpened.moves) sound outside
    have newMerge := new ⟨first.blocks + 2⟩ (Nat.le_add_right _ _)
    have toOpened := forks.reaches.size_le
    have toTurned := toOpened.trans
      (leftArm.fills.reaches.trans turns.reaches).size_le
    have inside := (forks.hasType.reaches (leftArm.fills.reaches.trans (turns.reaches.trans
      (rightArm.fills.reaches.trans joins.reaches)))).index_lt
    have opens := forks.shape rests.current
    obtain ⟨events, -, stands⟩ := rests.next (by rw [opens]; exact Function.update_self _ _ _)
      (endsOpened.script _)
    obtain ⟨middle, next, lands⟩ := stands.fork proper.executed (shows.holds place chosen given)
    refine Realizes.reach (.single next) ?_
    by_cases nonzero : word ≠ 0
    · rw [if_pos nonzero] at lands ⊢
      have stays := lands.stays (new ⟨first.blocks⟩ (Nat.le_refl _))
      refine (leftArm.arm proper turns (endsDone.earlier rightArm.fills.reaches soundTurned)
        soundOpened inLeft blankLeft merges newMerge toOpened lands.opens
        (serves.stays stays)).mono ?_
      rintro result after later ⟨opens, still, holds⟩
      exact ⟨opens.rests whole.active.current blankMerge, stays.trans still (Nat.le_refl _),
        .single inside holds⟩
    · rw [if_neg nonzero] at lands ⊢
      have stays := lands.stays (new ⟨first.blocks + 1⟩ (Nat.le_succ _))
      refine (rightArm.arm proper joins ends soundTurned inRight blankRight merges newMerge
        toTurned lands.opens (serves.stays stays)).mono ?_
      rintro result after later ⟨opens, still, holds⟩
      exact ⟨opens.rests whole.active.current blankMerge, stays.trans still (Nat.le_refl _),
        .single inside holds⟩

end Conditions

/-! ## Loops -/

theorem Executed.not_parameter {environment : Environment σ} {final : Recording}
    (executed : Executed environment final) {label other : Label} {instruction : Instruction}
    (emittedHere : instruction ∈ emitted (final.script label)) {value : Value}
    (result : value ∈ instruction.results) :
    value ∉ (final.builder.function.block other).parameters :=
  executed.finished.sound.single.not_parameter
    (executed.finished.sound.scripted.mem_code.mpr (.inr ⟨_, emittedHere, rfl⟩)) result

section Loops

variable {site : Site σ} {first opened filled advanced last : Stage} {source : Label}
  {limit round one next : Value} {machine : Machine σ} {store : Store σ} {count : Nat}

theorem Enters.numbers (enters : Enters limit first round one opened)
    (current : first.shape.current = some source) :
    ∃ counter done : Value,
      opened.shape = first.shape.enterLoop source limit counter round one done ∧
        first.size ≤ counter.index ∧ counter.index < one.index ∧ one.index < done.index := by
  obtain ⟨creates, counts, rounds, starts, jumps, compares, branches⟩ := enters
  refine ⟨_, _, enterLoop_shape creates counts rounds starts jumps compares branches current,
    creates.reaches.size_le, ?_, ?_⟩
  · exact Nat.lt_of_lt_of_le counts.parameter_hasType.index_lt rounds.reaches.size_le
  · exact Nat.lt_of_lt_of_le starts.emit_hasType.index_lt jumps.reaches.size_le

structure Loop (site : Site σ) (first : Stage) (limit counter round one done : Value) : Prop where
  header : [.instruction ⟨[done], .compare .greater counter limit, []⟩,
    .instruction ⟨[], .branch done ⟨⟨first.blocks + 2⟩, []⟩
      ⟨⟨first.blocks + 1⟩, [counter]⟩, []⟩] <+: site.final.script ⟨first.blocks⟩
  counts : [counter] <+: site.final.explicit ⟨first.blocks⟩
  rounds : [round] <+: site.final.explicit ⟨first.blocks + 1⟩
  new : ∀ label : Label, first.blocks ≤ label.index →
    ∀ parameter ∈ (site.final.builder.function.block label).parameters,
      first.size ≤ parameter.index
  kept : ∀ label : Label, one ∉ (site.final.builder.function.block label).parameters
  limited : limit.index < first.size
  fresh : first.size ≤ counter.index
  counted : counter.index < one.index
  increased : one.index < done.index

structure Heads (site : Site σ) (first : Stage) (counter one : Value) (start : Machine σ)
    (count : Int64) (store : Store σ) (machine : Machine σ) : Prop where
  opens : Opens site.environment site.final ⟨first.blocks⟩ store machine
  stays : Stays first.size start machine
  counter : machine.frame.registers[counter.index]? = some count
  one : machine.frame.registers[one.index]? = some 1

/-- The counter is compared with the limit. -/
theorem Loop.test (proper : site.Proper) {counter done : Value} {bound count : Int64}
    {start : Machine σ} (loop : Loop site first limit counter round one done)
    (heads : Heads site first counter one start count store machine)
    (limited : start.frame.registers[limit.index]? = some bound) :
    ∃ middle later, Machine.Reaches site.environment machine middle ∧
      middle.step site.environment = .next later ∧ Stays done.index machine middle ∧
      Lands site.environment site.final (if bound < count then ⟨⟨first.blocks + 2⟩, []⟩
        else ⟨⟨first.blocks + 1⟩, [counter]⟩) store middle later := by
  obtain ⟨⟨-, stands⟩, stays, counted, -⟩ := heads
  obtain ⟨events, script⟩ := loop.header
  rw [← script, List.cons_append] at stands
  have tested : Machine.compute machine.frame.function machine.frame.slots
      machine.frame.registers machine.memory (.compare .greater counter limit) =
        some (.ok (if bound < count then 1 else 0)) := by
    simp only [Machine.compute, counted, (stays.kept limit loop.limited).trans limited,
      Option.bind_eq_bind, Option.bind_some, Condition.holds, decide_eq_true_eq]
  obtain ⟨middle, reached, passes, holds⟩ : Realizes site.environment 0 site.patient machine _
      (.value (if bound < count then 1 else 0) store) :=
    stands.compute proper.executed proper.named rfl (Nat.le_refl done.index) tested
  obtain ⟨later, next, lands⟩ := passes.stands.fork proper.executed holds
  refine ⟨middle, later, reached, next, passes.stays, ?_⟩
  by_cases above : bound < count
  · simpa [above] using lands
  · simpa [above] using lands

/-- The body of a loop is entered with the counter. -/
theorem Loop.inside {counter done : Value} {count : Int64} {start middle later : Machine σ}
    (loop : Loop site first limit counter round one done)
    (heads : Heads site first counter one start count store machine)
    (stays : Stays done.index machine middle)
    (lands : Lands site.environment site.final ⟨⟨first.blocks + 1⟩, [counter]⟩ store middle later) :
    Stays first.size start later ∧ later.frame.registers[round.index]? = some count ∧
      later.frame.registers[one.index]? = some 1 := by
  have ordered := loop.counted.trans loop.increased
  refine ⟨?_, ?_, ?_⟩
  · have back := lands.stays (loop.new ⟨first.blocks + 1⟩ (Nat.le_succ _))
    have still := stays.fewer (loop.fresh.trans (Nat.le_of_lt ordered))
    exact heads.stays.trans (still.trans back (Nat.le_refl _)) (Nat.le_refl _)
  · rw [lands.first rfl loop.rounds, stays.kept counter ordered, heads.counter]
  · rw [lands.others one (loop.kept _), stays.kept one loop.increased, heads.one]

/-- The body of a loop ends with a jump to its start, with the next number. -/
theorem Loop.back (proper : site.Proper) {counter done : Value} {count : Int64}
    {start : Machine σ} (loop : Loop site first limit counter round one done)
    (leaves : Does (leaving next first.blocks) advanced last) (ends : Ends last site.final)
    (rests : Rests site.environment site.final advanced store machine)
    (stays : Stays first.size start machine)
    (holds : machine.frame.registers[next.index]? = some count)
    (unit : machine.frame.registers[one.index]? = some 1) :
    ∃ later, Machine.Reaches site.environment machine later ∧
      Heads site first counter one start count store later := by
  have shape := leaves.leave_shape rests.current
  obtain ⟨events, -, stands⟩ := rests.next (by rw [shape]; exact Function.update_self _ _ _)
    (ends.script _)
  obtain ⟨later, step, lands⟩ := stands.jump proper.executed
  refine ⟨later, .single step, lands.opens, ?_, ?_, ?_⟩
  · exact stays.trans (lands.stays (loop.new ⟨first.blocks⟩ (Nat.le_refl _))) (Nat.le_refl _)
  · rw [lands.first rfl loop.counts, holds]
  · rw [lands.others one (loop.kept _), unit]

theorem toInt_lt_of_finite {bound : Int64} (finite : bound ≠ Int64.maxValue) :
    bound.toInt < 2 ^ 63 - 1 := by
  have most := bound.toInt_le
  have less : bound.toInt ≠ Int64.maxValue.toInt := fun same => finite (Int64.toInt_inj.mp same)
  have top : Int64.maxValue.toInt = 2 ^ 63 - 1 := by decide
  omega

theorem needs_succ {bound count : Int64} {rounds : Nat} (finite : bound ≠ Int64.maxValue)
    (below : ¬ bound < count) (few : (bound.toInt - count.toInt + 1).toNat < rounds + 1) :
    (bound.toInt - (count + 1).toInt + 1).toNat < rounds := by
  have less := toInt_lt_of_finite finite
  have least := count.le_toInt
  rw [Int64.lt_iff_toInt_lt] at below
  have next : (count + 1).toInt = count.toInt + 1 := by
    rw [Int64.toInt_add, Int.bmod_eq_of_le]
    · rfl
    · change _ ≤ count.toInt + 1
      omega
    · change count.toInt + 1 < _
      omega
  omega

/-- The numbers from the first one up to a limit. There is none if the first is above it. -/
theorem range'_limit {bound : Int64} (finite : bound ≠ Int64.maxValue) {first : Nat}
    (positive : 0 < first) (small : first < 2 ^ 63) :
    (bound < Int64.ofNat first → List.range' first (bound.toInt.toNat + 1 - first) = []) ∧
      (¬ bound < Int64.ofNat first → first + 1 < 2 ^ 63 ∧
        List.range' first (bound.toInt.toNat + 1 - first) =
          first :: List.range' (first + 1) (bound.toInt.toNat + 1 - (first + 1))) := by
  have number : (Int64.ofNat first).toInt = first := Int64.toInt_ofNat_of_lt small
  have less := toInt_lt_of_finite finite
  rw [Int64.lt_iff_toInt_lt, number]
  refine ⟨fun above => ?_, fun below => ⟨by omega, ?_⟩⟩
  · have none : bound.toInt.toNat + 1 - first = 0 := by omega
    rw [none, List.range'_zero]
  · have more : bound.toInt.toNat + 1 - first = bound.toInt.toNat + 1 - (first + 1) + 1 := by omega
    rw [more, List.range'_succ]

theorem needs_one {bound : Int64} {rounds : Nat} (finite : bound ≠ Int64.maxValue)
    (many : 2 ^ 63 ≤ rounds) : (bound.toInt - (1 : Int64).toInt + 1).toNat < rounds := by
  have less := toInt_lt_of_finite finite
  have one : (1 : Int64).toInt = 1 := rfl
  omega

theorem Loop.limit? {counter done : Value} {bound count : Int64} {start : Machine σ}
    (loop : Loop site first limit counter round one done)
    (heads : Heads site first counter one start count store machine)
    (limited : start.frame.registers[limit.index]? = some bound) :
    machine.limit? = some bound := by
  obtain ⟨⟨-, stands⟩, stays, -, -⟩ := heads
  obtain ⟨events, script⟩ := loop.header
  rw [← script, List.cons_append] at stands
  have held := (stays.kept limit loop.limited).trans limited
  rw [Machine.limit?, stands.rest, ← held]
  exact if_pos rfl

/-- The body of a loop does what is said in each round, and makes the next number. -/
structure Body (site : Site σ) (first opened advanced last : Stage) (round one next : Value)
    (step : Int64 → Evaluation σ Unit) : Prop where
  larger : first.size ≤ opened.size
  roundInside : round.index < opened.size
  oneInside : one.index < opened.size
  trip : ∀ count, Simulates site opened advanced [round, one] [count, 1] [next]
    (fun word => [word]) (step count >>= fun _ => pure (count + 1))
  leaves : Does (leaving next first.blocks) advanced last
  ends : Ends last site.final
  sound : Sound opened.recording
  active : opened.shape.Active ⟨first.blocks + 1⟩
  blank : opened.shape.script ⟨first.blocks + 1⟩ = []
  current : last.shape.current = some ⟨first.blocks + 2⟩
  behind : last.shape.script ⟨first.blocks + 2⟩ = []

section Runs

variable {counter done : Value} {bound count : Int64} {start : Machine σ}
  {step : Int64 → Evaluation σ Unit}

/-- A loop is left when the counter is above the limit. -/
theorem Loop.exit (proper : site.Proper) (loop : Loop site first limit counter round one done)
    (body : Body site first opened advanced last round one next step)
    (limited : start.frame.registers[limit.index]? = some bound)
    (heads : Heads site first counter one start count store machine) (above : bound < count) :
    ∃ middle later, Machine.Reaches site.environment machine middle ∧
      middle.step site.environment = .next later ∧
      Rests site.environment site.final last store later ∧ Stays first.size start later := by
  obtain ⟨middle, later, reached, ahead, stays, lands⟩ := loop.test proper heads limited
  rw [if_pos above] at lands
  have back := lands.stays (loop.new ⟨first.blocks + 2⟩ (Nat.le_add_right _ _))
  have ordered := loop.fresh.trans (Nat.le_of_lt (loop.counted.trans loop.increased))
  exact ⟨middle, later, reached, ahead, lands.opens.rests body.current body.behind,
    heads.stays.trans ((stays.fewer ordered).trans back (Nat.le_refl _)) (Nat.le_refl _)⟩

/-- In a round the body is entered with the counter, and does what is said; then the machine is at
the start of the next round. -/
theorem Loop.turn (proper : site.Proper) (loop : Loop site first limit counter round one done)
    (body : Body site first opened advanced last round one next step)
    (serves : site.Serves start) (limited : start.frame.registers[limit.index]? = some bound)
    (heads : Heads site first counter one start count store machine) (below : ¬ bound < count) :
    ∃ middle inside, Machine.Reaches site.environment machine middle ∧
      middle.step site.environment = .next inside ∧
      Opens site.environment site.final ⟨first.blocks + 1⟩ store inside ∧
      inside.frame.registers[round.index]? = some count ∧
      Realizes site.environment site.activation.rounds site.patient inside
        (fun _ after later => Heads site first counter one start (count + 1) after later)
        (step count store) := by
  obtain ⟨middle, inside, reached, ahead, stays, lands⟩ := loop.test proper heads limited
  rw [if_neg below] at lands
  obtain ⟨kept, rounded, unit⟩ := loop.inside heads stays lands
  have soundAdvanced := (body.trip count).fills.reaches.sound body.sound
  have went := (body.trip count).runs (body.ends.earlier body.leaves.reaches soundAdvanced)
    body.sound body.active (lands.opens.rests body.active.current body.blank) (serves.stays kept)
    (.cons ⟨body.roundInside, rounded⟩ (.cons ⟨body.oneInside, unit⟩ .nil))
  refine ⟨middle, inside, reached, ahead, lands.opens, rounded, went.of_map.further ?_⟩
  intro _ after later arrives
  exact loop.back proper body.leaves body.ends arrives.rests (kept.trans arrives.stays body.larger)
    (arrives.shows.holds 0 rfl rfl) ((arrives.stays.kept one body.oneInside).trans unit)

/-- From the start of a round on, a loop does what the iteration says. -/
theorem Loop.iterates (proper : site.Proper)
    (loop : Loop site first limit counter round one done)
    (body : Body site first opened advanced last round one next step)
    (serves : site.Serves start) (limited : start.frame.registers[limit.index]? = some bound)
    {rounds : Nat} (enough : rounds ≤ site.activation.rounds)
    (few : site.patient → bound ≠ Int64.maxValue →
      (bound.toInt - count.toInt + 1).toNat < rounds)
    (heads : Heads site first counter one start count store machine) :
    Realizes site.environment rounds site.patient machine (fun _ after later =>
        Rests site.environment site.final last after later ∧ Stays first.size start later)
      (Evaluation.iterate bound step rounds count store) := by
  induction rounds generalizing count store machine with
  | zero =>
      refine ⟨rfl, fun patient => ⟨machine, .refl, ?_⟩⟩
      rw [loop.limit? heads limited]
      by_contra finite
      exact Nat.not_lt_zero _ (few patient fun same => finite (congrArg some same))
  | succ rounds induction =>
      rw [Evaluation.iterate]
      by_cases above : bound < count
      · obtain ⟨middle, later, reached, ahead, arrived⟩ :=
          loop.exit proper body limited heads above
        rw [if_pos above]
        exact Realizes.reach reached (Realizes.step ahead (.value arrived))
      · obtain ⟨middle, inside, reached, ahead, -, -, turns⟩ :=
          loop.turn proper body serves limited heads above
        rw [if_neg above]
        refine Realizes.reach reached (Realizes.step ahead ?_)
        refine (turns.fewer (Nat.le_of_succ_le enough)).bind ?_
        intro _ after later _ heads
        exact induction (Nat.le_of_succ_le enough) (fun patient finite =>
          needs_succ finite above (few patient finite)) heads

end Runs

/-- A machine goes through a loop from the start of a round on. In each round it enters the body
with the counter in the parameter for the variable of the loop; when the body has done what is said
it is back at the start, with the next number. It leaves the loop when the counter is above the
limit, and it stays in a body that does not end, or that ends with a fault. -/
inductive Rounds (site : Site σ) (first last : Stage) (counter round one : Value)
    (start : Machine σ) (bound : Int64) (step : Int64 → Evaluation σ Unit) :
    (count : Int64) → (counts : List Int64) → Store σ → Machine σ → Answer σ Unit → Prop
  | leaves {count : Int64} {store : Store σ} {machine later : Machine σ} (above : bound < count)
      (heads : Heads site first counter one start count store machine)
      (reached : Machine.Reaches site.environment machine later)
      (rests : Rests site.environment site.final last store later) :
      Rounds site first last counter round one start bound step count [] store machine
        (.value () store)
  | turns {count : Int64} {counts : List Int64} {store after : Store σ}
      {machine inside back : Machine σ} {answer : Answer σ Unit} (below : ¬ bound < count)
      (heads : Heads site first counter one start count store machine)
      (reached : Machine.Reaches site.environment machine inside)
      (opens : Opens site.environment site.final ⟨first.blocks + 1⟩ store inside)
      (holds : inside.frame.registers[round.index]? = some count)
      (did : step count store = .value () after)
      (returned : Machine.Reaches site.environment inside back)
      (rest : Rounds site first last counter round one start bound step (count + 1) counts after
        back answer) :
      Rounds site first last counter round one start bound step count (count :: counts) store
        machine answer
  | stops {count : Int64} {store : Store σ} {machine inside : Machine σ} (below : ¬ bound < count)
      (heads : Heads site first counter one start count store machine)
      (reached : Machine.Reaches site.environment machine inside)
      (opens : Opens site.environment site.final ⟨first.blocks + 1⟩ store inside)
      (holds : inside.frame.registers[round.index]? = some count)
      (stays : Realizes site.environment site.activation.rounds site.patient inside
        (fun _ _ _ => False) (step count store)) :
      Rounds site first last counter round one start bound step count [count] store machine
        (step count store)

/-- What a loop does is done in rounds, if its limit is not the largest number. -/
theorem Loop.inRounds (proper : site.Proper) {counter done : Value} {bound count : Int64}
    {start : Machine σ} {step : Int64 → Evaluation σ Unit}
    (loop : Loop site first limit counter round one done)
    (body : Body site first opened advanced last round one next step)
    (serves : site.Serves start) (limited : start.frame.registers[limit.index]? = some bound)
    (finite : bound ≠ Int64.maxValue) {rounds : Nat}
    (few : (bound.toInt - count.toInt + 1).toNat < rounds)
    (heads : Heads site first counter one start count store machine) :
    ∃ counts, Rounds site first last counter round one start bound step count counts store machine
      (Evaluation.iterate bound step rounds count store) := by
  induction rounds generalizing count store machine with
  | zero => exact absurd few (Nat.not_lt_zero _)
  | succ rounds induction =>
      rw [Evaluation.iterate]
      by_cases above : bound < count
      · obtain ⟨middle, later, reached, ahead, rests, -⟩ :=
          loop.exit proper body limited heads above
        rw [if_pos above]
        exact ⟨[], .leaves above heads (reached.tail ahead) rests⟩
      · obtain ⟨middle, inside, reached, ahead, opens, holds, turns⟩ :=
          loop.turn proper body serves limited heads above
        rw [if_neg above]
        change ∃ counts, Rounds _ _ _ _ _ _ _ _ _ _ _ _ _ ((step count store).bind _)
        have stops : _ → Rounds site first last counter round one start bound step count [count]
            store machine (step count store) :=
          .stops above heads (reached.tail ahead) opens holds
        cases did : step count store with
        | value outcome after =>
            rw [did] at turns
            obtain ⟨back, returned, again⟩ := turns
            obtain ⟨counts, rest⟩ := induction (needs_succ finite above few) again
            exact ⟨count :: counts, .turns above heads (reached.tail ahead) opens holds did
              returned rest⟩
        | fault cause host =>
            rw [did] at turns stops
            exact ⟨[count], stops turns⟩
        | unfinished =>
            rw [did] at turns stops
            exact ⟨[count], stops turns⟩

/-- The rounds are counted from the first number on: up to the limit if the loop is left, and no
further if it is not. -/
theorem Rounds.counts_eq {counter : Value} {start : Machine σ} {bound count : Int64}
    {step : Int64 → Evaluation σ Unit} {counts : List Int64} {answer : Answer σ Unit}
    (rounds : Rounds site first last counter round one start bound step count counts store machine
      answer) (finite : bound ≠ Int64.maxValue) {number : Nat} (same : count = Int64.ofNat number)
    (positive : 0 < number) (small : number < 2 ^ 63) :
    counts <+: (List.range' number (bound.toInt.toNat + 1 - number)).map Int64.ofNat ∧
      ∀ after, answer = .value () after →
        counts = (List.range' number (bound.toInt.toNat + 1 - number)).map Int64.ofNat := by
  induction rounds generalizing number with
  | leaves above _ _ _ =>
      rw [(range'_limit finite positive small).1 (same ▸ above)]
      exact ⟨List.prefix_rfl, fun _ _ => rfl⟩
  | turns below _ _ _ _ _ _ _ induction =>
      obtain ⟨small, more⟩ := (range'_limit finite positive small).2 (same ▸ below)
      have next := Int64.ofNat_add number 1
      obtain ⟨before, whole⟩ := induction (same ▸ next.symm) (Nat.succ_pos number) small
      rw [more, List.map_cons, ← same]
      refine ⟨List.cons_prefix_cons.mpr ⟨rfl, before⟩, fun after left => ?_⟩
      rw [whole after left]
  | stops below _ _ _ _ stays =>
      obtain ⟨-, more⟩ := (range'_limit finite positive small).2 (same ▸ below)
      rw [more, List.map_cons, ← same]
      refine ⟨⟨_, rfl⟩, fun after left => ?_⟩
      rw [left] at stays
      obtain ⟨_, _, impossible⟩ := stays
      exact impossible.elim

/-- The block behind a loop is empty when it is filled. -/
theorem Enters.empty {counter done : Value} {bodyEnd : Label} (bare : first.shape.Bare)
    (inside : source.index < first.blocks)
    (opens : opened.shape = first.shape.enterLoop source limit counter round one done)
    (flows : Shape.Flows ⟨first.blocks + 1⟩ bodyEnd opened.shape advanced.shape)
    (leaves : last.shape = advanced.shape.leaveLoop bodyEnd next ⟨first.blocks⟩
      ⟨first.blocks + 2⟩) : last.shape.script ⟨first.blocks + 2⟩ = [] := by
  have place := flows.place
  rw [opens, Shape.blocks_enterLoop] at place
  have different : (⟨first.blocks + 2⟩ : Label) ≠ bodyEnd := by
    rintro rfl
    rcases place with same | outside
    · exact absurd (congrArg Label.index same) (Nat.succ_ne_self _)
    · exact absurd outside (Nat.not_succ_le_self _)
  have other : (⟨first.blocks + 2⟩ : Label) ≠ source := by
    rintro rfl
    exact Nat.not_succ_le_self _ ((Nat.le_add_right _ 2).trans inside)
  rw [leaves]
  refine (Function.update_of_ne different _ _).trans ?_
  rw [flows.apart.script ⟨first.blocks + 2⟩ (by rw [opens]; exact Nat.lt_succ_self _) (by simp),
    opens, Shape.script_enterLoop other (by simp)]
  exact bare.script _ (Nat.le_add_right _ _)

/-- A loop in the finished function. -/
theorem Enters.loop (proper : site.Proper) (enters : Enters limit first round one opened)
    (ends : Ends opened site.final) (sound : Sound first.recording)
    (active : first.shape.Active source) (limited : limit.index < first.size) :
    ∃ counter done : Value,
      opened.shape = first.shape.enterLoop source limit counter round one done ∧
        Loop site first limit counter round one done := by
  obtain ⟨counter, done, opens, fresh, counted, increased⟩ := enters.numbers active.current
  have bare : first.shape.Bare := Recording.bare sound
  have grows := Moves.grows ends.moves
  have explicit : opened.shape.explicit ⟨first.blocks⟩ = [counter] ∧
      opened.shape.explicit ⟨first.blocks + 1⟩ = [round] := by
    rw [opens]
    exact Shape.explicit_enterLoop bare
  have started : (⟨[one], .constant .i64 1, []⟩ : Instruction) ∈
      emitted (site.final.script source) := by
    refine mem_emitted.mpr ((ends.script source).subset ?_)
    rw [opens, Shape.script_enterLoop_source active.inside]
    simp
  refine ⟨counter, done, opens, ?_, ?_, ?_, ?_, ?_, limited, fresh, counted, increased⟩
  · have header := ends.script ⟨first.blocks⟩
    rwa [opens, Shape.script_enterLoop_header bare active.inside] at header
  · exact explicit.1 ▸ grows.explicit ⟨first.blocks⟩
  · exact explicit.2 ▸ grows.explicit ⟨first.blocks + 1⟩
  · intro label outside parameter
    exact Moves.parameter_le (enters.reaches.moves.trans ends.moves) sound outside
  · exact fun label => proper.executed.not_parameter started (List.mem_singleton.mpr rfl)

section Entries

variable {name : String} {inside filled : Stage} {step : Int64 → Evaluation σ Unit}
  {bound : Int64} (proper : site.Proper) (enters : Enters limit first round one opened)
  (binds : Binds name round opened inside) (fills : Fills inside filled)
  (advances : Does [.emit (.arithmetic .add round one) [.i64]] filled advanced)
  (leaves : Does (leaving filled.next first.blocks) advanced last)
  (trip : ∀ count, Simulates site opened advanced [round, one] [count, 1] [filled.next]
    (fun word => [word]) (step count >>= fun _ => pure (count + 1)))

include proper enters binds fills advances leaves trip

/-- A loop starts with one for the counter. -/
theorem Enters.starts (limited : limit.index < first.size) (ends : Ends last site.final)
    (sound : Sound first.recording) (active : first.shape.Active source)
    (rests : Rests site.environment site.final first store machine) :
    ∃ counter done header, Loop site first limit counter round one done ∧
      Body site first opened advanced last round one filled.next step ∧
      Machine.Reaches site.environment machine header ∧
      Heads site first counter one machine 1 store header := by
  have soundOpened := enters.reaches.sound sound
  have soundAdvanced := (trip 0).fills.reaches.sound soundOpened
  have endsOpened := (ends.earlier leaves.reaches soundAdvanced).earlier (trip 0).fills.reaches
    soundOpened
  have bare : first.shape.Bare := Recording.bare sound
  cases active.current.symm.trans rests.current
  obtain ⟨bodyEnd, inBody, bindFlow, toEnd, toAdvanced, whole⟩ :=
    enters.flows sound active binds fills advances leaves
  obtain ⟨counter, done, opens, loop⟩ := enters.loop proper endsOpened sound active limited
  have blank : opened.shape.script ⟨first.blocks + 1⟩ = [] := by
    rw [opens]
    exact Shape.script_enterLoop_body bare active.inside
  have behind := Enters.empty bare active.inside opens
    (bindFlow.trans (toEnd.trans toAdvanced)) (leaves.leave_shape toAdvanced.active.current)
  obtain ⟨roundTyped, oneTyped⟩ := enters.hasTypes
  obtain ⟨events, -, stands⟩ := rests.ahead
    (by rw [opens]; exact Shape.script_enterLoop_source active.inside) (endsOpened.script _)
  have new : first.size ≤ one.index := loop.fresh.trans (Nat.le_of_lt loop.counted)
  obtain ⟨middle, reached, passes, unit⟩ : Realizes site.environment 0 site.patient machine _
      (.value 1 store) :=
    stands.compute proper.executed proper.named rfl new rfl
  obtain ⟨header, next, lands⟩ := passes.stands.jump proper.executed
  refine ⟨counter, done, header, loop,
    ⟨enters.reaches.size_le, roundTyped.index_lt, oneTyped.index_lt, trip, leaves, ends,
      soundOpened, inBody, blank, whole.active.current, behind⟩, reached.tail next, lands.opens,
    ?_, (lands.first rfl loop.counts).trans unit, (lands.others one (loop.kept _)).trans unit⟩
  exact passes.stays.trans (lands.stays (loop.new _ (Nat.le_refl _))) (Nat.le_refl _)

/-- A loop does what the iteration says. -/
theorem Enters.simulates {known : List Value} {facts : List Int64} (place : Nat)
    (chosen : known[place]? = some limit) (given : facts[place]? = some bound) :
    Simulates site first last known facts [] (fun _ => [])
      (Evaluation.iterate bound step site.activation.rounds 1) where
  fills := by
    refine ⟨enters.reaches.trans ((trip 0).fills.reaches.trans leaves.reaches),
      fun sound active => ?_⟩
    obtain ⟨_, _, _, _, _, whole⟩ := enters.flows sound active binds fills advances leaves
    exact ⟨_, whole⟩
  runs {source store machine} ends sound active rests serves shows := by
    obtain ⟨counter, done, header, loop, body, reached, heads⟩ :=
      enters.starts proper binds fills advances leaves trip
        (shows.inside (List.mem_of_getElem? chosen)) ends sound active rests
    refine Realizes.reach reached ((loop.iterates proper body serves
      (shows.holds place chosen given) (Nat.le_refl _)
      (fun patient finite => needs_one finite (proper.rounds patient)) heads).mono ?_)
    exact fun _ after later ⟨rests, stays⟩ => ⟨rests, stays, .nil⟩

/-- A loop goes through a round for each number from one up to its limit, or for the first of them
if the body of the last of these does not come to its end. -/
theorem Enters.inRounds (known : limit.index < first.size) (ends : Ends last site.final)
    (sound : Sound first.recording) (active : first.shape.Active source)
    (rests : Rests site.environment site.final first store machine) (serves : site.Serves machine)
    (limited : machine.frame.registers[limit.index]? = some bound)
    (finite : bound ≠ Int64.maxValue) {rounds : Nat} (enough : 2 ^ 63 ≤ rounds) :
    ∃ counter header counts, Machine.Reaches site.environment machine header ∧
      header.limit? = some bound ∧
      Rounds site first last counter round one machine bound step 1 counts store header
        (Evaluation.iterate bound step rounds 1 store) ∧
      counts <+: (List.range' 1 bound.toInt.toNat).map Int64.ofNat ∧
      ∀ after, Evaluation.iterate bound step rounds 1 store = .value () after →
        counts = (List.range' 1 bound.toInt.toNat).map Int64.ofNat := by
  obtain ⟨counter, done, header, loop, body, reached, heads⟩ :=
    enters.starts proper binds fills advances leaves trip known ends sound active rests
  obtain ⟨counts, goes⟩ :=
    loop.inRounds proper body serves limited finite (needs_one finite enough) heads
  exact ⟨counter, header, counts, reached, loop.limit? heads limited, goes,
    goes.counts_eq finite (show (1 : Int64) = Int64.ofNat 1 from rfl) Nat.one_pos (by decide)⟩

end Entries

end Loops

end Lowering

end ExprLang
