import ExprLang.Proofs.Ssa.Availability

/-!
# Where values come from

A caller of a builder gets values from three places: explicit parameters, the results of
instructions, and variables that are read. If every value that is handed in was got in the same
block before, or in a block that dominates the place, then it is available there. Values of
variables can come from anywhere, so this takes an induction over the way to the place.
-/

namespace ExprLang.Ssa

namespace Function

def Precedes (function : Function) (first second : Label) : Prop :=
  ∀ earlier, function.Trail (second :: earlier) → first ∈ earlier

variable {function : Function}

theorem Precedes.trans {first second third : Label} (left : function.Precedes first second)
    (right : function.Precedes second third) : function.Precedes first third := by
  intro earlier trail
  have shorter : function.Trail earlier := by
    cases trail with
    | entry _ _ => cases right [] (.entry _ ‹_›)
    | next _ _ _ shorter _ => exact shorter
  obtain ⟨later, before, equal, visit⟩ := shorter.of_mem (right earlier trail)
  rw [equal]
  exact List.mem_append_right later (List.mem_cons_of_mem second (left before visit))

/-- Blocks that can only be entered from one another or from a certain block come after that
block. -/
theorem Precedes.of_region {gate entry : Label} {region : Label → Prop}
    (first : function.entry? = some entry) (outside : ¬ region entry)
    (entered : ∀ source target, region target → target ∈ (function.block source).successors →
      source = gate ∨ region source)
    {label : Label} (inside : region label) : function.Precedes gate label := by
  intro earlier trail
  generalize path : label :: earlier = whole at trail
  induction trail generalizing label earlier with
  | entry start isEntry =>
      cases path
      rw [first] at isEntry
      cases isEntry
      exact absurd inside outside
  | next source target before shorter leads induction =>
      cases path
      rcases entered source target inside leads with rfl | within
      · exact List.mem_cons_self
      · exact List.mem_cons_of_mem source (induction within before rfl)

end Function

namespace Recording

def Offers (recording : Recording) (label : Label) (before : List Event) (value : Value) : Prop :=
  value ∈ recording.explicit label ∨
    (∃ instruction ∈ emitted before, value ∈ instruction.results) ∨
    ∃ var, .use var value ∈ before

/-- The caller has got a value in a block before some point of its script, or in a block that
is always passed before. -/
def Grounded (recording : Recording) (label : Label) (before : List Event) (value : Value) :
    Prop :=
  recording.Offers label before value ∨
    ∃ source, recording.builder.function.Precedes source label ∧
      recording.Offers source (recording.script source) value

variable {recording : Recording} {label target : Label} {before after : List Event}
  {value : Value}

theorem Offers.mono (offers : recording.Offers label before value) (longer : before <+: after) :
    recording.Offers label after value := by
  obtain ⟨rest, rfl⟩ := longer
  rcases offers with parameter | ⟨instruction, member, result⟩ | ⟨var, used⟩
  · exact .inl parameter
  · exact .inr (.inl ⟨instruction, by simp [member], result⟩)
  · exact .inr (.inr ⟨var, by simp [used]⟩)

theorem Grounded.mono (grounded : recording.Grounded label before value)
    (longer : before <+: after) : recording.Grounded label after value :=
  grounded.imp_left fun offers => offers.mono longer

theorem Grounded.of_precedes (grounded : recording.Grounded label before value)
    (inside : before <+: recording.script label)
    (precedes : recording.builder.function.Precedes label target) (front : List Event) :
    recording.Grounded target front value := by
  rcases grounded with offers | ⟨source, above, offers⟩
  · exact .inr ⟨label, precedes, offers.mono inside⟩
  · exact .inr ⟨source, above.trans precedes, offers⟩

def HandsGrounded (recording : Recording) : Prop :=
  ∀ label before event behind, recording.script label = before ++ event :: behind →
    ∀ value ∈ event.handed, recording.Grounded label before value

end Recording

namespace Finished

variable {entry label : Label} {recording : Recording} {before behind : List Event}
  {value : Value}

theorem mem_definedBefore_of_explicit (finished : Finished entry recording)
    (member : value ∈ recording.explicit label) (index : Nat) :
    value ∈ (recording.builder.function.block label).definedBefore index :=
  List.mem_append_left _ (finished.sound.linked.mem_explicit member)

theorem mem_definedBefore_of_result (finished : Finished entry recording)
    (split : recording.script label = before ++ behind) {instruction : Instruction}
    (member : instruction ∈ emitted before) (result : value ∈ instruction.results) :
    value ∈ (recording.builder.function.block label).definedBefore
      (recording.point label before) := by
  refine List.mem_append_right _ ?_
  have length : recording.point label before =
      ((recording.zeros label).map (fun zero => Builder.zeroInstruction zero.1 zero.2) ++
        (emitted before).map
          (Instruction.extend fun side => recording.appended ⟨label, side⟩)).length := by
    simp [Recording.point]
  rw [finished.sound.scripted.code label, split, emitted_append, List.map_append,
    ← List.append_assoc, length, List.take_left]
  refine List.mem_flatMap.mpr ⟨instruction.extend fun side => recording.appended ⟨label, side⟩,
    List.mem_append_right _ (List.mem_map.mpr ⟨instruction, member, rfl⟩), ?_⟩
  simpa using result

/-- What was got before some point of a block was defined on the way there, if the values that
were handed in before were. -/
theorem passed_offered (finished : Finished entry recording) {earlier : List Label}
    (trail : recording.builder.function.Trail (label :: earlier))
    (shorter : ∀ source before front event behind,
      recording.builder.function.Trail (source :: before) → before.length < earlier.length →
      recording.script source = front ++ event :: behind → ∀ value ∈ event.handed,
        ∃ passed ∈ source :: before,
          value ∈ (recording.builder.function.block passed).definitions)
    (split : recording.script label = before ++ behind)
    (handed : ∀ front event rest, before = front ++ event :: rest → ∀ value ∈ event.handed,
      value ∈ (recording.builder.function.block label).definedBefore
          (recording.point label front) ∨
        ∃ passed ∈ earlier, value ∈ (recording.builder.function.block passed).definitions)
    (offers : recording.Offers label before value) :
    value ∈ (recording.builder.function.block label).definedBefore
        (recording.point label before) ∨
      ∃ passed ∈ earlier, value ∈ (recording.builder.function.block passed).definitions := by
  have later : ∀ front, front <+: before →
      (value ∈ (recording.builder.function.block label).definedBefore
          (recording.point label front) ∨
        ∃ passed ∈ earlier, value ∈ (recording.builder.function.block passed).definitions) →
      value ∈ (recording.builder.function.block label).definedBefore
          (recording.point label before) ∨
        ∃ passed ∈ earlier, value ∈ (recording.builder.function.block passed).definitions := by
    rintro front ⟨rest, rfl⟩ passed
    refine passed.imp_left fun inside => ?_
    exact Block.definedBefore_mono _ (by simp [Recording.point]) inside
  rcases offers with parameter | ⟨instruction, member, result⟩ | ⟨var, used⟩
  · exact .inl (finished.mem_definedBefore_of_explicit parameter _)
  · exact .inl (finished.mem_definedBefore_of_result split member result)
  · obtain ⟨front, rest, rfl⟩ := List.append_of_mem used
    have holds := finished.sound.tracked.uses label front var value (rest ++ behind)
      (by rw [split]; simp)
    rcases settle_eq_some holds with received | defined
    · exact later [] (List.nil_prefix) (finished.passed_incoming trail shorter received)
    · obtain ⟨start, middle, rfl⟩ := List.append_of_mem defined
      exact later start (by simp) (handed start (.define var value)
        (middle ++ .use var value :: rest) (by simp) value (List.mem_singleton.mpr rfl))

theorem handsAvailable (finished : Finished entry recording)
    (grounded : recording.HandsGrounded) : recording.HandsAvailable := by
  -- The induction is on the length of the trail, and then on the place in the script.
  have every : ∀ (length : Nat) (label : Label) (earlier : List Label),
      earlier.length = length → recording.builder.function.Trail (label :: earlier) →
      ∀ before event behind, recording.script label = before ++ event :: behind →
        ∀ value ∈ event.handed,
          value ∈ (recording.builder.function.block label).definedBefore
              (recording.point label before) ∨
            ∃ passed ∈ earlier,
              value ∈ (recording.builder.function.block passed).definitions := by
    intro length
    induction length using Nat.strongRecOn with
    | ind length induction =>
        intro label earlier size trail
        have shorter : ∀ source before front event behind,
            recording.builder.function.Trail (source :: before) →
            before.length < earlier.length →
            recording.script source = front ++ event :: behind → ∀ value ∈ event.handed,
              ∃ passed ∈ source :: before,
                value ∈ (recording.builder.function.block passed).definitions := by
          intro source before front event behind visit short split value member
          rcases induction before.length (by omega) source before rfl visit front event behind
            split value member with inside | ⟨passed, passedMember, defined⟩
          · exact ⟨source, List.mem_cons_self, Block.definedBefore_subset _ _ inside⟩
          · exact ⟨passed, List.mem_cons_of_mem _ passedMember, defined⟩
        intro before
        induction count : before.length using Nat.strongRecOn generalizing before with
        | ind count inner =>
            intro event behind split value member
            have handed : ∀ front other rest, before = front ++ other :: rest →
                ∀ value ∈ other.handed, _ := fun front other rest equal =>
              inner front.length (by rw [← count, equal]; simp) front rfl other
                (rest ++ event :: behind) (by rw [split, equal]; simp)
            rcases grounded label before event behind split value member with
              offers | ⟨source, precedes, offers⟩
            · exact finished.passed_offered trail shorter split handed offers
            · -- The value was got in a block that the trail has passed.
              right
              have passed := precedes earlier trail
              have rest : recording.builder.function.Trail earlier := by
                cases trail with
                | entry _ _ => cases passed
                | next _ _ _ before _ => exact before
              obtain ⟨newer, older, equal, visit⟩ := rest.of_mem passed
              have short : older.length < earlier.length := by
                rw [equal]
                simp
                omega
              have there := finished.passed_offered visit (by
                intro other others front event behind trail less
                exact shorter other others front event behind trail (by omega))
                (List.append_nil _).symm (by
                intro front other rest split
                exact induction older.length (by omega) source older rfl visit front other rest
                  split) offers
              rcases there with inside | ⟨block, blockMember, defined⟩
              · exact ⟨source, passed, Block.definedBefore_subset _ _ inside⟩
              · refine ⟨block, ?_, defined⟩
                rw [equal]
                exact List.mem_append_right _ (List.mem_cons_of_mem _ blockMember)
  intro label before event behind split value member earlier trail
  exact every earlier.length label earlier rfl trail before event behind split value member

end Finished

end ExprLang.Ssa
