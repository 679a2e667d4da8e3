import ExprLang.Datum.Pattern
import Mathlib.Data.List.Forall2

/-!
# Instances of patterns

A datum is an instance of a pattern if it comes out of it when every ellipsis among the items of a
list or array is replaced by a run of data, which may be empty, and an ellipsis by itself by any
datum. Main statement: the data that match a pattern are its instances, and where a datum is none,
the path that is reported leads to the first place at which the two differ.
-/

namespace ExprLang.Datum

variable {pattern datum item : Datum} {patterns items : List Datum}

/-! ## Replacing the ellipses -/

mutual

/-- A datum comes out of a pattern by replacing its ellipses. -/
inductive Instance : Datum → Datum → Prop
  | anything (datum : Datum) : Instance .ellipsis datum
  | symbol (text : Bytes) : Instance (.symbol text) (.symbol text)
  | string (text : Bytes) : Instance (.string text) (.string text)
  | integer (text : Bytes) : Instance (.integer text) (.integer text)
  | list {patterns items : List Datum} (filled : Filling patterns items) :
      Instance (.list patterns) (.list items)
  | array {patterns items : List Datum} (filled : Filling patterns items) :
      Instance (.array patterns) (.array items)

/-- Items come out of patterns by replacing each ellipsis by a run of data and every other pattern
by an instance of it. -/
inductive Filling : List Datum → List Datum → Prop
  | nil : Filling [] []
  | run {patterns items : List Datum} (run : List Datum) (others : Filling patterns items) :
      Filling (.ellipsis :: patterns) (run ++ items)
  | item {pattern item : Datum} {patterns items : List Datum}
      (plain : pattern.isEllipsis = false) (here : Instance pattern item)
      (others : Filling patterns items) : Filling (pattern :: patterns) (item :: items)

end

/-! ## One pattern at a time -/

@[simp] theorem accepts_ellipsis : ellipsis.accepts datum = true := by
  cases datum <;> rfl

@[simp] theorem accepts_list :
    (list patterns).accepts (list items) = acceptsAll patterns items :=
  rfl

@[simp] theorem accepts_array :
    (array patterns).accepts (array items) = acceptsAll patterns items :=
  rfl

@[simp] theorem acceptsAll_nil : acceptsAll [] items = items.isEmpty :=
  rfl

/-- An ellipsis stands for as many of the first items as leave the others to the other
patterns. -/
theorem acceptsAll_ellipsis :
    acceptsAll (ellipsis :: patterns) items = true ↔
      ∃ run rest, items = run ++ rest ∧ acceptsAll patterns rest = true := by
  rw [acceptsAll, List.any_eq_true]
  constructor
  · intro matched
    rcases matched with ⟨passed, -, rest⟩
    exact ⟨items.take passed, items.drop passed, (List.take_append_drop passed items).symm, rest⟩
  · intro split
    rcases split with ⟨run, rest, rfl, matched⟩
    apply Exists.intro run.length
    constructor
    · rw [List.mem_range, List.length_append]
      omega
    · rw [List.drop_left]
      exact matched

theorem acceptsAll_plain_nil (plain : pattern.isEllipsis = false) :
    acceptsAll (pattern :: patterns) [] = false := by
  cases pattern with
  | ellipsis => cases plain
  | symbol | string | integer | list | array => rfl

theorem acceptsAll_plain_cons (plain : pattern.isEllipsis = false) :
    acceptsAll (pattern :: patterns) (item :: items) =
      (pattern.accepts item && acceptsAll patterns items) := by
  cases pattern with
  | ellipsis => cases plain
  | symbol | string | integer | list | array => rfl

theorem eq_ellipsis (isEllipsis : pattern.isEllipsis = true) : pattern = ellipsis := by
  cases pattern with
  | ellipsis => rfl
  | symbol | string | integer | list | array => cases isEllipsis

/-! ## Matching data are instances -/

mutual

theorem instance_of_accepts {pattern datum : Datum} (accepted : pattern.accepts datum = true) :
    Instance pattern datum := by
  cases pattern with
  | ellipsis => exact .anything datum
  | symbol expected | string expected | integer expected =>
      cases datum <;> simp only [accepts, Bool.false_eq_true] at accepted
      rw [eq_of_beq accepted]
      constructor
  | list patterns =>
      cases datum <;> simp only [accepts, Bool.false_eq_true] at accepted
      exact .list (filling_of_acceptsAll accepted)
  | array patterns =>
      cases datum <;> simp only [accepts, Bool.false_eq_true] at accepted
      exact .array (filling_of_acceptsAll accepted)
termination_by structural pattern

theorem filling_of_acceptsAll {patterns items : List Datum}
    (accepted : acceptsAll patterns items = true) : Filling patterns items := by
  cases patterns with
  | nil =>
      rw [acceptsAll_nil, List.isEmpty_iff] at accepted
      rw [accepted]
      exact .nil
  | cons pattern patterns =>
      cases kind : pattern.isEllipsis with
      | true =>
          rw [eq_ellipsis kind] at accepted ⊢
          rcases acceptsAll_ellipsis.mp accepted with ⟨run, rest, rfl, matched⟩
          exact .run run (filling_of_acceptsAll matched)
      | false =>
          cases items with
          | nil =>
              rw [acceptsAll_plain_nil kind] at accepted
              cases accepted
          | cons item items =>
              rw [acceptsAll_plain_cons kind, Bool.and_eq_true] at accepted
              exact .item kind (instance_of_accepts accepted.1)
                (filling_of_acceptsAll accepted.2)
termination_by structural patterns

end

mutual

theorem Instance.accepts {pattern datum : Datum} (filled : Instance pattern datum) :
    pattern.accepts datum = true := by
  cases filled with
  | anything => exact accepts_ellipsis
  | symbol text | string text | integer text =>
      rw [Datum.accepts]
      exact BEq.rfl
  | list filled =>
      rw [accepts_list]
      exact filled.acceptsAll
  | array filled =>
      rw [accepts_array]
      exact filled.acceptsAll

theorem Filling.acceptsAll {patterns items : List Datum} (filled : Filling patterns items) :
    acceptsAll patterns items = true := by
  cases filled with
  | nil => rfl
  | run run others => exact acceptsAll_ellipsis.mpr ⟨run, _, rfl, others.acceptsAll⟩
  | item plain here others =>
      rw [acceptsAll_plain_cons plain, here.accepts, others.acceptsAll]
      rfl

end

/-! ## Ways to a difference -/

inductive Paired : Datum → Datum → List Datum → List Datum → Prop
  | lists (patterns items : List Datum) : Paired (.list patterns) (.list items) patterns items
  | arrays (patterns items : List Datum) : Paired (.array patterns) (.array items) patterns items

/-- A path leads from a pattern and a datum to parts of them. Each step goes into two lists or two
arrays of one length, with no ellipsis among the patterns, and passes only items that match. -/
inductive Leads : List Nat → Datum → Datum → Datum → Datum → Prop
  | here (pattern datum : Datum) : Leads [] pattern datum pattern datum
  | step {outer whole pattern item target part : Datum} {before passed after later : List Datum}
      {path : List Nat}
      (pair : Paired outer whole (before ++ pattern :: after) (passed ++ item :: later))
      (plain : ∀ other ∈ before ++ pattern :: after, other.isEllipsis = false)
      (length : after.length = later.length)
      (earlier : List.Forall₂ (fun pattern item => pattern.accepts item = true) before passed)
      (deeper : Leads path pattern item target part) :
      Leads (before.length :: path) outer whole target part

/-- A pattern and a datum that differ by themselves: in kind, as atoms in their text, or as lists or
arrays that cannot be compared item by item. -/
inductive Differs : Datum → Datum → Prop
  | kind {pattern datum : Datum} (other : pattern.kind ≠ datum.kind) : Differs pattern datum
  | text {pattern datum : Datum} (same : pattern.kind = datum.kind)
      (atom : pattern.kind.isAtom = true) (other : pattern.text ≠ datum.text) :
      Differs pattern datum
  | items {pattern datum : Datum} {patterns items : List Datum}
      (pair : Paired pattern datum patterns items)
      (shape : (∃ item ∈ patterns, item.isEllipsis = true) ∨ patterns.length ≠ items.length) :
      Differs pattern datum

/-- A path leads from a pattern and a datum to a mismatch, which is one. -/
structure Mismatch.Lies (mismatch : Mismatch) (path : List Nat) (pattern datum : Datum) :
    Prop where
  leads : Leads path pattern datum mismatch.pattern mismatch.datum
  refused : mismatch.pattern.accepts mismatch.datum = false
  differs : Differs mismatch.pattern mismatch.datum

theorem isAligned_iff :
    isAligned patterns items = true ↔
      (∀ other ∈ patterns, other.isEllipsis = false) ∧ patterns.length = items.length := by
  simp [isAligned]

theorem mismatchAt?_eq_none_iff {path : List Nat} :
    mismatchAt? path pattern datum = none ↔ pattern.accepts datum = true := by
  cases pattern <;> cases datum <;> simp [mismatchAt?, accepts]

theorem acceptsAll_of_mismatchIn?_eq_none {path : List Nat} {index : Nat}
    (plain : ∀ other ∈ patterns, other.isEllipsis = false)
    (length : patterns.length = items.length)
    (none : mismatchIn? path index patterns items = none) :
    acceptsAll patterns items = true := by
  induction patterns generalizing index items with
  | nil =>
      rw [List.length_nil] at length
      rw [acceptsAll_nil, List.isEmpty_iff, List.eq_nil_of_length_eq_zero length.symm]
  | cons pattern patterns induction =>
      cases items with
      | nil => cases length
      | cons item items =>
          rw [mismatchIn?, Option.or_eq_none_iff, mismatchAt?_eq_none_iff] at none
          rw [List.forall_mem_cons] at plain
          rw [acceptsAll_plain_cons plain.1, none.1,
            induction plain.2 (Nat.succ.inj length) none.2]
          rfl

theorem paired_or_alone (pattern datum : Datum) :
    (∃ patterns items, Paired pattern datum patterns items) ∨
      (∀ path, mismatchAt? path pattern datum =
        if pattern.accepts datum then none else some ⟨path, pattern, datum⟩) ∧
      (pattern.accepts datum = false → Differs pattern datum) := by
  cases pattern <;> cases datum
  case list.list patterns items => exact .inl ⟨patterns, items, .lists patterns items⟩
  case array.array patterns items => exact .inl ⟨patterns, items, .arrays patterns items⟩
  all_goals
    right
    apply And.intro (fun path => by simp [mismatchAt?])
    intro refused
  case symbol.symbol | string.string | integer.integer =>
    exact .text rfl rfl (by simpa [accepts, text] using refused)
  case ellipsis.symbol | ellipsis.string | ellipsis.integer | ellipsis.ellipsis | ellipsis.list |
      ellipsis.array =>
    rw [accepts_ellipsis] at refused
    cases refused
  all_goals
    apply Differs.kind
    simp [kind]

theorem Paired.mismatchAt?_eq {path : List Nat} (pair : Paired pattern datum patterns items) :
    mismatchAt? path pattern datum =
      if acceptsAll patterns items then none
      else (if isAligned patterns items then mismatchIn? path 0 patterns items else none).or
        (some ⟨path, pattern, datum⟩) := by
  cases pair <;> rfl

theorem Paired.accepts_eq (pair : Paired pattern datum patterns items) :
    pattern.accepts datum = acceptsAll patterns items := by
  cases pair with
  | lists => exact accepts_list
  | arrays => exact accepts_array

def LiesIn (mismatch : Mismatch) (path : List Nat) (index : Nat) (patterns items : List Datum) :
    Prop :=
  ∃ before pattern after passed item later rest,
    patterns = before ++ pattern :: after ∧ items = passed ++ item :: later ∧
      List.Forall₂ (fun pattern item => pattern.accepts item = true) before passed ∧
      mismatch.path = path ++ (index + before.length) :: rest ∧ mismatch.Lies rest pattern item

/-- Two lists or two arrays that do not match differ inside if they can be compared item by item,
and otherwise by themselves. -/
theorem Paired.lies {path : List Nat} {mismatch : Mismatch}
    (pair : Paired pattern datum patterns items)
    (inside : ∀ {mismatch}, mismatchIn? path 0 patterns items = some mismatch →
      LiesIn mismatch path 0 patterns items)
    (located : mismatchAt? path pattern datum = some mismatch) :
    ∃ rest, mismatch.path = path ++ rest ∧ mismatch.Lies rest pattern datum := by
  rw [pair.mismatchAt?_eq] at located
  by_cases accepted : acceptsAll patterns items = true
  · rw [if_pos accepted] at located
    cases located
  rw [if_neg accepted, Option.or_eq_some_iff] at located
  rcases located with within | ⟨outside, here⟩
  · by_cases aligned : isAligned patterns items = true
    · rw [if_pos aligned] at within
      rw [isAligned_iff] at aligned
      rcases inside within with
        ⟨before, target, after, passed, part, later, rest, rfl, rfl, earlier, split, lies⟩
      have length := aligned.2
      simp only [List.length_append, List.length_cons, earlier.length_eq] at length
      rw [Nat.zero_add] at split
      exact ⟨before.length :: rest, split,
        .step pair aligned.1 (by omega) earlier lies.leads, lies.refused, lies.differs⟩
    · rw [if_neg aligned] at within
      cases within
  · cases here
    apply Exists.intro []
    constructor
    · exact (List.append_nil path).symm
    · rw [Bool.not_eq_true] at accepted
      constructor
      · exact .here pattern datum
      · exact pair.accepts_eq.trans accepted
      · apply Differs.items pair
        by_cases aligned : isAligned patterns items = true
        · rw [if_pos aligned] at outside
          rw [isAligned_iff] at aligned
          rw [acceptsAll_of_mismatchIn?_eq_none aligned.1 aligned.2 outside] at accepted
          cases accepted
        · rw [isAligned_iff, not_and_or] at aligned
          simpa using aligned

/-- The path that is found leads to a difference if that holds of the items of lists and arrays. -/
theorem lies_of_inside {path : List Nat} {mismatch : Mismatch}
    (inside : ∀ {patterns items}, Paired pattern datum patterns items →
      ∀ {mismatch}, mismatchIn? path 0 patterns items = some mismatch →
        LiesIn mismatch path 0 patterns items)
    (located : mismatchAt? path pattern datum = some mismatch) :
    ∃ rest, mismatch.path = path ++ rest ∧ mismatch.Lies rest pattern datum := by
  rcases paired_or_alone pattern datum with ⟨patterns, items, pair⟩ | ⟨alone, differs⟩
  · exact pair.lies (inside pair) located
  · rw [alone] at located
    split at located
    · cases located
    · rename_i refused
      cases located
      rw [Bool.not_eq_true] at refused
      exact ⟨[], (List.append_nil path).symm, .here pattern datum, refused, differs refused⟩

mutual

theorem lies_of_mismatchAt? {path : List Nat} {pattern datum : Datum} {mismatch : Mismatch}
    (located : mismatchAt? path pattern datum = some mismatch) :
    ∃ rest, mismatch.path = path ++ rest ∧ mismatch.Lies rest pattern datum := by
  apply lies_of_inside _ located
  cases pattern with
  | ellipsis | symbol | string | integer =>
      intro patterns items pair
      cases pair
  | list patterns =>
      intro patterns items pair
      cases pair
      exact lies_of_mismatchIn?
  | array patterns =>
      intro patterns items pair
      cases pair
      exact lies_of_mismatchIn?
termination_by structural pattern

theorem lies_of_mismatchIn? {path : List Nat} {index : Nat} {patterns items : List Datum}
    {mismatch : Mismatch} (located : mismatchIn? path index patterns items = some mismatch) :
    LiesIn mismatch path index patterns items := by
  cases patterns with
  | nil => cases located
  | cons pattern patterns =>
      cases items with
      | nil => cases located
      | cons item items =>
          rw [mismatchIn?, Option.or_eq_some_iff] at located
          rcases located with here | ⟨none, there⟩
          · rcases lies_of_mismatchAt? here with ⟨rest, split, lies⟩
            refine ⟨[], pattern, patterns, [], item, items, rest, rfl, rfl, .nil, ?_, lies⟩
            rw [split, List.append_assoc]
            rfl
          · rcases lies_of_mismatchIn? there with
              ⟨before, target, after, passed, part, later, rest, rfl, rfl, earlier, split, lies⟩
            refine ⟨pattern :: before, target, after, item :: passed, part, later, rest, rfl, rfl,
              .cons (mismatchAt?_eq_none_iff.mp none) earlier, ?_, lies⟩
            rw [split, List.length_cons, Nat.add_comm before.length 1, Nat.add_assoc]
termination_by structural patterns

end

/-- The octets in front of a reported difference, which show the way to it. -/
def Mismatch.place (mismatch : Mismatch) : Bytes :=
  Bytes.ofString ("at root" ++
    String.join (mismatch.path.map fun index => "[" ++ Text.decimal index ++ "]") ++ ":")

theorem Mismatch.place_prefix_message (mismatch : Mismatch) :
    mismatch.place <+: mismatch.message := by
  simp [Mismatch.place, Mismatch.message, Bytes.ofString, List.append_assoc]

theorem Mismatch.message_ne_nil (mismatch : Mismatch) : mismatch.message ≠ [] := by
  intro empty
  have shown := mismatch.place_prefix_message
  rw [empty, List.prefix_nil, place, Bytes.ofString, List.flatMap_eq_nil_iff] at shown
  have first := shown 'a' (by simp)
  cases first

/-- A datum matches a pattern if and only if it comes out of it by replacing every ellipsis among
the items of a list or array by some run of data and an ellipsis by itself by any datum. Nothing is
reported about a datum that matches. About any other the report shows a path, which passes only
items that match, goes only into two lists or two arrays of one length with no ellipsis among the
patterns, and ends at a pattern and a datum that do not match: they differ in kind, or as atoms in
their text, or they are lists or arrays with an ellipsis among the patterns or of two lengths. -/
theorem matching_finds_instances (pattern datum : Datum) :
    (pattern.accepts datum = true ↔ Instance pattern datum) ∧
      (((pattern.mismatch? datum).map Mismatch.message).getD [] = [] ↔
        pattern.accepts datum = true) ∧
      (pattern.accepts datum = false → ∃ mismatch, pattern.mismatch? datum = some mismatch ∧
        mismatch.place <+: mismatch.message ∧
        Leads mismatch.path pattern datum mismatch.pattern mismatch.datum ∧
        mismatch.pattern.accepts mismatch.datum = false ∧
        Differs mismatch.pattern mismatch.datum) := by
  constructor
  · exact ⟨instance_of_accepts, Instance.accepts⟩
  have none : pattern.mismatch? datum = none ↔ pattern.accepts datum = true :=
    mismatchAt?_eq_none_iff
  cases found : pattern.mismatch? datum with
  | none =>
      have accepted := none.mp found
      exact ⟨⟨fun _ => accepted, fun _ => rfl⟩, fun refused => by simp [accepted] at refused⟩
  | some mismatch =>
      have refused : pattern.accepts datum ≠ true := by
        rw [ne_eq, ← none, found]
        simp
      rcases lies_of_mismatchAt? found with ⟨rest, path, leads, inner, differs⟩
      rw [List.nil_append] at path
      constructor
      · exact ⟨fun empty => absurd empty mismatch.message_ne_nil,
          fun accepted => absurd accepted refused⟩
      · exact fun _ => ⟨mismatch, rfl, mismatch.place_prefix_message, path ▸ leads, inner, differs⟩

end ExprLang.Datum
