import ExprLang.Proofs.Lowering.Derivation

/-!
# Names and variables

Names get variables in the order in which they are bound. So the names that were bound before
some place in a body tell which variable each of them stands for there.
-/

namespace ExprLang

namespace Expr

mutual

/-- The names that have been bound behind an expression, the newest first, if the given ones
were bound in front of it. -/
def scope (names : List String) : Expr α → List String
  | integer _ _ | boolean _ _ | ident _ _ | unknown _ _ _ => names
  | array _ elements => scopeAll names elements
  | binary _ _ left right => right.scope (left.scope names)
  | bind _ name value => name :: value.scope names
  | sequence _ first second => second.scope (first.scope names)
  | call _ _ arguments => scopeAll names arguments
  | conditional _ condition onTrue onFalse =>
    onFalse.scope (onTrue.scope (condition.scope names))
  | index _ target position => position.scope (target.scope names)
  | length _ target => target.scope names
  | each _ name bound body => body.scope (name :: bound.scope names)

def scopeAll (names : List String) : List (Expr α) → List String
  | [] => names
  | tree :: trees => scopeAll (tree.scope names) trees

end

end Expr

/-- The number of a name among those that are bound: the number of names that were bound before
its newest binding. -/
def cell? (name : String) : List String → Option Nat
  | [] => none
  | other :: names => if other = name then some names.length else cell? name names

theorem cell?_lt {name : String} {names : List String} {cell : Nat}
    (found : cell? name names = some cell) : cell < names.length := by
  induction names with
  | nil => cases found
  | cons other names induction =>
      rw [cell?] at found
      split at found
      · cases found
        simp
      · have below := induction found
        simp only [List.length_cons]
        omega

theorem cell?_isSome {name : String} {names : List String} (member : name ∈ names) :
    (cell? name names).isSome = true := by
  induction names with
  | nil => cases member
  | cons other names induction =>
      rw [cell?]
      split
      · rfl
      · rename_i different
        rcases List.mem_cons.mp member with same | later
        · exact absurd same.symm different
        · exact induction later

namespace Lowering

open Ssa

def numbered : List String → List (String × Variable)
  | [] => []
  | name :: names => (name, ⟨names.length⟩) :: numbered names

theorem lookup_numbered (name : String) (names : List String) :
    (numbered names).lookup name = (cell? name names).map Variable.mk := by
  induction names with
  | nil => rfl
  | cons other names induction =>
      rw [numbered, cell?, List.lookup_cons]
      by_cases same : other = name
      · subst same
        simp
      · have different : (name == other) = false := beq_eq_false_iff_ne.mpr fun equal =>
          same equal.symm
        simp [same, different, induction]

def Work.scope (names : List String) : Work → List String
  | .expression tree => tree.scope names
  | .expressions trees | .elements _ _ trees => Expr.scopeAll names trees

/-! ## The variables and functions that are known at a stage -/

/-- The names of a scope have their variables, and every function that can be called is one of
the module. -/
structure Tabled (setting : Setting) (names : List String) (stage : Stage) : Prop where
  bound : stage.bound = numbered names
  count : stage.variableCount = names.length
  declared : ∀ var : Variable, stage.recording.builder.declared.lookup var =
    if var.index < names.length then some .i64 else none
  imported : ∀ id reference, stage.recording.builder.imports.lookup id = some reference →
    ∃ declaration, setting.module.declaration? id = some declaration ∧
      stage.recording.builder.function.references[reference.index]? =
        some ⟨id, declaration.name, declaration.prototype⟩
  referred : ∀ name reference, stage.references.lookup name = some reference →
    ∃ id, setting.callable.lookup name = some id ∧
      stage.recording.builder.imports.lookup id = some reference

section Tables

variable {setting : Setting} {names : List String} {first last : Stage}

theorem Tabled.same (tabled : Tabled setting names first)
    (tables : SameTables first.recording last.recording)
    (same : last = { first with recording := last.recording }) : Tabled setting names last := by
  rw [same]
  constructor
  · exact tabled.bound
  · exact tabled.count
  · intro var
    rw [tables.declared]
    exact tabled.declared var
  · intro id reference found
    rw [tables.imports] at found
    rw [tables.references]
    exact tabled.imported id reference found
  · intro name reference found
    obtain ⟨id, callable, imported⟩ := tabled.referred name reference found
    refine ⟨id, callable, ?_⟩
    rw [tables.imports]
    exact imported

theorem Does.tabled {deeds : List Deed} (does : Does deeds first last)
    (plain : deeds.all Deed.isLocal = true) (tabled : Tabled setting names first) :
    Tabled setting names last :=
  tabled.same (sameTables_of_performsAll does.performs plain) does.same

theorem Binds.tabled {name : String} {value : Value} (binds : Binds name value first last)
    (tabled : Tabled setting names first) : Tabled setting (name :: names) last := by
  obtain ⟨_ | ⟨declares, others⟩, same⟩ := binds
  have tables := sameTables_of_performsAll others rfl
  obtain _ | _ | _ | ⟨_, _, unknown⟩ := declares
  rw [same]
  constructor
  · simp [tabled.bound, tabled.count, numbered]
  · simp [tabled.count]
  · intro var
    rw [tables.declared]
    simp only [Recording.declare, List.lookup_append, tabled.declared, tabled.count,
      List.length_cons]
    by_cases below : var.index < names.length
    · simp [below, Nat.lt_succ_of_lt below]
    · by_cases new : var = ⟨names.length⟩
      · subst new
        simp [List.lookup]
      · have outside : ¬ var.index < names.length + 1 := by
          intro inside
          refine new ?_
          cases var
          simp only [Variable.mk.injEq] at below inside ⊢
          omega
        have different : (var == ⟨names.length⟩) = false := beq_eq_false_iff_ne.mpr new
        simp [below, outside, List.lookup_cons, different]
  · intro id reference found
    rw [tables.imports] at found
    rw [tables.references]
    exact tabled.imported id reference found
  · intro name reference found
    obtain ⟨id, callable, imported⟩ := tabled.referred name reference found
    refine ⟨id, callable, ?_⟩
    rw [tables.imports]
    exact imported

theorem Refers.tabled {name : String} {reference : Reference}
    (refers : Refers setting name first reference last) (tabled : Tabled setting names first) :
    Tabled setting names last := by
  cases refers with
  | known found => exact tabled
  | @again _ id fresh callable found =>
      refine ⟨tabled.bound, tabled.count, tabled.declared, tabled.imported, ?_⟩
      intro other target known
      rw [List.lookup_cons] at known
      split at known
      · rename_i same
        cases known
        rw [eq_of_beq same]
        exact ⟨id, callable, found⟩
      · exact tabled.referred other target known
  | @new id declaration fresh callable unknown declared =>
      refine ⟨tabled.bound, tabled.count, tabled.declared, ?_, ?_⟩
      · intro other target known
        simp only [Recording.refer, List.lookup_cons] at known ⊢
        split at known
        · rename_i same
          cases known
          rw [eq_of_beq same]
          exact ⟨declaration, declared, by simp⟩
        · obtain ⟨old, found, placed⟩ := tabled.imported other target known
          have inside := (Array.getElem?_eq_some_iff.mp placed).1
          refine ⟨old, found, ?_⟩
          rw [Array.getElem?_push_lt inside, ← Array.getElem?_eq_getElem inside]
          exact placed
      · intro other target known
        simp only [Recording.refer]
        rw [List.lookup_cons] at known
        split at known
        · rename_i same
          cases known
          rw [eq_of_beq same]
          exact ⟨id, callable, by simp⟩
        · obtain ⟨old, callable, imported⟩ := tabled.referred other target known
          refine ⟨old, callable, ?_⟩
          have different : (old == id) = false := by
            refine beq_eq_false_iff_ne.mpr fun equal => ?_
            rw [equal, unknown] at imported
            cases imported
          rw [List.lookup_cons, different]
          exact imported

/-- The function that a reference stands for. -/
theorem Refers.external {name : String} {reference : Reference}
    (refers : Refers setting name first reference last) (tabled : Tabled setting names first) :
    ∃ id declaration, setting.callable.lookup name = some id ∧
      setting.module.declaration? id = some declaration ∧
      last.recording.builder.function.references[reference.index]? =
        some ⟨id, declaration.name, declaration.prototype⟩ := by
  have listed : last.references.lookup name = some reference := by
    cases refers with
    | known found => exact found
    | again | new => simp
  obtain ⟨id, callable, imported⟩ := (refers.tabled tabled).referred name reference listed
  obtain ⟨declaration, found, placed⟩ := (refers.tabled tabled).imported id reference imported
  exact ⟨id, declaration, callable, found, placed⟩

theorem Forks.tabled {test result : Value} (forks : Forks test first result last)
    (tabled : Tabled setting names first) : Tabled setting names last := by
  obtain ⟨creates, merges, branches⟩ := forks
  exact branches.tabled rfl (merges.tabled rfl (creates.tabled rfl tabled))

theorem Enters.tabled {limit round one : Value} (enters : Enters limit first round one last)
    (tabled : Tabled setting names first) : Tabled setting names last := by
  obtain ⟨creates, counts, rounds, starts, jumps, compares, branches⟩ := enters
  exact branches.tabled rfl (compares.tabled rfl (jumps.tabled rfl (starts.tabled rfl
    (rounds.tabled rfl (counts.tabled rfl (creates.tabled rfl tabled))))))

theorem Lowers.tabled {work : Work} {values : List Value}
    (lowers : Lowers setting work first values last) :
    ∀ {names}, Tabled setting names first → Tabled setting (work.scope names) last := by
  induction lowers with
  | integer emits | boolean emits => exact emits.tabled rfl
  | ident _ uses => exact uses.tabled rfl
  | comparison _ _ compares widens left right =>
      intro names tabled
      exact widens.tabled rfl (compares.tabled rfl (right (left tabled)))
  | arithmetic _ _ emits left right =>
      intro names tabled
      exact emits.tabled rfl (right (left tabled))
  | bind _ binds inner =>
      intro names tabled
      exact binds.tabled (inner tabled)
  | sequence _ _ left right =>
      intro names tabled
      exact right (left tabled)
  | call refers _ emits arguments =>
      intro names tabled
      exact emits.tabled rfl (arguments (refers.tabled tabled))
  | conditional _ forks _ turns _ joins test left right =>
      intro names tabled
      exact joins.tabled rfl (right (turns.tabled rfl (left (forks.tabled (test tabled)))))
  | each _ enters binds _ advances leaves emits bound body =>
      intro names tabled
      have filled := body (binds.tabled (enters.tabled (bound tabled)))
      exact emits.tabled rfl (leaves.tabled rfl (advances.tabled rfl filled))
  | array reserves counts starts _ locates elements =>
      intro names tabled
      have started := starts.tabled rfl (counts.tabled rfl (reserves.tabled rfl tabled))
      exact locates.tabled rfl (elements started)
  | index _ _ ones words places scales locates loads target position =>
      intro names tabled
      have ready := position (target tabled)
      have placed := places.tabled rfl (words.tabled rfl (ones.tabled rfl ready))
      exact loads.tabled rfl (locates.tabled rfl (scales.tabled rfl placed))
  | length _ loads target =>
      intro names tabled
      exact loads.tabled rfl (target tabled)
  | nil | stop =>
      intro names tabled
      exact tabled
  | cons _ _ head tail =>
      intro names tabled
      exact tail (head tabled)
  | store _ stores _ head tail =>
      intro names tabled
      exact tail (stores.tabled rfl (head tabled))

end Tables

end Lowering

end ExprLang
