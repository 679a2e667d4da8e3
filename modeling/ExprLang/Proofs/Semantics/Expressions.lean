import ExprLang.Proofs.Semantics.Control

/-!
# Lowered expressions do what their evaluation says
-/

namespace ExprLang

open Ssa

theorem Arithmetic.compute_eq (operation : Arithmetic) {function : Function}
    {slots registers : Array Int64} {memory : Memory} {left right : Value} {first second : Int64}
    (onLeft : registers[left.index]? = some first)
    (onRight : registers[right.index]? = some second) :
    Machine.compute function slots registers memory (.arithmetic operation left right) =
      some (operation.apply first second) := by
  simp only [Machine.compute, onLeft, onRight, Option.bind_eq_bind, Option.bind_some]
  cases operation with
  | divide =>
      simp only [Arithmetic.apply]
      split <;> rfl
  | _ => rfl

theorem Comparison.condition_holds (relation : Comparison) (first second : Int64) :
    (Lowering.condition relation).holds first second = relation.holds first second := by
  cases relation <;> rfl

theorem Lowering.truthWord_eq (truth : Bool) :
    -((if truth then 1 else 0) &&& 1) = Lowering.truthWord truth := by
  cases truth <;> decide

namespace Lowering

/-! ## Where code is -/

/-- The given names were bound in front of a stage, which comes behind the given number of array
literals. -/
structure Placed (setting : Setting) (names : List String) (literals : Nat) (stage : Stage) :
    Prop where
  tabled : Tabled setting names stage
  counted : stage.slots.length = literals

section Places

variable {setting : Setting} {names : List String} {literals : Nat} {first last : Stage}

theorem Plots.placed {counts : List Nat} {uses : List SlotUse} {others : List String}
    (plots : Plots counts uses first last) (tabled : Tabled setting others last)
    (placed : Placed setting names literals first) :
    Placed setting others (literals + counts.length) last :=
  ⟨tabled, by rw [plots.length, placed.counted]⟩

theorem Does.placed {deeds : List Deed} (does : Does deeds first last)
    (placed : Placed setting names literals first) (plain : deeds.all Deed.isLocal = true)
    (unreserved : deeds.flatMap Deed.reserved = []) (unused : deeds.flatMap Deed.slotUses = []) :
    Placed setting names literals last :=
  (does.plots unreserved unused).placed (does.tabled plain placed.tabled) placed

theorem Binds.placed {name : String} {value : Value} (binds : Binds name value first last)
    (placed : Placed setting names literals first) :
    Placed setting (name :: names) literals last :=
  binds.plots.placed (binds.tabled placed.tabled) placed

theorem Refers.placed {name : String} {reference : Reference}
    (refers : Refers setting name first reference last)
    (placed : Placed setting names literals first) : Placed setting names literals last :=
  refers.plots.placed (refers.tabled placed.tabled) placed

theorem Forks.placed {test result : Value} (forks : Forks test first result last)
    (placed : Placed setting names literals first) : Placed setting names literals last :=
  forks.plots.placed (forks.tabled placed.tabled) placed

theorem Enters.placed {limit round one : Value} (enters : Enters limit first round one last)
    (placed : Placed setting names literals first) : Placed setting names literals last :=
  enters.plots.placed (enters.tabled placed.tabled) placed

theorem Lowers.placed {work : Work} {values : List Value}
    (lowers : Lowers setting work first values last)
    (placed : Placed setting names literals first) :
    Placed setting (work.scope names) (literals + work.literals.length) last :=
  lowers.plots.placed (lowers.tabled placed.tabled) placed

end Places

/-! ## What code does -/

/-- The code of what is lowered does what its evaluation says, if the given names were bound in
front of it and it comes behind the given number of array literals. -/
def Work.Simulated (site : Site σ) (names : List String) (literals : Nat) (first last : Stage)
    (values : List Value) : Work → Prop
  | .expression tree => Simulates site first last [] [] values (fun word => [word])
      (tree.evaluate site.activation names literals)
  | .expressions trees => Simulates site first last [] [] values (fun words => words)
      (Expr.evaluateAll site.activation names literals trees)
  | .elements slot index trees => ∀ address, site.activation.slots[slot.index]? = some address →
      Simulates site first last [] [] values (fun _ => [])
        (Expr.evaluateElements site.activation names literals address index trees)

section Pieces

variable {site : Site σ} {first middle compared last : Stage} {known : List Value}
  {facts : List Int64} {left right : Value} {one two : Int64}

theorem Does.comparesWords (proper : site.Proper) (relation : Comparison)
    (compares : Does [.emit (.compare (condition relation) left right) [.i1]] middle compared)
    (widens : Does [.emit (.signExtend .i64 middle.next) [.i64]] compared last) :
    Simulates site middle last [left, right] [one, two] [compared.next] (fun word => [word])
      (pure (truthWord (relation.holds one two))) := by
  have narrow : Simulates site middle compared [left, right] [one, two] [middle.next]
      (fun word => [word]) (pure (if relation.holds one two then 1 else 0)) := by
    refine compares.gives proper rfl fun machine shows _ _ => ?_
    simp only [Machine.compute, shows.holds 0 rfl rfl, shows.holds 1 rfl rfl,
      Option.bind_eq_bind, Option.bind_some, Comparison.condition_holds]
  rw [← truthWord_eq]
  refine narrow.followed ?_
  refine widens.gives proper rfl fun machine shows _ idiomatic => ?_
  obtain ⟨types, typed, _⟩ := idiomatic
  cases typed with
  | signExtend narrow =>
      simp only [Machine.compute, shows.holds 2 rfl rfl, narrow, Option.bind_eq_bind,
        Option.bind_some, if_true]

/-- The element of an array is loaded. -/
theorem Does.loadsElement (proper : site.Proper) {ready unit word placed scaled located : Stage}
    (ones : Does [.emit (.constant .i64 1) [.i64]] ready unit)
    (words : Does [.emit (.constant .i64 (Int64.ofNat wordSize)) [.i64]] unit word)
    (places : Does [.emit (.arithmetic .add right ready.next) [.i64]] word placed)
    (scales : Does [.emit (.arithmetic .multiply word.next unit.next) [.i64]] placed scaled)
    (locates : Does [.emit (.arithmetic .add left placed.next) [.i64]] scaled located)
    (loads : Does [.emit (.load .i64 scaled.next (wordOffset 0)) [.i64]] located last) :
    Simulates site ready last [left, right] [one, two] [located.next] (fun word => [word])
      (site.activation.load (one + (two + 1) * Int64.ofNat wordSize)) := by
  refine (ones.gives proper rfl fun _ _ _ _ => rfl).followed ?_
  refine (words.gives proper rfl fun _ _ _ _ => rfl).followed ?_
  refine Simulates.followed (places.attempts proper rfl fun machine shows _ _ =>
    Arithmetic.compute_eq _ (shows.holds 1 rfl rfl) (shows.holds 2 rfl rfl)) ?_
  refine Simulates.followed (scales.attempts proper rfl fun machine shows _ _ =>
    Arithmetic.compute_eq _ (shows.holds 4 rfl rfl) (shows.holds 3 rfl rfl)) ?_
  refine Simulates.followed (locates.attempts proper rfl fun machine shows _ _ =>
    Arithmetic.compute_eq _ (shows.holds 0 rfl rfl) (shows.holds 5 rfl rfl)) ?_
  exact loads.loadsWord proper 6 rfl rfl

/-- A round of a loop, with the next number. -/
theorem Binds.trips (proper : site.Proper) {name : String} {round unit value : Value}
    {opened inside filled advanced : Stage} (binds : Binds name round opened inside)
    {body : Evaluation σ Int64}
    (done : Simulates site inside filled [] [] [value] (fun word => [word]) body)
    (advances : Does [.emit (.arithmetic .add round unit) [.i64]] filled advanced)
    (count : Int64) :
    Simulates site opened advanced [round, unit] [count, 1] [filled.next] (fun word => [word])
      ((do
        Evaluation.write opened.variableCount count
        let _ ← body
        pure ()) >>= fun _ => pure (count + 1)) := by
  have round : Simulates site opened filled [round, unit] [count, 1] [] (fun _ => [])
      (do
        Evaluation.write opened.variableCount count
        let _ ← body
        pure ()) := by
    refine Simulates.bind (binds.writes 0 rfl rfl) fun _ => ?_
    refine done.weaken.bind fun word => ?_
    exact .pure fun _ _ => .nil
  refine round.bind fun _ => ?_
  exact advances.attempts proper rfl fun machine shows _ _ =>
    Arithmetic.compute_eq _ (shows.holds 0 rfl rfl) (shows.holds 1 rfl rfl)

end Pieces

/-- Whatever is lowered does what its evaluation says. -/
theorem Lowers.simulates {site : Site σ} {setting : Setting} (proper : site.Proper)
    (calls : ∀ name id, setting.callable.lookup name = some id →
      CallsAs site.environment site.activation.rounds site.patient site.depth id
        (site.activation.call name))
    {work : Work} {values : List Value} {first last : Stage}
    (lowers : Lowers setting work first values last) :
    ∀ {names : List String} {literals : Nat}, Placed setting names literals first →
      work.Simulated site names literals first last values := by
  induction lowers with
  | integer emits =>
      intro names literals placed
      rw [Work.Simulated, Expr.evaluate]
      exact emits.gives proper rfl fun _ _ _ _ => rfl
  | boolean emits =>
      intro names literals placed
      rw [Work.Simulated, Expr.evaluate]
      exact emits.gives proper rfl fun _ _ _ _ => rfl
  | ident bound uses =>
      intro names literals placed
      rw [Work.Simulated, Expr.evaluate]
      rw [placed.tabled.bound, lookup_numbered, Option.map_eq_some_iff] at bound
      obtain ⟨cell, found, rfl⟩ := bound
      rw [found]
      exact uses.reads proper placed.tabled
  | comparison onLeft onRight compares widens leftDone rightDone =>
      intro names literals placed
      rw [Work.Simulated, Expr.evaluate]
      refine (leftDone placed).bind fun one => ?_
      refine (rightDone (onLeft.placed placed)).weaken.bind fun two => ?_
      exact Does.comparesWords proper _ compares widens
  | arithmetic onLeft onRight emits leftDone rightDone =>
      intro names literals placed
      rw [Work.Simulated, Expr.evaluate]
      refine (leftDone placed).bind fun one => ?_
      refine (rightDone (onLeft.placed placed)).weaken.bind fun two => ?_
      exact emits.attempts proper rfl fun machine shows _ _ =>
        Arithmetic.compute_eq _ (shows.holds 0 rfl rfl) (shows.holds 1 rfl rfl)
  | bind inner binds done =>
      intro names literals placed
      rw [Work.Simulated, Expr.evaluate]
      refine (done placed).bind fun word => ?_
      have count := (inner.placed placed).tabled.count
      rw [Work.scope] at count
      rw [← count]
      refine Simulates.bind (binds.writes 0 rfl rfl) fun _ => ?_
      exact .pure fun _ shows => shows
  | sequence onLeft onRight leftDone rightDone =>
      intro names literals placed
      rw [Work.Simulated, Expr.evaluate]
      exact (leftDone placed).bind fun _ => (rightDone (onLeft.placed placed)).weaken
  | call refers onArguments emits done =>
      intro names literals placed
      rw [Work.Simulated, Expr.evaluate]
      have named := refers.placed placed
      obtain ⟨id, declaration, callable, _, found⟩ := refers.external placed.tabled
      have found := (Moves.grows onArguments.reaches.moves).reference _ _ found
      refine .behind refers.reaches refers.shape ((done named).bind fun words => ?_)
      exact emits.calls proper found (calls _ _ callable) fun _ shows => shows
  | conditional onTest forks leftArm turns rightArm joins testDone leftDone rightDone =>
      intro names literals placed
      rw [Work.Simulated, Expr.evaluate]
      have opened := forks.placed (onTest.placed placed)
      have turned := turns.placed (leftArm.placed opened) rfl rfl rfl
      refine (testDone placed).bind fun word => ?_
      exact forks.simulates proper (leftDone opened) turns (rightDone turned) joins
        0 rfl rfl
  | each onBound enters binds inLoop advances leaves emits boundDone bodyDone =>
      intro names literals placed
      rw [Work.Simulated, Expr.evaluate]
      have opened := enters.placed (onBound.placed placed)
      have count := opened.tabled.count
      refine (boundDone placed).bind fun bound => ?_
      rw [Work.scope] at count
      simp only [← count]
      refine Simulates.bind (enters.simulates proper binds inLoop.fills advances leaves
        (binds.trips proper (bodyDone (binds.placed opened)) advances) 0 rfl rfl) fun _ => ?_
      exact emits.gives proper rfl fun _ _ _ _ => rfl
  | @array note trees first _ _ _ _ _ reserves counts starts stores locates done =>
      intro names literals placed
      rw [Work.Simulated, Expr.evaluate, ← placed.counted]
      have whole : Lowers setting (.expression (.array note trees)) first _ _ :=
        .array reserves counts starts stores locates
      have behind := counts.reaches.trans (starts.reaches.trans
        (stores.reaches.trans locates.reaches))
      refine reserves.seats proper behind whole.fills fun address seat => ?_
      have reserved := reserves.plots_reserve.placed (reserves.tabled rfl placed.tabled) placed
      have counted := counts.placed reserved rfl rfl rfl
      have started := starts.plots_store.placed (starts.tabled rfl counted.tabled) counted
      rw [placed.counted]
      refine .behind reserves.reaches reserves.reserve_shape ?_
      refine (counts.gives proper rfl fun _ _ _ _ => rfl).followed ?_
      refine Simulates.bind (starts.puts proper seat 0 rfl rfl) fun _ => ?_
      refine (done started address seat).weaken.bind fun _ => ?_
      refine locates.gives proper rfl fun machine _ slots _ => ?_
      have none : address + wordOffset 0 = address := Int64.add_zero address
      have found : machine.frame.slots[first.nextSlot.index]? = some address := by
        rw [slots, List.getElem?_toArray]
        exact seat
      simp only [Machine.compute, found, none, Option.bind_eq_bind, Option.bind_some]
  | index onTarget onPosition ones words places scales locates loads targetDone positionDone =>
      intro names literals placed
      rw [Work.Simulated, Expr.evaluate]
      refine (targetDone placed).bind fun start => ?_
      refine (positionDone (onTarget.placed placed)).weaken.bind fun place => ?_
      exact Does.loadsElement proper ones words places scales locates loads
  | length onTarget loads done =>
      intro names literals placed
      rw [Work.Simulated, Expr.evaluate]
      exact (done placed).bind fun start => loads.loadsWord proper 0 rfl rfl
  | nil =>
      intro names literals placed
      rw [Work.Simulated, Expr.evaluateAll]
      exact .pure fun _ shows => shows
  | cons onHead onTail headDone tailDone =>
      intro names literals placed
      rw [Work.Simulated, Expr.evaluateAll]
      refine (headDone placed).bind fun word => ?_
      refine (tailDone (onHead.placed placed)).weaken.bind fun words => ?_
      exact .pure fun _ shows => shows
  | stop =>
      intro names literals placed address seat
      rw [Expr.evaluateElements]
      exact .pure fun _ shows => shows
  | store onHead stores onTail headDone tailDone =>
      intro names literals placed address seat
      rw [Expr.evaluateElements]
      have behind := onHead.placed placed
      have stored := stores.plots_store.placed (stores.tabled rfl behind.tabled) behind
      refine (headDone placed).bind fun word => ?_
      refine Simulates.bind (stores.puts proper seat 0 rfl rfl) fun _ => ?_
      exact (tailDone stored address seat).weaken

end Lowering

end ExprLang
