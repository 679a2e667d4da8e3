import ExprLang.Proofs.Ssa.Trail
import ExprLang.Proofs.Ssa.Verification
import ExprLang.Ssa.Order

/-!
# Reverse postorder

The depth-first search comes to every block that a route from the entry leads to, exactly once, and
in reverse postorder every such block stands behind all blocks of some route that leads to it. Main
statement: the reverse postorder of a function that the verifier accepts is its layout put into an
order that starts with the entry, in which whatever routes lead to comes first, and behind all
blocks that every route to it has to pass.
-/

namespace ExprLang.Ssa

namespace Function

/-! ## Routes -/

/-- The blocks on the way from the entry along blocks that are named, the last one first. Where
blocks name only what they follow, routes are trails. -/
inductive Route (function : Function) : List Label → Prop
  | entry (label : Label) : function.entry? = some label → Route function [label]
  | next (label target : Label) (earlier : List Label) : Route function (label :: earlier) →
      target ∈ function.named label → Route function (target :: label :: earlier)

/-- Some route leads to a block. -/
def Connected (function : Function) (label : Label) : Prop :=
  ∃ earlier, function.Route (label :: earlier)

/-- A block stands on every route to another one, which it strictly dominates. -/
def Guards (function : Function) (first second : Label) : Prop :=
  first ≠ second ∧ ∀ earlier, function.Route (second :: earlier) → first ∈ second :: earlier

def successors (function : Function) (label : Label) : List Label :=
  (function.block label).successors

theorem successors_subset (function : Function) (label : Label) :
    function.successors label ⊆ function.named label := by
  rw [successors, Block.successors, named]
  cases (function.block label).instructions.getLast? with
  | none => exact List.Subset.refl _
  | some last => exact List.map_subset _ (List.subset_append_left _ _)

theorem Trail.route {function : Function} {trail : List Label} (holds : function.Trail trail) :
    function.Route trail := by
  induction holds with
  | entry label first => exact .entry label first
  | next label target earlier _ leads induction =>
      exact .next label target earlier induction (function.successors_subset label leads)

theorem Route.trail {function : Function}
    (follows : ∀ label, function.named label = function.successors label) {route : List Label}
    (holds : function.Route route) : function.Trail route := by
  induction holds with
  | entry label first => exact .entry label first
  | next label target earlier _ leads induction =>
      rw [follows] at leads
      exact .next label target earlier induction leads

theorem Verified.placed {function : Function} {entry label : Label}
    (verified : function.Verified entry) (connected : function.Connected label) :
    label ∈ function.layout := by
  obtain ⟨earlier, route⟩ := connected
  generalize path : label :: earlier = whole at route
  induction route generalizing label earlier with
  | entry other same =>
      cases path
      exact List.mem_of_mem_head? same
  | next source target before shorter leads induction =>
      cases path
      have formed := verified.blocks source (induction before rfl)
      rw [named] at leads
      split at leads
      · rename_i last found
        obtain ⟨destination, inside, rfl⟩ := List.mem_map.mp leads
        exact (formed.leads last (List.mem_of_getLast? found) destination inside).placed
      · cases leads

/-! ## Depth-first search -/

def unvisited (function : Function) (visited : List Label) : Nat :=
  ((Finset.range function.blocks.size).filter fun index => ⟨index⟩ ∉ visited).card

theorem unvisited_mono (function : Function) {visited more : List Label}
    (subset : visited ⊆ more) : function.unvisited more ≤ function.unvisited visited := by
  refine Finset.card_le_card fun index member => ?_
  rw [Finset.mem_filter] at member ⊢
  exact ⟨member.1, fun inside => member.2 (subset inside)⟩

theorem unvisited_cons_lt {function : Function} {visited : List Label} {label : Label}
    (inside : label.index < function.blocks.size) (fresh : label ∉ visited) :
    function.unvisited (label :: visited) < function.unvisited visited := by
  refine Finset.card_lt_card ⟨fun index member => ?_, fun subset => ?_⟩
  · rw [Finset.mem_filter] at member ⊢
    exact ⟨member.1, fun old => member.2 (List.mem_cons_of_mem _ old)⟩
  · have member := subset (Finset.mem_filter.mpr ⟨Finset.mem_range.mpr inside, fresh⟩)
    exact (Finset.mem_filter.mp member).2 List.mem_cons_self

theorem unvisited_le (function : Function) (visited : List Label) :
    function.unvisited visited ≤ function.blocks.size :=
  (Finset.card_filter_le _ _).trans (Finset.card_range _).le

theorem named_of_le {function : Function} {label : Label}
    (outside : function.blocks.size ≤ label.index) : function.named label = [] := by
  simp [named, block, block?, outside, Block.empty]

end Function

/-- Some blocks are finished by a part of a search that goes on behind a path. Each of them is
the end of a route through blocks that are finished later and blocks of the path. -/
structure Search.Finishes (function : Function) (path new : List Label) (first last : Search) :
    Prop where
  finished : last.finished = new ++ first.finished
  visited : ∀ label, label ∈ last.visited ↔ label ∈ first.visited ∨ label ∈ new
  fresh : ∀ label ∈ new, label ∉ first.visited
  nodup : new.Nodup
  closed : ∀ label ∈ new, ∀ next ∈ function.named label, next ∈ last.visited
  routes : ∀ before label behind, new = before ++ label :: behind →
    ∃ earlier, function.Route (label :: earlier) ∧
      ∀ passed ∈ earlier, passed ∈ before ∨ passed ∈ path

namespace Search.Finishes

variable {function : Function} {path new more : List Label} {first middle last : Search}

theorem refl (function : Function) (path : List Label) (progress : Search) :
    Finishes function path [] progress progress :=
  ⟨rfl, by simp, by simp, List.nodup_nil, by simp, by simp⟩

theorem subset (finishes : Finishes function path new first last) :
    first.visited ⊆ last.visited :=
  fun label member => (finishes.visited label).mpr (.inl member)

theorem trans (left : Finishes function path new first middle)
    (right : Finishes function path more middle last) :
    Finishes function path (more ++ new) first last where
  finished := by rw [right.finished, left.finished, List.append_assoc]
  visited label := by
    rw [right.visited, left.visited, List.mem_append, or_assoc]
    exact or_congr_right or_comm
  fresh label member := by
    rcases List.mem_append.mp member with late | early
    · exact fun old => right.fresh label late (left.subset old)
    · exact left.fresh label early
  nodup := by
    refine List.nodup_append.mpr ⟨right.nodup, left.nodup, fun label late other early same => ?_⟩
    subst same
    exact right.fresh label late ((left.visited label).mpr (.inr early))
  closed label member next inside := by
    rcases List.mem_append.mp member with late | early
    · exact right.closed label late next inside
    · exact right.subset (left.closed label early next inside)
  routes before label behind split := by
    rcases List.append_eq_append_iff.mp split with ⟨front, rfl, rest⟩ | ⟨back, rfl, rest⟩
    · obtain ⟨earlier, route, passed⟩ := left.routes front label behind rest
      refine ⟨earlier, route, fun other member => ?_⟩
      exact (passed other member).imp_left (List.mem_append_right _)
    · cases back with
      | nil =>
          obtain ⟨earlier, route, passed⟩ := left.routes [] label behind rest.symm
          refine ⟨earlier, route, fun other member => ?_⟩
          exact (passed other member).imp_left fun none => by cases none
      | cons head back =>
          obtain ⟨rfl, _⟩ := List.cons.inj rest
          exact right.routes before label back rfl

/-- A block is finished after everything behind it. -/
theorem close {label : Label} {visited finished : List Label} (fresh : label ∉ visited)
    (route : function.Route (label :: path))
    (inner : Finishes function (label :: path) new ⟨label :: visited, finished⟩ last)
    (whole : ∀ next ∈ function.named label, next ∈ last.visited) :
    Finishes function path (label :: new) ⟨visited, finished⟩
      { last with finished := label :: last.finished } where
  finished := congrArg (label :: ·) inner.finished
  visited other := by
    rw [inner.visited, List.mem_cons, List.mem_cons, or_assoc, or_left_comm]
  fresh other member := by
    rcases List.mem_cons.mp member with rfl | inside
    · exact fresh
    · exact fun old => inner.fresh other inside (List.mem_cons_of_mem _ old)
  nodup := List.nodup_cons.mpr
    ⟨fun member => inner.fresh label member List.mem_cons_self, inner.nodup⟩
  closed other member := by
    rcases List.mem_cons.mp member with rfl | inside
    · exact whole
    · exact inner.closed other inside
  routes before other behind split := by
    cases before with
    | nil =>
        obtain ⟨rfl, _⟩ := List.cons.inj split
        exact ⟨path, route, fun _ member => .inr member⟩
    | cons head before =>
        obtain ⟨rfl, rest⟩ := List.cons.inj split
        obtain ⟨earlier, route, passed⟩ := inner.routes before other behind rest
        refine ⟨earlier, route, fun block member => ?_⟩
        rcases passed block member with inside | inside
        · exact .inl (List.mem_cons_of_mem _ inside)
        · rcases List.mem_cons.mp inside with rfl | outside
          · exact .inl List.mem_cons_self
          · exact .inr outside

end Search.Finishes

namespace Function

variable {function : Function}

/-- A search with enough fuel finishes the block where it starts and everything behind it that
was not met before. -/
theorem search_finishes {fuel : Nat} {label : Label} {path : List Label} {progress : Search}
    (enough : function.unvisited progress.visited < fuel) (fresh : label ∉ progress.visited)
    (route : function.Route (label :: path)) :
    ∃ new, Search.Finishes function path new progress (function.search fuel label progress) ∧
      label ∈ new := by
  induction fuel generalizing label path progress with
  | zero => exact absurd enough (Nat.not_lt_zero _)
  | succ fuel induction =>
      -- The successors are searched one after the other, with one block less to be met.
      have each : ∀ nexts : List Label, nexts ⊆ function.named label →
          ∀ middle : Search, label :: progress.visited ⊆ middle.visited →
          ∃ new, Search.Finishes function (label :: path) new middle
              (nexts.foldl (fun progress next =>
                if next ∈ progress.visited then progress
                else function.search fuel next progress) middle) ∧
            ∀ next ∈ nexts, next ∈ (nexts.foldl (fun progress next =>
                if next ∈ progress.visited then progress
                else function.search fuel next progress) middle).visited := by
        intro nexts
        induction nexts with
        | nil =>
            intro _ middle _
            exact ⟨[], .refl _ _ _, by simp⟩
        | cons next nexts others =>
            intro inside middle known
            rw [List.cons_subset] at inside
            obtain ⟨first, finishes, member⟩ : ∃ new, Search.Finishes function (label :: path) new
                middle (if next ∈ middle.visited then middle
                  else function.search fuel next middle) ∧
                next ∈ (if next ∈ middle.visited then middle
                  else function.search fuel next middle).visited := by
              split
              · exact ⟨[], .refl _ _ _, by assumption⟩
              · rename_i unknown
                have bounded : label.index < function.blocks.size := by
                  by_contra outside
                  rw [named_of_le (Nat.not_lt.mp outside)] at inside
                  exact List.not_mem_nil inside.1
                have fewer := (function.unvisited_mono known).trans_lt
                  (unvisited_cons_lt bounded fresh)
                obtain ⟨new, finishes, member⟩ := induction (fewer.trans_le
                  (Nat.le_of_lt_succ enough)) unknown (.next _ _ _ route inside.1)
                exact ⟨new, finishes, (finishes.visited next).mpr (.inr member)⟩
            obtain ⟨more, rest, met⟩ := others inside.2 _
              (List.Subset.trans known finishes.subset)
            refine ⟨more ++ first, finishes.trans rest, fun other listed => ?_⟩
            rcases List.mem_cons.mp listed with rfl | later
            · exact rest.subset member
            · exact met other later
      obtain ⟨new, finishes, met⟩ := each (function.named label).reverse
        (fun next member => List.mem_reverse.mp member)
        { progress with visited := label :: progress.visited } (List.Subset.refl _)
      exact ⟨label :: new, finishes.close fresh route fun next member =>
        met next (List.mem_reverse.mpr member), List.mem_cons_self⟩

/-- The search finds the blocks that routes lead to, in an order in which each of them is the end of
a route through blocks that come before it. All other blocks keep their order. -/
theorem reversePostorder_parts {entry : Label} (first : function.entry? = some entry) :
    ∃ found, function.reversePostorder =
        found ++ function.layout.filter (fun label => label ∉ found) ∧
      found.Nodup ∧ (∀ label, label ∈ found ↔ function.Connected label) ∧
      ∀ before label behind, found = before ++ label :: behind →
        ∃ earlier, function.Route (label :: earlier) ∧ earlier ⊆ before := by
  obtain ⟨found, finishes, member⟩ := @search_finishes function _ entry [] ⟨[], []⟩
    (Nat.lt_succ_of_le (function.unvisited_le _)) (fun none => by cases none) (.entry entry first)
  have visited : ∀ label, label ∈ (function.search (function.blocks.size + 1) entry
      ⟨[], []⟩).visited ↔ label ∈ found := by
    intro label
    rw [finishes.visited]
    simp
  have met : ∀ label earlier, function.Route (label :: earlier) → label ∈ found := by
    intro label earlier route
    generalize path : label :: earlier = whole at route
    induction route generalizing label earlier with
    | entry other same =>
        cases path
        cases same.symm.trans first
        exact member
    | next source target before shorter leads induction =>
        cases path
        have left := induction source before rfl
        exact (visited target).mp (finishes.closed source left target leads)
  refine ⟨found, ?_, finishes.nodup, fun label => ⟨fun inside => ?_, fun ⟨earlier, route⟩ =>
    met label earlier route⟩, fun before label behind split => ?_⟩
  · rw [reversePostorder, first]
    simp only [finishes.finished, List.append_nil, visited]
  · obtain ⟨before, behind, split⟩ := List.append_of_mem inside
    obtain ⟨earlier, route, _⟩ := finishes.routes before label behind split
    exact ⟨earlier, route⟩
  · obtain ⟨earlier, route, passed⟩ := finishes.routes before label behind split
    exact ⟨earlier, route, fun other inside => by simpa using passed other inside⟩

/-- The blocks of a function whose layout can be reached, and whose blocks name only what they
follow, stand in an order in which each block is the end of a trail through blocks that come before
it. -/
theorem reversePostorder_spec {entry : Label} (first : function.entry? = some entry)
    (follows : ∀ label, function.named label = function.successors label)
    (reachable : ∀ label ∈ function.layout, function.Reachable label) :
    function.reversePostorder.Nodup ∧
      (∀ label, label ∈ function.reversePostorder ↔ function.Reachable label) ∧
      ∀ before label behind, function.reversePostorder = before ++ label :: behind →
        ∃ earlier, function.Trail (label :: earlier) ∧ earlier ⊆ before := by
  obtain ⟨found, whole, nodup, connected, routes⟩ := reversePostorder_parts first
  have none : function.layout.filter (fun label => label ∉ found) = [] := by
    rw [List.filter_eq_nil_iff]
    intro label listed
    obtain ⟨earlier, trail⟩ := reachable label listed
    simpa using (connected label).mpr ⟨earlier, trail.route⟩
  rw [whole, none, List.append_nil]
  refine ⟨nodup, fun label => (connected label).trans ⟨?_, ?_⟩, fun before label behind split => ?_⟩
  · rintro ⟨earlier, route⟩
    exact ⟨earlier, route.trail follows⟩
  · rintro ⟨earlier, trail⟩
    exact ⟨earlier, trail.route⟩
  · obtain ⟨earlier, route, passed⟩ := routes before label behind split
    exact ⟨earlier, route.trail follows, passed⟩

/-- The reverse postorder of a function that the verifier accepts, and whose layout lists no block
twice, is a visiting order: it lists the blocks of the layout, each of them once, and starts with
the entry. The blocks that some route from the entry leads to come first, and each of them comes
behind all blocks that stand on every route to it. The others keep the order of the layout. -/
theorem reversePostorder_is_visiting_order (accepted : function.verify = .ok ())
    (distinct : function.layout.Nodup) :
    function.reversePostorder.Perm function.layout ∧
    (∃ entry rest, function.entry? = some entry ∧ function.reversePostorder = entry :: rest) ∧
    (∃ found others, function.reversePostorder = found ++ others ∧
      (∀ label, label ∈ found ↔ function.Connected label) ∧
      others.Sublist function.layout) ∧
    ∀ first second, function.Connected second → function.Guards first second →
      [first, second].Sublist function.reversePostorder := by
  obtain ⟨entry, verified⟩ := verify_eq_ok.mp accepted
  obtain ⟨found, whole, nodup, connected, routes⟩ := reversePostorder_parts verified.first
  refine ⟨?_, ?_, ⟨found, _, whole, connected, List.filter_sublist⟩, ?_⟩
  · rw [whole]
    refine (List.perm_ext_iff_of_nodup ?_ distinct).mpr fun label => ?_
    · refine List.nodup_append.mpr ⟨nodup, distinct.filter _, ?_⟩
      rintro label inside _ other rfl
      exact of_decide_eq_true (List.mem_filter.mp other).2 inside
    · rw [List.mem_append, List.mem_filter, decide_eq_true_eq]
      constructor
      · rintro (inside | ⟨placed, _⟩)
        · exact verified.placed ((connected label).mp inside)
        · exact placed
      · intro placed
        exact (em (label ∈ found)).imp_right fun outside => ⟨placed, outside⟩
  · have member := (connected entry).mpr ⟨[], .entry entry verified.first⟩
    cases found with
    | nil => cases member
    | cons head rest =>
        -- No block comes before the first one, so it is on a route of its own.
        obtain ⟨earlier, route, passed⟩ := routes [] head rest rfl
        cases List.subset_nil.mp passed
        cases route with
        | entry _ first => exact ⟨head, _, first, whole⟩
  · rintro first second reached ⟨different, guards⟩
    obtain ⟨before, behind, rfl⟩ := List.append_of_mem ((connected second).mpr reached)
    obtain ⟨earlier, route, passed⟩ := routes before second behind rfl
    have early : [first].Sublist before := List.singleton_sublist.mpr
      (passed (List.mem_of_ne_of_mem different (guards earlier route)))
    have late : [second].Sublist (second :: behind) :=
      List.singleton_sublist.mpr List.mem_cons_self
    rw [whole]
    exact (early.append late).trans (List.sublist_append_left _ _)

/-- A function with a loop that can be entered at either of its blocks, and a block that nothing
leads to. -/
def twoWays : Function where
  name := "twoWays"
  prototype := ⟨[.i64], [.i64]⟩
  values := #[⟨.i64, true, ⟨0⟩⟩]
  blocks := #[
    ⟨[⟨0⟩], [⟨[], .branch ⟨0⟩ ⟨⟨2⟩, []⟩ ⟨⟨1⟩, []⟩, []⟩]⟩,
    ⟨[], [⟨[], .jump ⟨⟨2⟩, []⟩, []⟩]⟩,
    ⟨[], [⟨[], .branch ⟨0⟩ ⟨⟨1⟩, []⟩ ⟨⟨4⟩, []⟩, []⟩]⟩,
    ⟨[], [⟨[], .ret [⟨0⟩], []⟩]⟩,
    ⟨[], [⟨[], .ret [⟨0⟩], []⟩]⟩]
  layout := [⟨0⟩, ⟨1⟩, ⟨2⟩, ⟨3⟩, ⟨4⟩]
  slots := #[]
  references := #[]

theorem reversePostorder_is_visiting_order_twoWays :
    twoWays.verify = .ok () ∧ twoWays.layout.Nodup ∧
      twoWays.Connected ⟨4⟩ ∧ twoWays.Guards ⟨2⟩ ⟨4⟩ ∧
      twoWays.reversePostorder.Perm [⟨0⟩, ⟨1⟩, ⟨2⟩, ⟨3⟩, ⟨4⟩] ∧
      [⟨2⟩, ⟨4⟩].Sublist twoWays.reversePostorder := by
  have accepted : twoWays.verify = .ok () := by decide
  have distinct : twoWays.layout.Nodup := by decide
  have connected : twoWays.Connected ⟨4⟩ :=
    ⟨[⟨2⟩, ⟨0⟩], .next _ _ _ (.next _ _ _ (.entry _ rfl) (by decide)) (by decide)⟩
  have only : ∀ index < 5, (⟨4⟩ : Label) ∈ twoWays.named ⟨index⟩ → index = 2 := by decide
  have guards : twoWays.Guards ⟨2⟩ ⟨4⟩ := by
    refine ⟨by decide, fun earlier route => ?_⟩
    cases route with
    | entry _ first => cases first
    | next source _ before _ leads =>
        have inside : source.index < 5 := by
          by_contra outside
          rw [named_of_le (Nat.not_lt.mp outside)] at leads
          cases leads
        have same : source = ⟨2⟩ := congrArg Label.mk (only source.index inside leads)
        simp [same]
  obtain ⟨permuted, -, -, ordered⟩ := reversePostorder_is_visiting_order accepted distinct
  exact ⟨accepted, distinct, connected, guards, permuted, ordered _ _ connected guards⟩

end Function

end ExprLang.Ssa
