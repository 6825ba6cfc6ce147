import Governance.Proofs.Scope.Tree

/-!
# The scopes below a scope

Walking down through the children of a scope, level by level, visits every scope that is reached
from it by links to parents, and nothing else. No scope is visited twice, so the bound on the
visits, the number of scopes, does not cut the walk short.
-/

set_option autoImplicit false

namespace Governance.ScopeTree

variable {tree : ScopeTree}

/-- Whether a scope is another one or stands below it, by the links to parents. -/
inductive Under (tree : ScopeTree) (top : ScopeId) : ScopeId → Prop where
  | self {scope : Scope} : tree.find? top = some scope → Under tree top top
  | child {id parent : ScopeId} {scope : Scope} : tree.find? id = some scope →
      scope.parent = some parent → Under tree top parent → Under tree top id

/-- The scopes that a scope stands under are those of its chain. -/
theorem under_iff_mem_chain (formed : tree.Formed) {top id : ScopeId} {chain : List Scope}
    (up : tree.Ancestry id chain) : tree.Under top id ↔ top ∈ chain.map Scope.id := by
  constructor
  · intro under
    induction under generalizing chain with
    | self found =>
        obtain ⟨last, ending, stored⟩ := up.ends
        exact List.mem_map.mpr ⟨last, List.mem_of_getLast? ending, formed.named _ _ stored⟩
    | child found named _ ih =>
        cases up with
        | root found' named' =>
            cases found.symm.trans found'
            cases named.symm.trans named'
        | child found' named' up =>
            cases found.symm.trans found'
            cases named.symm.trans named'
            rw [List.map_append]
            exact List.mem_append_left _ (ih up)
  · intro listed
    induction up with
    | root found _ =>
        rw [List.map_singleton, List.mem_singleton, formed.named _ _ found] at listed
        subst listed
        exact .self found
    | child found named _ ih =>
        rw [List.map_append, List.mem_append, List.map_singleton, List.mem_singleton,
          formed.named _ _ found] at listed
        rcases listed with above | last
        · exact .child found named (ih above)
        · subst last
          exact .self found

theorem Under.depth_le (formed : tree.Formed) {top id : ScopeId} (under : tree.Under top id)
    {scope above : Scope} (found : tree.find? id = some scope) (found' : tree.find? top = some above) :
    above.type.depth ≤ scope.type.depth := by
  induction under generalizing scope with
  | self =>
      cases found.symm.trans found'
      exact Nat.le_refl _
  | child stored named _ ih =>
      cases found.symm.trans stored
      obtain ⟨middle, stored', higher⟩ := formed.linked _ _ _ stored named
      exact Nat.le_of_lt (Nat.lt_of_le_of_lt (ih stored') higher)

theorem Under.stored {top id : ScopeId} (under : tree.Under top id) :
    ∃ scope, tree.find? id = some scope := by
  cases under with
  | self found => exact ⟨_, found⟩
  | child found _ _ => exact ⟨_, found⟩

theorem Under.top_stored {top id : ScopeId} (under : tree.Under top id) :
    ∃ scope, tree.find? top = some scope := by
  induction under with
  | self found => exact ⟨_, found⟩
  | child _ _ _ ih => exact ih

theorem ascending_childIds (parent : ScopeId) : (tree.childIds parent).Pairwise (· < ·) :=
  Entries.ascending_keys ((tree.below.find? parent).getD {}).ascending

theorem nodup_childIds (parent : ScopeId) : (tree.childIds parent).Nodup :=
  Entries.nodup_keys ((tree.below.find? parent).getD {}).ascending

/-! ## The walk down -/

/-- The walk itself, which has no bound: the first waiting scope is visited and its children wait
behind all others, until no scope waits. -/
inductive Walk (tree : ScopeTree) : List ScopeId → List ScopeId → Prop where
  | done : Walk tree [] []
  | visit {id : ScopeId} {waiting rest : List ScopeId} :
      Walk tree (waiting ++ tree.childIds id) rest → Walk tree (id :: waiting) (id :: rest)

/-- How far a walk down has come: no scope is listed twice, all listed scopes stand under the first
one, which is among them, and the children of the visited scopes are the other ones. -/
structure Frontier (tree : ScopeTree) (top : ScopeId) (visited waiting : List ScopeId) : Prop where
  distinct : (visited ++ waiting).Nodup
  under : ∀ id ∈ visited ++ waiting, tree.Under top id
  begins : top ∈ visited ++ waiting
  closed : ∀ id ∈ visited, ∀ child ∈ tree.childIds id, child ∈ visited ++ waiting
  reached : ∀ id ∈ visited ++ waiting, id ≠ top →
    ∃ parent ∈ visited, id ∈ tree.childIds parent

theorem frontier_start {top : ScopeId} {scope : Scope} (found : tree.find? top = some scope) :
    tree.Frontier top [] [top] := by
  refine ⟨List.nodup_singleton _, fun id listed => ?_, List.mem_singleton_self _,
    List.forall_mem_nil _, fun id listed different => ?_⟩
  · cases List.mem_singleton.mp listed
    exact .self found
  · exact absurd (List.mem_singleton.mp listed) different

theorem Frontier.fresh (formed : tree.Formed) {top id : ScopeId} {visited waiting : List ScopeId}
    (frontier : tree.Frontier top visited (id :: waiting)) {child : ScopeId}
    (below : child ∈ tree.childIds id) : child ∉ visited ++ id :: waiting := by
  intro listed
  obtain ⟨scope, found, named⟩ := (formed.below _ _).mp below
  by_cases first : child = top
  · -- the first scope stands above its own parent
    subst first
    obtain ⟨above, stored, higher⟩ := formed.linked _ _ _ found named
    have under := frontier.under id (List.mem_append_right _ List.mem_cons_self)
    exact Nat.not_le_of_lt higher (under.depth_le formed stored found)
  · obtain ⟨parent, done, below'⟩ := frontier.reached child listed first
    obtain ⟨scope', found', named'⟩ := (formed.below _ _).mp below'
    cases found.symm.trans found'
    cases named.symm.trans named'
    exact (List.nodup_append.mp frontier.distinct).2.2 _ done _ List.mem_cons_self rfl

/-- Visiting a scope takes it from the waiting scopes and puts its children behind them. -/
theorem Frontier.visit (formed : tree.Formed) {top id : ScopeId} {visited waiting : List ScopeId}
    (frontier : tree.Frontier top visited (id :: waiting)) :
    tree.Frontier top (visited ++ [id]) (waiting ++ tree.childIds id) := by
  have listing : (visited ++ [id]) ++ (waiting ++ tree.childIds id)
      = (visited ++ id :: waiting) ++ tree.childIds id := by simp
  have self : tree.Under top id :=
    frontier.under id (List.mem_append_right _ List.mem_cons_self)
  refine ⟨?_, ?_, ?_, ?_, ?_⟩
  · rw [listing]
    refine List.nodup_append.mpr ⟨frontier.distinct, nodup_childIds id, ?_⟩
    intro other listed child below same
    exact frontier.fresh formed below (same ▸ listed)
  · rw [listing]
    intro other listed
    rcases List.mem_append.mp listed with old | below
    · exact frontier.under other old
    · obtain ⟨scope, found, named⟩ := (formed.below _ _).mp below
      exact .child found named self
  · rw [listing]
    exact List.mem_append_left _ frontier.begins
  · rw [listing]
    intro other done child below
    rcases List.mem_append.mp done with earlier | last
    · exact List.mem_append_left _ (frontier.closed other earlier child below)
    · exact List.mem_append_right _ (List.mem_singleton.mp last ▸ below)
  · rw [listing]
    intro other listed different
    rcases List.mem_append.mp listed with old | below
    · obtain ⟨parent, done, below⟩ := frontier.reached other old different
      exact ⟨parent, List.mem_append_left _ done, below⟩
    · exact ⟨id, List.mem_append_right _ (List.mem_singleton_self id), below⟩

theorem Frontier.length_le {top : ScopeId} {visited waiting : List ScopeId}
    (frontier : tree.Frontier top visited waiting) :
    visited.length + waiting.length ≤ tree.size := by
  rw [← List.length_append]
  exact length_le_size frontier.distinct fun id listed => (frontier.under id listed).stored

/-- A walk that may still visit as many scopes as have not been visited is not cut short. -/
theorem Frontier.walk (formed : tree.Formed) {top : ScopeId} {visits : Nat}
    {visited waiting : List ScopeId} (frontier : tree.Frontier top visited waiting)
    (enough : tree.size ≤ visited.length + visits) :
    tree.Walk waiting (tree.visit visits waiting) := by
  induction visits generalizing visited waiting with
  | zero =>
      -- all scopes have been visited, so none of them waits
      have none : waiting = [] := by
        have bounded := frontier.length_le
        exact List.length_eq_zero_iff.mp (by omega)
      subst none
      exact .done
  | succ visits ih =>
      cases waiting with
      | nil => exact .done
      | cons id waiting =>
          exact .visit (ih (frontier.visit formed) (by
            rw [List.length_append, List.length_singleton]
            omega))

/-- The walk from a scope of a tree ends before its bound on the visits. -/
theorem walk_visit (formed : tree.Formed) {top : ScopeId} {scope : Scope}
    (found : tree.find? top = some scope) : tree.Walk [top] (tree.visit tree.size [top]) :=
  (frontier_start found).walk formed (Nat.le_add_left _ _)

/-- At the end of a walk no scope waits. -/
theorem Walk.frontier (formed : tree.Formed) {top : ScopeId} {visited waiting rest : List ScopeId}
    (walk : tree.Walk waiting rest) (frontier : tree.Frontier top visited waiting) :
    tree.Frontier top (visited ++ rest) [] := by
  induction walk generalizing visited with
  | done => rwa [List.append_nil]
  | visit _ ih =>
      have later := ih (frontier.visit formed)
      rwa [List.append_assoc, List.singleton_append] at later

theorem invalidationOrder_of_find? {changed : ScopeId} {scope : Scope}
    (found : tree.find? changed = some scope) :
    tree.invalidationOrder changed = .ok (tree.visit tree.size [changed]) := by
  have known : tree.scopes.contains changed = true := by
    rw [SortedMap.contains, ← find?, found, Option.isSome_some]
  rw [invalidationOrder, if_pos known]

theorem invalidationOrder_eq_error {changed : ScopeId} (unknown : tree.find? changed = none) :
    tree.invalidationOrder changed = .error (.unknownScope changed) := by
  have absent : tree.scopes.contains changed ≠ true := by
    rw [SortedMap.contains, ← find?, unknown, Option.isSome_none]
    exact Bool.false_ne_true
  rw [invalidationOrder, if_neg absent]

/-- The scopes that are computed again after a change are those that stand under the changed one. -/
theorem invalidationOrder_eq_ok (formed : tree.Formed) {changed : ScopeId} {scope : Scope}
    (found : tree.find? changed = some scope) :
    ∃ order, tree.invalidationOrder changed = .ok order ∧ order.Nodup ∧
      ∀ id, id ∈ order ↔ tree.Under changed id := by
  have complete : tree.Frontier changed ([] ++ tree.visit tree.size [changed]) [] :=
    (walk_visit formed found).frontier formed (frontier_start found)
  rw [List.nil_append] at complete
  refine ⟨tree.visit tree.size [changed], invalidationOrder_of_find? found, ?_,
    fun id => ⟨fun listed => ?_, fun under => ?_⟩⟩
  · simpa using complete.distinct
  · exact complete.under id (List.mem_append_left _ listed)
  · induction under with
    | self => simpa using complete.begins
    | child stored named _ ih =>
        have below := (formed.below _ _).mpr ⟨_, stored, named⟩
        simpa using complete.closed _ ih _ below

end Governance.ScopeTree
