import Governance.Proofs.Scope.Building
import Mathlib.Data.List.Duplicate
import Mathlib.Data.List.Perm.Basic
import Mathlib.Logic.Relation

/-!
# What is wrong with a list of scopes

Building a tree reports one fault of a list. An identifier that repeats comes first, then a parent
that is not listed, then a scope from which links to parents never reach a root, and last a scope
that is not deeper than its parent. The order in which scopes are listed makes no difference, except
that it decides which of several repeated identifiers is reported.
-/

set_option autoImplicit false

namespace Governance.ScopeTree

def Names (list : List Scope) (id parent : ScopeId) : Prop :=
  ∃ scope ∈ list, scope.id = id ∧ scope.parent = some parent

def ReachesRoot (list : List Scope) (id : ScopeId) : Prop :=
  ∃ root ∈ list, root.parent = none ∧ Relation.ReflTransGen (Names list) id root.id

def Closed (list : List Scope) : Prop :=
  ∀ scope ∈ list, ∀ parent, scope.parent = some parent → parent ∈ list.map Scope.id

def Descends (list : List Scope) : Prop :=
  ∀ child ∈ list, ∀ above ∈ list, child.parent = some above.id →
    above.type.depth < child.type.depth

structure Holds (tree : ScopeTree) (list : List Scope) : Prop where
  find?_iff : ∀ id scope, tree.find? id = some scope ↔ scope ∈ list ∧ scope.id = id
  roots : tree.roots.Perm (list.filter fun scope => scope.parent.isNone)
  children : ∀ id, (tree.children id).Perm (list.filter fun scope => scope.parent = some id)

/-- How building a tree ends, by what is wrong with the list. Every fault is reported only where
none of the faults before it is found. -/
inductive Ending (list : List Scope) : Except ValidationError ScopeTree → Prop where
  | repeated {id : ScopeId} :
      (list.map Scope.id).Duplicate id → Ending list (.error (.duplicateScope id))
  | dangling {scope : Scope} {parent : ScopeId} :
      (list.map Scope.id).Nodup → scope ∈ list → scope.parent = some parent →
      parent ∉ list.map Scope.id → Ending list (.error (.unknownScope parent))
  | endless {scope : Scope} :
      (list.map Scope.id).Nodup → Closed list → scope ∈ list → ¬ ReachesRoot list scope.id →
      Ending list (.error (.scopeCycle scope.id))
  | inverted {child above : Scope} :
      (list.map Scope.id).Nodup → Closed list → (∀ scope ∈ list, ReachesRoot list scope.id) →
      child ∈ list → above ∈ list → child.parent = some above.id →
      child.type.depth ≤ above.type.depth →
      Ending list (.error (.scopeDepthOrder child.id above.type child.type))
  | built {tree : ScopeTree} :
      (list.map Scope.id).Nodup → Closed list → Descends list → tree.Holds list →
      Ending list (.ok tree)

variable {list other : List Scope} {scopes : SortedMap ScopeId Scope}

theorem forest_iff :
    Forest list ↔ (list.map Scope.id).Nodup ∧ Closed list ∧ Descends list := by
  constructor
  · intro forest
    refine ⟨forest.distinct, fun scope listed parent named => ?_,
      fun child listed above present named => ?_⟩
    · obtain ⟨above, present, same, _⟩ := forest.linked scope listed parent named
      exact List.mem_map.mpr ⟨above, present, same⟩
    · obtain ⟨above', present', same, higher⟩ := forest.linked child listed _ named
      obtain rfl := List.inj_on_of_nodup_map forest.distinct present' present same
      exact higher
  · rintro ⟨distinct, closed, descends⟩
    refine ⟨distinct, fun scope listed parent named => ?_⟩
    obtain ⟨above, present, rfl⟩ := List.mem_map.mp (closed scope listed parent named)
    exact ⟨above, present, rfl, descends scope listed above present named⟩

/-! ## Storing -/

theorem index_eq_error {problem : ValidationError} (refused : index list scopes = .error problem) :
    ∃ id ∈ list.map Scope.id, problem = .duplicateScope id ∧
      (scopes.contains id = true ∨ (list.map Scope.id).Duplicate id) := by
  induction list generalizing scopes with
  | nil => cases refused
  | cons scope rest ih =>
      rw [index] at refused
      split at refused
      · rename_i stored
        cases refused
        exact ⟨scope.id, List.mem_cons_self, rfl, .inl stored⟩
      · obtain ⟨id, listed, reported, before⟩ := ih refused
        refine ⟨id, List.mem_cons_of_mem _ listed, reported, ?_⟩
        rcases before with stored | twice
        · rw [SortedMap.contains, SortedMap.find?_insert] at stored
          by_cases same : scope.id = id
          · subst same
            exact .inr listed.duplicate_cons_self
          · rw [if_neg same] at stored
            exact .inl stored
        · exact .inr (twice.duplicate_cons _)

theorem find?_of_index_iff (indexed : index list {} = .ok scopes) {id : ScopeId} {scope : Scope} :
    scopes.find? id = some scope ↔ scope ∈ list ∧ scope.id = id := by
  rw [find?_of_index indexed]
  constructor
  · intro found
    exact ⟨List.mem_of_find?_eq_some found, by simpa using List.find?_some found⟩
  · rintro ⟨listed, rfl⟩
    exact find?_of_distinct (nodup_of_index indexed) listed

theorem mem_values_of_index (indexed : index list {} = .ok scopes) {scope : Scope} :
    scope ∈ scopes.values ↔ scope ∈ list := by
  simp [SortedMap.mem_values_iff, find?_of_index_iff indexed]

theorem values_perm_of_index (indexed : index list {} = .ok scopes) : scopes.values.Perm list := by
  have identified : scopes.values.map Scope.id = scopes.keys := by
    rw [SortedMap.values, SortedMap.keys, List.map_map]
    refine List.map_congr_left fun entry listed => ?_
    exact id_of_index indexed (SortedMap.find?_eq_some_iff.mpr listed)
  have distinct : (scopes.values.map Scope.id).Nodup := by
    rw [identified]
    exact Entries.nodup_keys scopes.ascending
  exact (List.perm_ext_iff_of_nodup distinct.of_map (nodup_of_index indexed).of_map).mpr
    fun scope => mem_values_of_index indexed

theorem index_eq_of_perm (indexed : index list {} = .ok scopes) (perm : other.Perm list) :
    index other {} = .ok scopes := by
  have distinct : (other.map Scope.id).Nodup :=
    (perm.map Scope.id).nodup_iff.mpr (nodup_of_index indexed)
  obtain ⟨scopes', indexed'⟩ : ∃ scopes', index other {} = .ok scopes' :=
    index_of_nodup distinct fun scope _ => SortedMap.find?_empty scope.id
  have same : scopes' = scopes := by
    refine SortedMap.ext_find? fun id => Option.ext fun scope => ?_
    rw [find?_of_index_iff indexed, find?_of_index_iff indexed', perm.mem_iff]
  rw [indexed', same]

theorem holds_of_index (indexed : index list {} = .ok scopes) : (ofScopes scopes).Holds list := by
  refine ⟨fun id scope => find?_of_index_iff indexed,
    (values_perm_of_index indexed).filter _, fun id => ?_⟩
  have listed : ∀ scope, scope ∈ (ofScopes scopes).children id ↔
      scope ∈ list ∧ scope.parent = some id := by
    intro scope
    simp only [children, List.mem_filterMap, find?_ofScopes, find?_of_index_iff indexed,
      mem_childIds_ofScopes fun id scope => id_of_index indexed]
    constructor
    · rintro ⟨_, ⟨scope', ⟨present', same⟩, named⟩, present, rfl⟩
      cases List.inj_on_of_nodup_map (nodup_of_index indexed) present' present same
      exact ⟨present, named⟩
    · rintro ⟨present, named⟩
      exact ⟨scope.id, ⟨scope, ⟨present, rfl⟩, named⟩, present, rfl⟩
  have distinct : ((ofScopes scopes).children id).Nodup := by
    refine (Entries.nodup_keys (((ofScopes scopes).below.find? id).getD {}).ascending).filterMap ?_
    intro first second scope found found'
    exact (id_of_index indexed found).symm.trans (id_of_index indexed found')
  refine (List.perm_ext_iff_of_nodup distinct ((nodup_of_index indexed).of_map.filter _)).mpr ?_
  intro scope
  rw [listed, List.mem_filter, decide_eq_true_eq]

/-! ## Following links -/

theorem names_iff (indexed : index list {} = .ok scopes) {id parent : ScopeId} :
    Names list id parent ↔
      ∃ scope, (ofScopes scopes).find? id = some scope ∧ scope.parent = some parent := by
  simp only [find?_ofScopes, find?_of_index_iff indexed, Names, and_assoc]

/-- Links reach a root exactly if the way up from a scope ends. -/
theorem reachesRoot_iff (indexed : index list {} = .ok scopes) {id : ScopeId} :
    ReachesRoot list id ↔ ∃ chain, (ofScopes scopes).Ancestry id chain := by
  constructor
  · rintro ⟨root, listed, top, path⟩
    induction path using Relation.ReflTransGen.head_induction_on with
    | refl => exact ⟨[root], .root ((find?_of_index_iff indexed).mpr ⟨listed, rfl⟩) top⟩
    | head step _ ih =>
        obtain ⟨scope, found, named⟩ := (names_iff indexed).mp step
        obtain ⟨chain, up⟩ := ih
        exact ⟨chain ++ [scope], .child found named up⟩
  · rintro ⟨chain, up⟩
    induction up with
    | @root id scope found top =>
        obtain ⟨listed, rfl⟩ := (find?_of_index_iff indexed).mp found
        exact ⟨scope, listed, top, .refl⟩
    | child found named _ ih =>
        obtain ⟨root, listed, top, path⟩ := ih
        exact ⟨root, listed, top, .head ((names_iff indexed).mpr ⟨_, found, named⟩) path⟩

theorem ancestry_of_walkUp {tree : ScopeTree} {start id : ScopeId} {steps : Nat} {scope : Scope}
    (found : tree.find? id = some scope) (ended : walkUp tree.scopes start steps scope = .ok ()) :
    ∃ chain, tree.Ancestry id chain := by
  induction steps generalizing id scope with
  | zero =>
      rw [walkUp] at ended
      cases named : scope.parent with
      | none => exact ⟨[scope], .root found named⟩
      | some parent => simp [named] at ended
  | succ steps ih =>
      rw [walkUp] at ended
      cases named : scope.parent with
      | none => exact ⟨[scope], .root found named⟩
      | some parent =>
          simp only [named] at ended
          split at ended
          · cases ended
          · cases present : tree.scopes.find? parent with
            | none => simp [present] at ended
            | some above =>
                rw [present] at ended
                obtain ⟨chain, up⟩ := ih present ended
                exact ⟨chain ++ [scope], .child found named up⟩

/-- Where every parent is stored, a walk up that is refused is taken for a cycle. -/
theorem walkUp_eq_error (indexed : index list {} = .ok scopes) (closed : Closed list)
    {start : ScopeId} {steps : Nat} {scope : Scope} {problem : ValidationError}
    (listed : scope ∈ list) (refused : walkUp scopes start steps scope = .error problem) :
    problem = .scopeCycle start := by
  induction steps generalizing scope with
  | zero =>
      rw [walkUp] at refused
      split at refused
      · cases refused
      · exact (Except.error.inj refused).symm
  | succ steps ih =>
      rw [walkUp] at refused
      cases named : scope.parent with
      | none => simp [named] at refused
      | some parent =>
          simp only [named] at refused
          split at refused
          · exact (Except.error.inj refused).symm
          · obtain ⟨above, present, rfl⟩ := List.mem_map.mp (closed scope listed parent named)
            rw [(find?_of_index_iff indexed).mpr ⟨present, rfl⟩] at refused
            exact ih present refused

/-! ## The checks of a scope -/

theorem checkEach_eq_error {check : Scope → Except ValidationError Unit} {problem : ValidationError}
    (refused : checkEach check list = .error problem) :
    ∃ front scope back, list = front ++ scope :: back ∧
      (∀ earlier ∈ front, check earlier = .ok ()) ∧ check scope = .error problem := by
  induction list with
  | nil => cases refused
  | cons first rest ih =>
      rw [checkEach] at refused
      cases checked : check first with
      | error problem' =>
          rw [checked] at refused
          cases refused
          exact ⟨[], first, rest, rfl, List.forall_mem_nil _, checked⟩
      | ok =>
          rw [checked] at refused
          obtain ⟨front, scope, back, rfl, passed, failed⟩ := ih refused
          exact ⟨first :: front, scope, back, rfl, List.forall_mem_cons.mpr ⟨checked, passed⟩, failed⟩

theorem contains_iff_of_index (indexed : index list {} = .ok scopes) {id : ScopeId} :
    scopes.contains id = true ↔ id ∈ list.map Scope.id := by
  simp only [SortedMap.contains, Option.isSome_iff_exists, find?_of_index_iff indexed, List.mem_map]

theorem checkParent_eq_ok_iff (indexed : index list {} = .ok scopes) {scope : Scope} :
    checkParent scopes scope = .ok () ↔
      ∀ parent, scope.parent = some parent → parent ∈ list.map Scope.id := by
  rw [checkParent]
  cases named : scope.parent with
  | none => simp
  | some parent =>
      simp only [Option.some.injEq, forall_eq', ← contains_iff_of_index indexed]
      split <;> simp_all

theorem checkParent_eq_error (indexed : index list {} = .ok scopes) {scope : Scope}
    {problem : ValidationError} (refused : checkParent scopes scope = .error problem) :
    ∃ parent, scope.parent = some parent ∧ parent ∉ list.map Scope.id ∧
      problem = .unknownScope parent := by
  rw [checkParent] at refused
  cases named : scope.parent with
  | none => simp [named] at refused
  | some parent =>
      simp only [named] at refused
      split at refused
      · cases refused
      · rename_i absent
        refine ⟨parent, rfl, fun listed => ?_, (Except.error.inj refused).symm⟩
        exact absent ((contains_iff_of_index indexed).mpr listed)

theorem closed_iff_checkEach (indexed : index list {} = .ok scopes) :
    checkEach (checkParent scopes) scopes.values = .ok () ↔ Closed list := by
  simp only [checkEach_eq_ok_iff, mem_values_of_index indexed, checkParent_eq_ok_iff indexed, Closed]

/-- Where every parent is listed, exactly the scopes are refused from which no root is reached. -/
theorem checkCycle_cases (indexed : index list {} = .ok scopes) (closed : Closed list)
    {scope : Scope} (listed : scope ∈ list) :
    (checkCycle scopes scope = .ok () ∧ ReachesRoot list scope.id) ∨
      (checkCycle scopes scope = .error (.scopeCycle scope.id) ∧ ¬ ReachesRoot list scope.id) := by
  have stored : (ofScopes scopes).find? scope.id = some scope :=
    (find?_of_index_iff indexed).mpr ⟨listed, rfl⟩
  have passed : ReachesRoot list scope.id → checkCycle scopes scope = .ok () := by
    intro reaches
    obtain ⟨chain, up⟩ := (reachesRoot_iff indexed).mp reaches
    have identified : ∀ id scope, (ofScopes scopes).find? id = some scope → scope.id = id :=
      fun _ _ => id_of_index indexed
    exact checkCycle_of_ancestry identified up stored
  cases checked : checkCycle scopes scope with
  | ok => exact .inl ⟨rfl, (reachesRoot_iff indexed).mpr (ancestry_of_walkUp stored checked)⟩
  | error problem =>
      refine .inr ⟨congrArg _ (walkUp_eq_error indexed closed listed checked), fun reaches => ?_⟩
      rw [passed reaches] at checked
      cases checked

theorem reachesRoot_iff_checkEach (indexed : index list {} = .ok scopes) (closed : Closed list) :
    checkEach (checkCycle scopes) scopes.values = .ok () ↔
      ∀ scope ∈ list, ReachesRoot list scope.id := by
  simp only [checkEach_eq_ok_iff, mem_values_of_index indexed]
  refine forall₂_congr fun scope listed => ?_
  rcases checkCycle_cases indexed closed listed with ⟨passed, reaches⟩ | ⟨refused, endless⟩
  · simp [passed, reaches]
  · simp [refused, endless]

theorem checkDepth_eq_error (indexed : index list {} = .ok scopes) {scope : Scope}
    {problem : ValidationError} (refused : checkDepth scopes scope = .error problem) :
    ∃ above ∈ list, scope.parent = some above.id ∧ scope.type.depth ≤ above.type.depth ∧
      problem = .scopeDepthOrder scope.id above.type scope.type := by
  rw [checkDepth] at refused
  cases found : scope.parent.bind scopes.find? with
  | none => simp [found] at refused
  | some above =>
      obtain ⟨parent, named, present⟩ := Option.bind_eq_some_iff.mp found
      obtain ⟨listed, rfl⟩ := (find?_of_index_iff indexed).mp present
      simp only [found, Scope.checkDepth] at refused
      split at refused
      · rename_i shallow
        exact ⟨above, listed, named, shallow, (Except.error.inj refused).symm⟩
      · cases refused

/-! ## Building -/

theorem ending_ofList (list : List Scope) : Ending list (ofList list) := by
  cases indexed : index list {} with
  | error problem =>
      obtain ⟨id, _, rfl, stored | twice⟩ := index_eq_error indexed
      · cases stored
      · simp only [ofList, indexed, bind, Except.bind]
        exact .repeated twice
  | ok scopes =>
      have distinct := nodup_of_index indexed
      have within : ∀ {front back : List Scope} {scope : Scope},
          scopes.values = front ++ scope :: back → scope ∈ list := by
        intro front back scope split
        exact (mem_values_of_index indexed).mp (split ▸ by simp)
      rw [ofList_of_index indexed]
      cases parents : checkEach (checkParent scopes) scopes.values with
      | error problem =>
          obtain ⟨_, scope, _, split, _, failed⟩ := checkEach_eq_error parents
          obtain ⟨parent, named, absent, rfl⟩ := checkParent_eq_error indexed failed
          exact .dangling distinct (within split) named absent
      | ok =>
          have closed := (closed_iff_checkEach indexed).mp parents
          cases cycles : checkEach (checkCycle scopes) scopes.values with
          | error problem =>
              obtain ⟨_, scope, _, split, _, failed⟩ := checkEach_eq_error cycles
              rcases checkCycle_cases indexed closed (within split) with ⟨passed, _⟩ | ⟨refused, endless⟩
              · cases passed.symm.trans failed
              · cases refused.symm.trans failed
                exact .endless distinct closed (within split) endless
          | ok =>
              have reaches := (reachesRoot_iff_checkEach indexed closed).mp cycles
              cases depths : checkEach (checkDepth scopes) scopes.values with
              | error problem =>
                  obtain ⟨_, scope, _, split, _, failed⟩ := checkEach_eq_error depths
                  obtain ⟨above, listed, named, shallow, rfl⟩ := checkDepth_eq_error indexed failed
                  exact .inverted distinct closed reaches (within split) listed named shallow
              | ok =>
                  have built : ofList list = .ok (ofScopes scopes) :=
                    ofList_eq_ok_iff.mpr ⟨scopes, indexed, parents, cycles, depths, rfl⟩
                  obtain ⟨_, _, descends⟩ := forest_iff.mp (forest_of_ofList built)
                  exact .built distinct closed descends (holds_of_index indexed)

/-- A list builds a tree exactly if identifiers are distinct, parents are listed and levels descend.
Otherwise the first fault is reported. Reordering the list changes neither the tree nor the fault,
apart from the identifier that is reported to repeat. -/
theorem ofList_decides (list : List Scope) :
    ((∃ tree, ofList list = .ok tree) ↔
      (list.map Scope.id).Nodup ∧ Closed list ∧ Descends list) ∧
    Ending list (ofList list) ∧
    ∀ other : List Scope, other.Perm list →
      ofList other = ofList list ∨
        ∃ id id', ofList list = .error (.duplicateScope id) ∧
          ofList other = .error (.duplicateScope id') := by
  refine ⟨ofList_isOk_iff.trans forest_iff, ending_ofList list, fun other perm => ?_⟩
  cases indexed : index list {} with
  | ok scopes =>
      have indexed' := index_eq_of_perm indexed perm
      exact .inl (by rw [ofList_of_index indexed, ofList_of_index indexed'])
  | error problem =>
      cases indexed' : index other {} with
      | ok scopes =>
          rw [index_eq_of_perm indexed' perm.symm] at indexed
          cases indexed
      | error problem' =>
          obtain ⟨id, _, rfl, _⟩ := index_eq_error indexed
          obtain ⟨id', _, rfl, _⟩ := index_eq_error indexed'
          exact .inr ⟨id, id', by simp only [ofList, indexed, bind, Except.bind],
            by simp only [ofList, indexed', bind, Except.bind]⟩

end Governance.ScopeTree
