import Governance.Proofs.Scope.Chain
import Governance.Proofs.SortedMap.Lookup
import Governance.Scope.Tree
import Mathlib.Data.List.Perm.Subperm

/-!
# Trees of scopes

What building a tree establishes: every scope is stored under its identifier, and a scope with a
parent stands below a stored scope of a higher level. Walking up from a scope therefore ends at a
root, after no more steps than there are scopes.
-/

set_option autoImplicit false

namespace Governance

namespace ScopeTree

/-! ## Building -/

/-- Scopes are added to those that are there, and no identifier is added twice. -/
theorem index_eq_ok {list : List Scope} {scopes indexed : SortedMap ScopeId Scope}
    (done : index list scopes = .ok indexed) :
    (∀ scope ∈ list, scopes.find? scope.id = none) ∧
      ∀ id, indexed.find? id
        = (list.find? fun scope => scope.id = id).or (scopes.find? id) := by
  induction list generalizing scopes with
  | nil =>
      cases done
      exact ⟨fun _ listed => (nomatch listed), fun _ => rfl⟩
  | cons scope rest ih =>
      rw [index] at done
      split at done
      · cases done
      · rename_i fresh
        have absent : scopes.find? scope.id = none := by
          simpa [SortedMap.contains] using fresh
        obtain ⟨apart, found⟩ := ih done
        have different : ∀ other ∈ rest, scope.id ≠ other.id := by
          intro other listed same
          have none := apart other listed
          rw [SortedMap.find?_insert, if_pos same] at none
          cases none
        refine ⟨List.forall_mem_cons.mpr ⟨absent, fun other listed => ?_⟩, fun id => ?_⟩
        · have none := apart other listed
          rwa [SortedMap.find?_insert, if_neg (different other listed)] at none
        · rw [found, SortedMap.find?_insert, List.find?_cons]
          by_cases same : scope.id = id
          · have once : (rest.find? fun other => other.id = id) = none :=
              List.find?_eq_none.mpr fun other listed =>
                by simpa [← same] using Ne.symm (different other listed)
            simp [same, once]
          · simp [same]

theorem checkEach_eq_ok_iff {check : Scope → Except ValidationError Unit} {list : List Scope} :
    checkEach check list = .ok () ↔ ∀ scope ∈ list, check scope = .ok () := by
  induction list with
  | nil => simp [checkEach]
  | cons scope rest ih =>
      rw [checkEach, List.forall_mem_cons, ← ih]
      cases check scope <;> simp

/-- Linking fails where a parent is refused, and links one scope after another otherwise. -/
theorem linkAll_eq {scopes : SortedMap ScopeId Scope} (list : List Scope)
    (below : SortedMap ScopeId (SortedMap ScopeId Unit)) :
    linkAll scopes list below
      = (checkEach (checkParent scopes) list).map fun _ => list.foldl link below := by
  induction list generalizing below with
  | nil => rfl
  | cons scope rest ih =>
      rw [linkAll, checkEach]
      cases checkParent scopes scope with
      | error problem => rfl
      | ok => exact ih (link below scope)

def ofScopes (scopes : SortedMap ScopeId Scope) : ScopeTree :=
  ⟨scopes, scopes.values.foldl link {}⟩

@[simp] theorem find?_ofScopes (scopes : SortedMap ScopeId Scope) (id : ScopeId) :
    (ofScopes scopes).find? id = scopes.find? id := rfl

/-- Building a tree stores the listed scopes, makes three checks of them and links them. -/
theorem ofList_of_index {list : List Scope} {scopes : SortedMap ScopeId Scope}
    (indexed : index list {} = .ok scopes) :
    ofList list = (do
      checkEach (checkParent scopes) scopes.values
      checkEach (checkCycle scopes) scopes.values
      checkEach (checkDepth scopes) scopes.values
      .ok (ofScopes scopes)) := by
  simp only [ofList, indexed, linkAll_eq, bind, Except.bind]
  cases checkEach (checkParent scopes) scopes.values <;> rfl

theorem ofList_eq_ok_iff {list : List Scope} {tree : ScopeTree} :
    ofList list = .ok tree ↔ ∃ scopes, index list {} = .ok scopes ∧
      checkEach (checkParent scopes) scopes.values = .ok () ∧
      checkEach (checkCycle scopes) scopes.values = .ok () ∧
      checkEach (checkDepth scopes) scopes.values = .ok () ∧
      tree = ofScopes scopes := by
  cases indexed : index list {} with
  | error problem => simp [ofList, indexed, bind, Except.bind]
  | ok scopes =>
      rw [ofList_of_index indexed]
      simp only [Except.ok.injEq, exists_eq_left', bind, Except.bind]
      cases checkEach (checkParent scopes) scopes.values with
      | error problem => simp
      | ok =>
          cases checkEach (checkCycle scopes) scopes.values with
          | error problem => simp
          | ok => cases checkEach (checkDepth scopes) scopes.values <;> simp [eq_comm]

theorem mem_keys_link {below : SortedMap ScopeId (SortedMap ScopeId Unit)} {scope : Scope}
    {parent id : ScopeId} :
    id ∈ (((link below scope).find? parent).getD {}).keys ↔
      (scope.parent = some parent ∧ scope.id = id) ∨ id ∈ ((below.find? parent).getD {}).keys := by
  rw [link]
  cases named : scope.parent with
  | none => simp
  | some above =>
      by_cases same : above = parent
      · subst same
        simp only [SortedMap.find?_insert, if_true, Option.getD_some, SortedMap.mem_keys_iff,
          true_and]
        by_cases self : scope.id = id <;> simp [self]
      · simp [same]

theorem mem_keys_foldl_link {list : List Scope}
    {below : SortedMap ScopeId (SortedMap ScopeId Unit)} {parent id : ScopeId} :
    id ∈ (((list.foldl link below).find? parent).getD {}).keys ↔
      (∃ scope ∈ list, scope.parent = some parent ∧ scope.id = id) ∨
        id ∈ ((below.find? parent).getD {}).keys := by
  induction list generalizing below with
  | nil => simp
  | cons scope rest ih =>
      rw [List.foldl_cons, ih, mem_keys_link]
      simp only [List.mem_cons, exists_eq_or_imp]
      exact or_left_comm.trans or_assoc.symm

/-- What the scopes of a tree satisfy: each stands under its own identifier, and below a parent of
a higher level if it names one. The scopes directly below a scope are those that name it. -/
structure Formed (tree : ScopeTree) : Prop where
  named : ∀ id scope, tree.find? id = some scope → scope.id = id
  linked : ∀ id scope parent, tree.find? id = some scope → scope.parent = some parent →
    ∃ above, tree.find? parent = some above ∧ above.type.depth < scope.type.depth
  below : ∀ parent id, id ∈ tree.childIds parent ↔
    ∃ scope, tree.find? id = some scope ∧ scope.parent = some parent

/-- Stored scopes stand below the parents that they name. -/
theorem mem_childIds_ofScopes {scopes : SortedMap ScopeId Scope}
    (named : ∀ id scope, scopes.find? id = some scope → scope.id = id) (parent id : ScopeId) :
    id ∈ (ofScopes scopes).childIds parent ↔
      ∃ scope, scopes.find? id = some scope ∧ scope.parent = some parent := by
  rw [childIds, ofScopes, mem_keys_foldl_link]
  constructor
  · rintro (⟨scope, stored, above, rfl⟩ | none)
    · obtain ⟨key, found⟩ := SortedMap.mem_values_iff.mp stored
      exact ⟨scope, named key scope found ▸ found, above⟩
    · simp [SortedMap.mem_keys_iff] at none
  · rintro ⟨scope, found, above⟩
    exact .inl ⟨scope, SortedMap.mem_values_iff.mpr ⟨id, found⟩, above, named id scope found⟩

theorem find?_of_index {list : List Scope} {scopes : SortedMap ScopeId Scope}
    (indexed : index list {} = .ok scopes) (id : ScopeId) :
    scopes.find? id = list.find? fun scope => scope.id = id := by
  rw [(index_eq_ok indexed).2, SortedMap.find?_empty, Option.or_none]

theorem id_of_index {list : List Scope} {scopes : SortedMap ScopeId Scope}
    (indexed : index list {} = .ok scopes) {id : ScopeId} {scope : Scope}
    (found : scopes.find? id = some scope) : scope.id = id := by
  rw [find?_of_index indexed] at found
  simpa using List.find?_some found

/-- Building a tree stores exactly the listed scopes, and they are formed. -/
theorem ofList_eq_ok {list : List Scope} {tree : ScopeTree} (built : ofList list = .ok tree) :
    tree.Formed ∧ ∀ id, tree.find? id = list.find? fun scope => scope.id = id := by
  obtain ⟨scopes, indexed, parents, _, depths, rfl⟩ := ofList_eq_ok_iff.mp built
  refine ⟨⟨fun id scope => id_of_index indexed, fun id scope parent found above => ?_,
    mem_childIds_ofScopes fun id scope => id_of_index indexed⟩, find?_of_index indexed⟩
  have stored : scope ∈ scopes.values := SortedMap.mem_values_iff.mpr ⟨id, found⟩
  have known := checkEach_eq_ok_iff.mp parents scope stored
  have deeper := checkEach_eq_ok_iff.mp depths scope stored
  cases present : scopes.find? parent with
  | none => simp [checkParent, above, SortedMap.contains, present] at known
  | some top =>
      simp only [checkDepth, above, Option.bind_some, present] at deeper
      exact ⟨top, present, Scope.checkDepth_eq_ok_iff.mp deeper⟩

theorem find?_of_mem {list : List Scope} {tree : ScopeTree} (built : ofList list = .ok tree)
    {id : ScopeId} (listed : id ∈ list.map Scope.id) : ∃ scope, tree.find? id = some scope := by
  obtain ⟨scope, present, rfl⟩ := List.mem_map.mp listed
  rw [(ofList_eq_ok built).2]
  exact Option.isSome_iff_exists.mp
    (List.find?_isSome.mpr ⟨scope, present, decide_eq_true rfl⟩)

/-! ## Walking up -/

inductive Ancestry (tree : ScopeTree) : ScopeId → List Scope → Prop where
  | root {id : ScopeId} {scope : Scope} : tree.find? id = some scope → scope.parent = none →
      Ancestry tree id [scope]
  | child {id parent : ScopeId} {scope : Scope} {chain : List Scope} :
      tree.find? id = some scope → scope.parent = some parent → Ancestry tree parent chain →
      Ancestry tree id (chain ++ [scope])

variable {tree : ScopeTree}

/-- Every walk up ends, because levels have a highest one. -/
theorem Formed.exists_ancestry (formed : tree.Formed) {id : ScopeId} {scope : Scope}
    (found : tree.find? id = some scope) : ∃ chain, tree.Ancestry id chain := by
  -- a parent stands on a higher level, so the walk up goes down in depth
  induction level : scope.type.depth using Nat.strongRecOn generalizing id scope with
  | ind depth ih =>
      cases named : scope.parent with
      | none => exact ⟨[scope], .root found named⟩
      | some parent =>
          obtain ⟨above, stored, higher⟩ := formed.linked id scope parent found named
          obtain ⟨chain, up⟩ := ih above.type.depth (level ▸ higher) stored rfl
          exact ⟨chain ++ [scope], .child found named up⟩

/-- A list of scopes of a tree that is a whole chain of ancestors: it begins at a root and ends at
the scope with an identifier, each scope links to the one before it, the levels descend, and no
scope is repeated. -/
structure WholeChain (tree : ScopeTree) (id : ScopeId) (chain : List Scope) : Prop where
  stored : ∀ scope ∈ chain, tree.find? scope.id = some scope
  begins : ∃ top, chain.head? = some top ∧ top.parent = none
  ends : ∃ last, chain.getLast? = some last ∧ last.id = id
  linked : chain.IsChain fun above below => below.parent = some above.id
  descends : chain.Pairwise fun above below => above.type.depth < below.type.depth
  distinct : (chain.map Scope.id).Nodup

theorem Ancestry.stored (named : ∀ id scope, tree.find? id = some scope → scope.id = id)
    {id : ScopeId} {chain : List Scope} (up : tree.Ancestry id chain) :
    ∀ scope ∈ chain, tree.find? scope.id = some scope := by
  induction up with
  | root found _ =>
      intro scope listed
      rw [List.mem_singleton.mp listed, named _ _ found, found]
  | child found _ _ ih =>
      intro scope listed
      rcases List.mem_append.mp listed with above | last
      · exact ih scope above
      · rw [List.mem_singleton.mp last, named _ _ found, found]

theorem Ancestry.unique {id : ScopeId} {chain other : List Scope} (up : tree.Ancestry id chain)
    (up' : tree.Ancestry id other) : chain = other := by
  induction up generalizing other with
  | root found above =>
      cases up' with
      | root found' _ => rw [Option.some.inj (found.symm.trans found')]
      | child found' above' _ =>
          cases found.symm.trans found'
          cases above.symm.trans above'
  | child found above _ ih =>
      cases up' with
      | root found' above' =>
          cases found.symm.trans found'
          cases above.symm.trans above'
      | child found' above' up' =>
          cases found.symm.trans found'
          cases above.symm.trans above'
          rw [ih up']

/-- The way up from a scope of a chain is the part of the chain up to that scope. -/
theorem Ancestry.exists_prefix (named : ∀ id scope, tree.find? id = some scope → scope.id = id)
    {id : ScopeId} {chain : List Scope} (up : tree.Ancestry id chain) :
    ∀ scope ∈ chain, ∃ front, front <+: chain ∧ tree.Ancestry scope.id front := by
  induction up with
  | root found above =>
      intro scope listed
      cases List.mem_singleton.mp listed
      exact ⟨_, List.prefix_refl _, .root (named _ _ found ▸ found) above⟩
  | child found above up ih =>
      intro scope listed
      rcases List.mem_append.mp listed with earlier | last
      · obtain ⟨front, within, up'⟩ := ih scope earlier
        exact ⟨front, within.trans (List.prefix_append _ _), up'⟩
      · cases List.mem_singleton.mp last
        exact ⟨_, List.prefix_refl _, .child (named _ _ found ▸ found) above up⟩

theorem Ancestry.distinct (named : ∀ id scope, tree.find? id = some scope → scope.id = id)
    {id : ScopeId} {chain : List Scope} (up : tree.Ancestry id chain) :
    (chain.map Scope.id).Nodup := by
  induction up with
  | root => exact List.nodup_singleton _
  | @child id parent scope chain found above up ih =>
      rw [List.map_append, List.map_singleton, List.nodup_append]
      refine ⟨ih, List.nodup_singleton _, fun earlier listed last ending same => ?_⟩
      obtain ⟨other, present, rfl⟩ := List.mem_map.mp listed
      obtain ⟨front, within, up'⟩ := up.exists_prefix named other present
      -- the scope would have two ways up, one of which is longer
      rw [same, List.mem_singleton.mp ending, named _ _ found] at up'
      have shorter := within.length_le
      rw [← (Ancestry.child found above up).unique up', List.length_append] at shorter
      exact Nat.not_succ_le_self _ shorter

theorem Ancestry.begins {id : ScopeId} {chain : List Scope} (up : tree.Ancestry id chain) :
    ∃ top, chain.head? = some top ∧ top.parent = none := by
  induction up with
  | root _ named => exact ⟨_, rfl, named⟩
  | child _ _ _ ih =>
      obtain ⟨top, first, named⟩ := ih
      exact ⟨top, by rw [List.head?_append, first, Option.some_or], named⟩

theorem Ancestry.ends {id : ScopeId} {chain : List Scope} (up : tree.Ancestry id chain) :
    ∃ last, chain.getLast? = some last ∧ tree.find? id = some last := by
  cases up with
  | root found _ => exact ⟨_, rfl, found⟩
  | child found _ _ => exact ⟨_, List.getLast?_concat, found⟩

theorem Ancestry.mayFollow (formed : tree.Formed) {id : ScopeId} {chain : List Scope}
    (up : tree.Ancestry id chain) : chain.IsChain Scope.MayFollow := by
  induction up with
  | root => exact List.isChain_singleton _
  | @child id parent scope chain found named up ih =>
      refine List.isChain_append.mpr ⟨ih, List.isChain_singleton _, ?_⟩
      intro last ending below first
      obtain ⟨above, stored, higher⟩ := formed.linked id scope parent found named
      obtain ⟨last', ending', stored'⟩ := up.ends
      cases ending'.symm.trans ending
      cases stored.symm.trans stored'
      cases first
      exact ⟨by rw [named, formed.named _ _ stored], higher⟩

theorem Ancestry.wholeChain (formed : tree.Formed) {id : ScopeId} {chain : List Scope}
    (up : tree.Ancestry id chain) : tree.WholeChain id chain := by
  have follows := up.mayFollow formed
  obtain ⟨last, ending, found⟩ := up.ends
  exact ⟨up.stored formed.named, up.begins, ⟨last, ending, formed.named _ _ found⟩,
    follows.imp fun _ _ both => both.1, (follows.imp fun _ _ both => both.2).pairwise,
    up.distinct formed.named⟩

theorem length_le_size {ids : List ScopeId} (distinct : ids.Nodup)
    (stored : ∀ id ∈ ids, ∃ scope, tree.find? id = some scope) : ids.length ≤ tree.size := by
  have within : ids ⊆ tree.scopes.keys := fun id listed =>
    SortedMap.mem_keys_iff.mpr (Option.isSome_iff_exists.mpr (stored id listed))
  have shorter := (List.subperm_of_subset distinct within).length_le
  rwa [SortedMap.keys, List.length_map] at shorter

theorem Ancestry.checkChain (formed : tree.Formed) {id : ScopeId} {chain : List Scope}
    (up : tree.Ancestry id chain) : Scope.checkChain id chain = .ok () := by
  have whole := up.wholeChain formed
  obtain ⟨last, ending, named⟩ := whole.ends
  refine Scope.checkChain_eq_ok_iff.mpr ⟨?_, whole.distinct, up.mayFollow formed⟩
  rw [ending, Option.map_some, named]

theorem Ancestry.length_le (named : ∀ id scope, tree.find? id = some scope → scope.id = id)
    {id : ScopeId} {chain : List Scope} (up : tree.Ancestry id chain) : chain.length ≤ tree.size := by
  rw [← List.length_map Scope.id]
  refine length_le_size (up.distinct named) fun id listed => ?_
  obtain ⟨scope, present, rfl⟩ := List.mem_map.mp listed
  exact ⟨scope, up.stored named scope present⟩

/-! ## The chain of a scope -/

theorem chainAbove_of_ancestry {id : ScopeId} {chain : List Scope} (up : tree.Ancestry id chain)
    {steps : Nat} (enough : chain.length ≤ steps + 1) (below : List Scope) :
    tree.chainAbove steps id below = .ok (chain ++ below) := by
  induction up generalizing steps below with
  | root found named =>
      rw [chainAbove, found]
      simp [named]
  | @child id parent scope chain found named up ih =>
      rw [List.length_append, List.length_singleton] at enough
      have positive : 0 < chain.length := by
        obtain ⟨top, first, _⟩ := up.begins
        exact List.length_pos_iff.mpr fun empty => by simp [empty] at first
      obtain ⟨steps, rfl⟩ := Nat.exists_eq_add_one.mpr (show 0 < steps by omega)
      rw [chainAbove, found]
      simp only [named, ih (show chain.length ≤ steps + 1 by omega), List.append_assoc,
        List.singleton_append]

/-- The chain of a stored scope is found, with every bound on the steps that is not below the number
of scopes. -/
theorem Formed.chainAbove (formed : tree.Formed) {id : ScopeId} {scope : Scope}
    (found : tree.find? id = some scope) :
    ∃ chain, tree.Ancestry id chain ∧ tree.WholeChain id chain ∧
      ∀ steps, tree.size ≤ steps → tree.chainAbove steps id [] = .ok chain := by
  obtain ⟨chain, up⟩ := formed.exists_ancestry found
  have whole := up.wholeChain formed
  refine ⟨chain, up, whole, fun steps enough => ?_⟩
  have short := up.length_le formed.named
  rw [chainAbove_of_ancestry up (by omega), List.append_nil]

theorem ancestorChain_eq_error {id : ScopeId} (unknown : tree.find? id = none) :
    tree.ancestorChain id = .error (.unknownScope id) := by
  rw [ancestorChain, ScopeTree.chainAbove, unknown]

end ScopeTree

end Governance
