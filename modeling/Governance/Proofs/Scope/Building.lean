import Governance.Proofs.Scope.Tree

/-!
# Which lists of scopes make up a tree

A list builds a tree exactly if no identifier repeats and every scope with a parent stands below a
listed scope of a higher level. The search for cycles never rejects anything that the other checks
let through, because levels descend.
-/

set_option autoImplicit false

namespace Governance

namespace ScopeTree

/-- What building a tree asks of a list: identifiers are distinct, and parents are listed on higher
levels. -/
structure Forest (list : List Scope) : Prop where
  distinct : (list.map Scope.id).Nodup
  linked : ∀ scope ∈ list, ∀ parent, scope.parent = some parent →
    ∃ above ∈ list, above.id = parent ∧ above.type.depth < scope.type.depth

/-! ## Storing -/

theorem nodup_of_index {list : List Scope} {scopes indexed : SortedMap ScopeId Scope}
    (done : index list scopes = .ok indexed) : (list.map Scope.id).Nodup := by
  induction list generalizing scopes with
  | nil => exact List.nodup_nil
  | cons scope rest ih =>
      rw [index] at done
      split at done
      · cases done
      · refine List.nodup_cons.mpr ⟨fun repeated => ?_, ih done⟩
        obtain ⟨other, listed, same⟩ := List.mem_map.mp repeated
        have absent := (index_eq_ok done).1 other listed
        rw [SortedMap.find?_insert, if_pos same.symm] at absent
        cases absent

theorem index_of_nodup {list : List Scope} {scopes : SortedMap ScopeId Scope}
    (distinct : (list.map Scope.id).Nodup)
    (fresh : ∀ scope ∈ list, scopes.find? scope.id = none) :
    ∃ indexed, index list scopes = .ok indexed := by
  induction list generalizing scopes with
  | nil => exact ⟨scopes, rfl⟩
  | cons scope rest ih =>
      obtain ⟨once, distinct⟩ := List.nodup_cons.mp distinct
      obtain ⟨absent, fresh⟩ := List.forall_mem_cons.mp fresh
      have new : scopes.contains scope.id = false := by
        rw [SortedMap.contains, absent, Option.isSome_none]
      simp only [index, new, Bool.false_eq_true, if_false]
      refine ih distinct fun other listed => ?_
      have different : scope.id ≠ other.id := fun same =>
        once (List.mem_map.mpr ⟨other, listed, same.symm⟩)
      rw [SortedMap.find?_insert, if_neg different, fresh other listed]

theorem find?_of_distinct {list : List Scope} (distinct : (list.map Scope.id).Nodup) {scope : Scope}
    (listed : scope ∈ list) : (list.find? fun other => other.id = scope.id) = some scope := by
  induction list with
  | nil => cases listed
  | cons first rest ih =>
      obtain ⟨once, distinct⟩ := List.nodup_cons.mp distinct
      rcases List.mem_cons.mp listed with rfl | later
      · simp
      · have different : first.id ≠ scope.id := fun same =>
          once (List.mem_map.mpr ⟨scope, later, same.symm⟩)
        rw [List.find?_cons_of_neg (by simpa using different), ih distinct later]

/-- Building a forest stores exactly the listed scopes, and their tree is formed. -/
theorem Forest.index {list : List Scope} (forest : Forest list) :
    ∃ scopes, index list {} = .ok scopes ∧ (ofScopes scopes).Formed ∧
      ∀ scope ∈ scopes.values, scopes.find? scope.id = some scope := by
  obtain ⟨scopes, indexed⟩ : ∃ scopes, ScopeTree.index list {} = .ok scopes :=
    index_of_nodup forest.distinct fun scope _ => SortedMap.find?_empty scope.id
  refine ⟨scopes, indexed, ⟨fun id scope => id_of_index indexed, ?_,
    mem_childIds_ofScopes fun id scope => id_of_index indexed⟩, ?_⟩
  · intro id scope parent stored named
    rw [find?_ofScopes, find?_of_index indexed] at stored
    obtain ⟨above, present, rfl, higher⟩ :=
      forest.linked scope (List.mem_of_find?_eq_some stored) parent named
    refine ⟨above, ?_, higher⟩
    rw [find?_ofScopes, find?_of_index indexed, find?_of_distinct forest.distinct present]
  · intro scope value
    obtain ⟨id, stored⟩ := SortedMap.mem_values_iff.mp value
    rw [id_of_index indexed stored, stored]

/-! ## Passing the checks -/

theorem Formed.checkParent {tree : ScopeTree} (formed : tree.Formed) {scope : Scope}
    (stored : tree.find? scope.id = some scope) : checkParent tree.scopes scope = .ok () := by
  rw [ScopeTree.checkParent]
  cases named : scope.parent with
  | none => rfl
  | some parent =>
      obtain ⟨above, stored', _⟩ := formed.linked _ scope parent stored named
      rw [find?] at stored'
      simp [SortedMap.contains, stored']

theorem Formed.checkDepth {tree : ScopeTree} (formed : tree.Formed) {scope : Scope}
    (stored : tree.find? scope.id = some scope) : checkDepth tree.scopes scope = .ok () := by
  rw [ScopeTree.checkDepth]
  cases named : scope.parent with
  | none => rfl
  | some parent =>
      obtain ⟨above, stored', higher⟩ := formed.linked _ scope parent stored named
      rw [find?] at stored'
      simp only [Option.bind_some, stored']
      exact Scope.checkDepth_eq_ok_iff.mpr higher

/-- A walk up that does not come back to its start is not taken for a cycle. -/
theorem walkUp_of_ancestry {tree : ScopeTree}
    (identified : ∀ id scope, tree.find? id = some scope → scope.id = id) {start id : ScopeId}
    {chain : List Scope} (up : tree.Ancestry id chain) {scope : Scope}
    (found : tree.find? id = some scope) (apart : ∀ above ∈ chain.dropLast, above.id ≠ start)
    {steps : Nat} (enough : chain.length ≤ steps + 1) :
    walkUp tree.scopes start steps scope = .ok () := by
  induction up generalizing scope steps with
  | root found' named =>
      cases found.symm.trans found'
      simp [walkUp, named]
  | @child id parent below chain found' named up ih =>
      cases found.symm.trans found'
      rw [List.dropLast_concat] at apart
      obtain ⟨above, ending, stored⟩ := up.ends
      have listed : above ∈ chain := List.mem_of_getLast? ending
      have different : parent ≠ start := identified _ _ stored ▸ apart above listed
      have positive : 0 < chain.length := List.length_pos_of_mem listed
      rw [List.length_append, List.length_singleton] at enough
      obtain ⟨steps, rfl⟩ := Nat.exists_eq_add_one.mpr (show 0 < steps by omega)
      rw [find?] at stored
      rw [walkUp]
      simp only [named, if_neg different, stored]
      exact ih stored (fun other first => apart other (List.dropLast_subset chain first)) (by omega)

/-- A walk up that ends at a root is not taken for a cycle. -/
theorem checkCycle_of_ancestry {tree : ScopeTree}
    (identified : ∀ id scope, tree.find? id = some scope → scope.id = id) {scope : Scope}
    {chain : List Scope} (up : tree.Ancestry scope.id chain)
    (stored : tree.find? scope.id = some scope) : checkCycle tree.scopes scope = .ok () := by
  have short := Nat.le_succ_of_le (up.length_le identified)
  refine walkUp_of_ancestry identified up stored (fun above listed same => ?_) short
  -- the scope ends its own chain, in which no identifier repeats
  obtain ⟨last, ending, found⟩ := up.ends
  obtain ⟨front, rfl⟩ := List.getLast?_eq_some_iff.mp ending
  rw [List.dropLast_concat] at listed
  have distinct := up.distinct identified
  rw [List.map_append, List.nodup_append] at distinct
  exact distinct.2.2 above.id (List.mem_map_of_mem listed) last.id (by simp)
    (same.trans (identified _ _ found).symm)

theorem Formed.checkCycle {tree : ScopeTree} (formed : tree.Formed) {scope : Scope}
    (stored : tree.find? scope.id = some scope) : checkCycle tree.scopes scope = .ok () := by
  obtain ⟨chain, up⟩ := formed.exists_ancestry stored
  exact checkCycle_of_ancestry formed.named up stored

/-! ## Building -/

theorem forest_of_ofList {list : List Scope} {tree : ScopeTree} (built : ofList list = .ok tree) :
    Forest list := by
  obtain ⟨formed, found⟩ := ofList_eq_ok built
  obtain ⟨_, indexed, _⟩ := ofList_eq_ok_iff.mp built
  have distinct := nodup_of_index indexed
  refine ⟨distinct, fun scope listed parent named => ?_⟩
  have stored : tree.find? scope.id = some scope := by
    rw [found, find?_of_distinct distinct listed]
  obtain ⟨above, stored', higher⟩ := formed.linked _ scope parent stored named
  exact ⟨above, List.mem_of_find?_eq_some (found parent ▸ stored'), formed.named _ _ stored', higher⟩

theorem Forest.ofList {list : List Scope} (forest : Forest list) :
    ∃ tree, ofList list = .ok tree := by
  obtain ⟨scopes, indexed, formed, stored⟩ := forest.index
  refine ⟨ofScopes scopes, ofList_eq_ok_iff.mpr ⟨scopes, indexed, ?_, ?_, ?_, rfl⟩⟩
  · exact checkEach_eq_ok_iff.mpr fun scope value => formed.checkParent (stored scope value)
  · exact checkEach_eq_ok_iff.mpr fun scope value => formed.checkCycle (stored scope value)
  · exact checkEach_eq_ok_iff.mpr fun scope value => formed.checkDepth (stored scope value)

theorem ofList_isOk_iff {list : List Scope} : (∃ tree, ofList list = .ok tree) ↔ Forest list :=
  ⟨fun ⟨_, built⟩ => forest_of_ofList built, Forest.ofList⟩

theorem find?_of_listed {list : List Scope} {tree : ScopeTree} (built : ofList list = .ok tree)
    {scope : Scope} (listed : scope ∈ list) : tree.find? scope.id = some scope := by
  rw [(ofList_eq_ok built).2, find?_of_distinct (forest_of_ofList built).distinct listed]

end ScopeTree

end Governance
