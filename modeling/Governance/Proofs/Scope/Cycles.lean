import Governance.Proofs.Scope.Faults

/-!
# Which scope is named for a cycle

A list with a cycle is reported with one scope: the one with the least identifier among all those
from which links to parents never reach a root. Links lead from it into a cycle. It need not lie on
one: a scope that only leads into a cycle is named if its identifier comes first.
-/

set_option autoImplicit false

namespace Governance.ScopeTree

/-- Whether following links to parents from a scope, once or more often, comes back to it. -/
def OnCycle (list : List Scope) (id : ScopeId) : Prop :=
  Relation.TransGen (Names list) id id

/-- Whether a scope comes first, by identifier, among the listed scopes from which no root is
reached. -/
structure LeastEndless (list : List Scope) (id : ScopeId) : Prop where
  listed : id ∈ list.map Scope.id
  endless : ¬ ReachesRoot list id
  least : ∀ scope ∈ list, ¬ ReachesRoot list scope.id → ¬ scope.id < id

variable {list : List Scope} {id parent : ScopeId}

/-! ## Links -/

theorem Names.unique (distinct : (list.map Scope.id).Nodup) (named : Names list id parent)
    {other : ScopeId} (named' : Names list id other) : parent = other := by
  obtain ⟨scope, listed, rfl, above⟩ := named
  obtain ⟨scope', listed', same, above'⟩ := named'
  cases List.inj_on_of_nodup_map distinct listed' listed same
  exact Option.some.inj (above.symm.trans above')

theorem Names.mem (named : Names list id parent) : id ∈ list.map Scope.id := by
  obtain ⟨scope, listed, rfl, _⟩ := named
  exact List.mem_map_of_mem listed

theorem Names.reachesRoot (named : Names list id parent) (reaches : ReachesRoot list parent) :
    ReachesRoot list id := by
  obtain ⟨root, listed, top, path⟩ := reaches
  exact ⟨root, listed, top, .head named path⟩

/-- From a scope that is no root and has its parent listed, links go on. -/
theorem exists_names (closed : Closed list) (listed : id ∈ list.map Scope.id)
    (endless : ¬ ReachesRoot list id) :
    ∃ parent, Names list id parent ∧ parent ∈ list.map Scope.id ∧ ¬ ReachesRoot list parent := by
  obtain ⟨scope, present, rfl⟩ := List.mem_map.mp listed
  cases above : scope.parent with
  | none => exact absurd ⟨scope, present, above, .refl⟩ endless
  | some parent =>
      have named : Names list scope.id parent := ⟨scope, present, rfl, above⟩
      exact ⟨parent, named, closed scope present parent above,
        fun reaches => endless (named.reachesRoot reaches)⟩

/-! ## Cycles -/

theorem OnCycle.next (distinct : (list.map Scope.id).Nodup) (cycle : OnCycle list id)
    (named : Names list id parent) : OnCycle list parent := by
  obtain ⟨_, step, back⟩ := Relation.TransGen.head'_iff.mp cycle
  obtain rfl := named.unique distinct step
  exact .tail' back named

theorem OnCycle.mem (cycle : OnCycle list id) : id ∈ list.map Scope.id := by
  obtain ⟨_, step, _⟩ := Relation.TransGen.head'_iff.mp cycle
  exact step.mem

theorem OnCycle.endless (distinct : (list.map Scope.id).Nodup) (cycle : OnCycle list id) :
    ¬ ReachesRoot list id := by
  rintro ⟨root, listed, top, path⟩
  induction path using Relation.ReflTransGen.head_induction_on with
  | refl =>
      obtain ⟨_, ⟨scope, present, same, above⟩, _⟩ := Relation.TransGen.head'_iff.mp cycle
      cases List.inj_on_of_nodup_map distinct present listed same
      cases top.symm.trans above
  | head step _ ih => exact ih (cycle.next distinct step)

/-- A walk that passes listed scopes without end comes to a cycle: the scopes that have been passed
are distinct and lead to the present one, and there are no more than the list has. -/
theorem exists_onCycle_of_passed (closed : Closed list) {passed : List ScopeId} {left : Nat}
    (listed : id ∈ list.map Scope.id) (endless : ¬ ReachesRoot list id)
    (distinct : (id :: passed).Nodup) (within : passed ⊆ list.map Scope.id)
    (leads : ∀ earlier ∈ passed, Relation.TransGen (Names list) earlier id)
    (enough : list.length ≤ passed.length + left) :
    ∃ met, Relation.ReflTransGen (Names list) id met ∧ OnCycle list met := by
  induction left generalizing id passed with
  | zero =>
      have subset : id :: passed ⊆ list.map Scope.id := List.cons_subset.mpr ⟨listed, within⟩
      have shorter := (List.subperm_of_subset distinct subset).length_le
      rw [List.length_cons, List.length_map] at shorter
      omega
  | succ left ih =>
      obtain ⟨parent, named, listed', endless'⟩ := exists_names closed listed endless
      by_cases met : parent ∈ id :: passed
      · rcases List.mem_cons.mp met with rfl | earlier
        · exact ⟨parent, .refl, .single named⟩
        · exact ⟨parent, .single named, (leads parent earlier).tail named⟩
      · obtain ⟨met, path, cycle⟩ := ih listed' endless' (List.nodup_cons.mpr ⟨met, distinct⟩)
          (List.cons_subset.mpr ⟨listed, within⟩)
          (List.forall_mem_cons.mpr ⟨.single named, fun earlier before =>
            (leads earlier before).tail named⟩)
          (by rw [List.length_cons]; omega)
        exact ⟨met, .head named path, cycle⟩

theorem exists_onCycle (closed : Closed list) (listed : id ∈ list.map Scope.id)
    (endless : ¬ ReachesRoot list id) :
    ∃ met, Relation.ReflTransGen (Names list) id met ∧ OnCycle list met :=
  exists_onCycle_of_passed closed listed endless (List.nodup_singleton id) (List.nil_subset _)
    (List.forall_mem_nil _) (Nat.le_add_left list.length _)

/-! ## The scope that is named -/

theorem ascending_values {scopes : SortedMap ScopeId Scope} (indexed : index list {} = .ok scopes) :
    scopes.values.Pairwise fun first second => first.id < second.id := by
  refine List.pairwise_map.mpr (scopes.ascending.imp_of_mem ?_)
  intro first second listed listed' less
  rw [id_of_index indexed (SortedMap.find?_eq_some_iff.mpr listed),
    id_of_index indexed (SortedMap.find?_eq_some_iff.mpr listed')]
  exact less

/-- With distinct identifiers and listed parents, the first scope from which no root is reached is
named. -/
theorem exists_ofList_eq_scopeCycle (distinct : (list.map Scope.id).Nodup) (closed : Closed list)
    (looping : ∃ scope ∈ list, ¬ ReachesRoot list scope.id) :
    ∃ id, ofList list = .error (.scopeCycle id) ∧ LeastEndless list id := by
  obtain ⟨scopes, indexed⟩ : ∃ scopes, index list {} = .ok scopes :=
    index_of_nodup distinct fun scope _ => SortedMap.find?_empty scope.id
  have parents := (closed_iff_checkEach indexed).mpr closed
  cases cycles : checkEach (checkCycle scopes) scopes.values with
  | ok =>
      obtain ⟨scope, listed, endless⟩ := looping
      exact absurd ((reachesRoot_iff_checkEach indexed closed).mp cycles scope listed) endless
  | error problem =>
      obtain ⟨front, scope, back, split, passed, failed⟩ := checkEach_eq_error cycles
      have values : ∀ other, other ∈ front ++ scope :: back ↔ other ∈ list := fun other =>
        split ▸ mem_values_of_index indexed
      have listed := (values scope).mp (List.mem_append_right _ List.mem_cons_self)
      rcases checkCycle_cases indexed closed listed with ⟨passed', _⟩ | ⟨refused, endless⟩
      · cases passed'.symm.trans failed
      · cases refused.symm.trans failed
        refine ⟨scope.id, ?_, List.mem_map_of_mem listed, endless, fun other present endless' => ?_⟩
        · simp only [ofList_of_index indexed, parents, cycles, bind, Except.bind]
        · -- scopes in front of the named one have passed, and those behind it come later
          have ascending := ascending_values indexed
          rw [split, List.pairwise_append, List.pairwise_cons] at ascending
          rcases List.mem_append.mp ((values other).mpr present) with before | behind
          · rcases checkCycle_cases indexed closed present with ⟨_, reaches⟩ | ⟨refused', _⟩
            · exact absurd reaches endless'
            · cases (passed other before).symm.trans refused'
          · rcases List.mem_cons.mp behind with rfl | later
            · exact KeyOrder.irrefl other.id
            · exact fun less => KeyOrder.irrefl _ (KeyOrder.trans less (ascending.2.1.1 other later))

theorem LeastEndless.unique (least : LeastEndless list id) {other : ScopeId}
    (least' : LeastEndless list other) : id = other := by
  obtain ⟨scope, listed, rfl⟩ := List.mem_map.mp least.listed
  obtain ⟨scope', listed', rfl⟩ := List.mem_map.mp least'.listed
  exact KeyOrder.total (least'.least scope listed least.endless)
    (least.least scope' listed' least'.endless)

theorem ofList_eq_scopeCycle_iff :
    ofList list = .error (.scopeCycle id) ↔
      (list.map Scope.id).Nodup ∧ Closed list ∧ LeastEndless list id := by
  constructor
  · intro refused
    have ending := ending_ofList list
    rw [refused] at ending
    cases ending with
    | endless distinct closed listed endless =>
        obtain ⟨other, refused', least⟩ :=
          exists_ofList_eq_scopeCycle distinct closed ⟨_, listed, endless⟩
        cases refused.symm.trans refused'
        exact ⟨distinct, closed, least⟩
  · rintro ⟨distinct, closed, least⟩
    obtain ⟨scope, listed, same⟩ := List.mem_map.mp least.listed
    obtain ⟨other, refused, least'⟩ :=
      exists_ofList_eq_scopeCycle distinct closed ⟨scope, listed, same ▸ least.endless⟩
    rw [refused, least.unique least']

/-- The scope that is named for a cycle is the first one from which no root is reached. Links lead
from it into a cycle. It lies on a cycle itself exactly if every scope that only leads into one
comes behind a scope that lies on one. -/
theorem scopeCycle_leads (list : List Scope) (id : ScopeId)
    (refused : ofList list = .error (.scopeCycle id)) :
    LeastEndless list id ∧
    (∃ met, Relation.ReflTransGen (Names list) id met ∧ OnCycle list met) ∧
    (OnCycle list id ↔
      ∀ scope ∈ list, ¬ ReachesRoot list scope.id → ¬ OnCycle list scope.id →
        ∃ met, OnCycle list met ∧ met < scope.id) := by
  obtain ⟨distinct, closed, least⟩ := ofList_eq_scopeCycle_iff.mp refused
  refine ⟨least, exists_onCycle closed least.listed least.endless, ?_, fun behind => ?_⟩
  · intro cycle scope listed endless apart
    refine ⟨id, cycle, Decidable.byContradiction fun notLess => apart ?_⟩
    rwa [KeyOrder.total (least.least scope listed endless) notLess]
  · obtain ⟨scope, listed, rfl⟩ := List.mem_map.mp least.listed
    refine Classical.byContradiction fun apart => ?_
    obtain ⟨met, cycle, less⟩ := behind scope listed least.endless apart
    obtain ⟨other, present, rfl⟩ := List.mem_map.mp cycle.mem
    exact least.least other present (cycle.endless distinct) less

def circularScope : Scope :=
  { id := ⟨"loop", by decide⟩, type := .enterprise, parent := some ⟨"loop", by decide⟩,
    location := "" }

def leadingScope : Scope :=
  { id := ⟨"entry", by decide⟩, type := .region, parent := some ⟨"loop", by decide⟩,
    location := "" }

theorem scopeCycle_leads_circularScope :
    ofList [circularScope] = .error (.scopeCycle circularScope.id) ∧
      OnCycle [circularScope] circularScope.id := by
  have refused : ofList [circularScope] = .error (.scopeCycle circularScope.id) := rfl
  have cycle : OnCycle [circularScope] circularScope.id :=
    .single ⟨circularScope, List.mem_singleton_self _, rfl, rfl⟩
  refine ⟨refused, (scopeCycle_leads _ _ refused).2.2.mpr ?_⟩
  intro scope listed _ apart
  cases List.mem_singleton.mp listed
  exact absurd cycle apart

/-- The only cycle is that of the second scope, and the first one is named. -/
theorem named_scope_off_cycle :
    ofList [leadingScope, circularScope] = .error (.scopeCycle leadingScope.id) ∧
      ¬ OnCycle [leadingScope, circularScope] leadingScope.id := by
  refine ⟨rfl, fun cycle => ?_⟩
  -- no scope names the first one as its parent
  obtain ⟨_, _, scope, listed, _, above⟩ := Relation.TransGen.tail'_iff.mp cycle
  rcases List.mem_cons.mp listed with rfl | last
  · exact absurd above (by decide)
  · cases List.mem_singleton.mp last
    exact absurd above (by decide)

end Governance.ScopeTree
