import Governance.Effective.Compute
import Governance.Proofs.Effective.Fields
import Governance.Proofs.SortedMap.Ranked

/-!
# The order of application and its beginnings

The policies of a chain are applied by the place of their scope and, at one scope, by identifier.
Policies that stand in this order are applied as they stand, and so is every beginning of them. A
merge of all of them begins with the merge of such a beginning.
-/

set_option autoImplicit false

namespace Governance

namespace ScopedPolicy

variable {chain : List Scope} {policies ordered : List ScopedPolicy}

theorem mayPrecede_iff {left right : Nat × ScopedPolicy} :
    mayPrecede left right = true ↔
      RankedBefore (· < ·) left.1 left.2.id right.1 right.2.id := by
  simp [mayPrecede, RankedBefore]

theorem mayPrecede_trans (a b c : Nat × ScopedPolicy) (first : mayPrecede a b = true)
    (second : mayPrecede b c = true) : mayPrecede a c = true := by
  rw [mayPrecede_iff] at *
  exact rankedBefore_trans first second fun _ _ _ => Nat.lt_trans

theorem mayPrecede_total (a b : Nat × ScopedPolicy) :
    (mayPrecede a b || mayPrecede b a) = true := by
  rw [Bool.or_eq_true, mayPrecede_iff, mayPrecede_iff]
  exact rankedBefore_total (fun _ _ => Nat.lt_or_gt_of_ne) _ _ _ _

theorem placeAll_eq_ok_iff {placed : List (Nat × ScopedPolicy)} :
    placeAll chain policies = .ok placed ↔ placed.map Prod.snd = policies ∧
      ∀ item ∈ placed, chain.findIdx? (fun scope => scope.id = item.2.scope) = some item.1 := by
  induction policies generalizing placed with
  | nil =>
      constructor
      · intro succeeded
        cases succeeded
        exact ⟨rfl, fun item listed => nomatch listed⟩
      · intro shape
        rw [List.map_eq_nil_iff.mp shape.1]
        rfl
  | cons policy rest ih =>
      rw [placeAll]
      constructor
      · intro succeeded
        cases found : chain.findIdx? fun scope => scope.id = policy.scope with
        | none => simp [found] at succeeded
        | some place =>
            cases others : placeAll chain rest with
            | error problem => simp [found, others, Except.map] at succeeded
            | ok tail =>
                simp only [found, others, Except.map, Except.ok.injEq] at succeeded
                obtain ⟨same, places⟩ := ih.mp others
                subst succeeded
                refine ⟨congrArg (policy :: ·) same, fun item listed => ?_⟩
                cases listed with
                | head => exact found
                | tail _ listed => exact places item listed
      · intro shape
        obtain ⟨same, places⟩ := shape
        cases placed with
        | nil => cases same
        | cons item tail =>
            obtain ⟨rfl, rest_same⟩ := List.cons.inj same
            have others := ih.mpr ⟨rest_same, fun other listed =>
              places other (List.mem_cons_of_mem _ listed)⟩
            simp only [places item List.mem_cons_self, others, Except.map]

/-- The order of application lists the same policies, and whatever beginning of it is given is
applied as it stands. -/
theorem applicationOrder_eq_ok (succeeded : applicationOrder chain policies = .ok ordered) :
    ordered.Perm policies ∧
      ∀ count, applicationOrder chain (ordered.take count) = .ok (ordered.take count) := by
  unfold applicationOrder at succeeded
  cases found : placeAll chain policies with
  | error problem => simp [found, Except.map] at succeeded
  | ok placed =>
      rw [found] at succeeded
      cases succeeded
      obtain ⟨same, places⟩ := placeAll_eq_ok_iff.mp found
      have perm := List.mergeSort_perm placed mayPrecede
      have sorted := List.pairwise_mergeSort mayPrecede_trans mayPrecede_total placed
      refine ⟨same ▸ perm.map Prod.snd, fun count => ?_⟩
      have again : placeAll chain (((placed.mergeSort mayPrecede).map Prod.snd).take count) =
          .ok ((placed.mergeSort mayPrecede).take count) := by
        refine placeAll_eq_ok_iff.mpr ⟨List.map_take, fun item listed => ?_⟩
        exact places item (perm.mem_iff.mp (List.mem_of_mem_take listed))
      rw [applicationOrder, again, Except.map,
        List.mergeSort_of_pairwise (sorted.sublist (List.take_sublist count _)), List.map_take]

/-- Whether a policy comes before another one along a chain: its scope stands further up, or it has
the smaller identifier at the same place. -/
def Before (chain : List Scope) (policy other : ScopedPolicy) : Prop :=
  ∃ place place', chain.findIdx? (fun scope => scope.id = policy.scope) = some place ∧
    chain.findIdx? (fun scope => scope.id = other.scope) = some place' ∧
    (place < place' ∨ (place = place' ∧ policy.id < other.id))

theorem scope_eq_of_place {policy other : ScopedPolicy} {place : Nat}
    (found : chain.findIdx? (fun scope => scope.id = policy.scope) = some place)
    (found' : chain.findIdx? (fun scope => scope.id = other.scope) = some place) :
    policy.scope = other.scope := by
  obtain ⟨_, named, _⟩ := List.findIdx?_eq_some_iff_getElem.mp found
  obtain ⟨_, named', _⟩ := List.findIdx?_eq_some_iff_getElem.mp found'
  exact (of_decide_eq_true named).symm.trans (of_decide_eq_true named')

/-- Policies that are told apart by scope and identifier are applied along the chain. -/
theorem pairwise_before
    (distinct : (policies.map fun policy => (policy.scope, policy.id)).Nodup)
    (succeeded : applicationOrder chain policies = .ok ordered) : ordered.Pairwise (Before chain) := by
  unfold applicationOrder at succeeded
  cases found : placeAll chain policies with
  | error problem => simp [found, Except.map] at succeeded
  | ok placed =>
      rw [found] at succeeded
      cases succeeded
      obtain ⟨same, places⟩ := placeAll_eq_ok_iff.mp found
      have perm := List.mergeSort_perm placed mayPrecede
      have sorted := List.pairwise_mergeSort mayPrecede_trans mayPrecede_total placed
      have apart : (placed.mergeSort mayPrecede).Pairwise fun item other =>
          (item.2.scope, item.2.id) ≠ (other.2.scope, other.2.id) := by
        rw [← same, List.map_map] at distinct
        exact List.pairwise_map.mp ((perm.map _).nodup_iff.mpr distinct)
      rw [List.pairwise_map]
      refine (sorted.and apart).imp_of_mem fun {item other} listed listed' both => ?_
      have place := places item (perm.mem_iff.mp listed)
      have place' := places other (perm.mem_iff.mp listed')
      refine ⟨item.1, other.1, place, place', ?_⟩
      rcases mayPrecede_iff.mp both.1 with above | ⟨samePlace, notGreater⟩
      · exact .inl above
      · refine .inr ⟨samePlace, Decidable.not_not.mp fun notLess => both.2 ?_⟩
        exact Prod.ext (scope_eq_of_place place (samePlace ▸ place'))
          (KeyOrder.total notLess notGreater)

/-- Policies that are told apart by scope and identifier are before or after a place, not both. -/
theorem not_mem_take_of_mem_drop
    (distinct : (ordered.map fun policy => (policy.scope, policy.id)).Nodup) {count : Nat}
    {earlier later : ScopedPolicy} (front : earlier ∈ ordered.take count)
    (back : later ∈ ordered.drop count) :
    ¬ (earlier.scope = later.scope ∧ earlier.id = later.id) := by
  intro same
  rw [← List.take_append_drop count ordered, List.map_append] at distinct
  have apart := (List.nodup_append.mp distinct).2.2 _ (List.mem_map_of_mem front) _
    (List.mem_map_of_mem back)
  exact apart (Prod.ext same.1 same.2)

end ScopedPolicy

namespace InheritanceSettings

theorem applyAll_append_eq_ok {settings : InheritanceSettings} {front back : List ScopedPolicy}
    {state final : MergeState} (applied : settings.applyAll (front ++ back) state = .ok final) :
    ∃ middle, settings.applyAll front state = .ok middle ∧
      settings.applyAll back middle = .ok final := by
  induction front generalizing state with
  | nil => exact ⟨state, rfl, applied⟩
  | cons policy front ih =>
      obtain ⟨next, first, rest⟩ := applyAll_cons_eq_ok applied
      obtain ⟨middle, front_applied, back_applied⟩ := ih rest
      refine ⟨middle, ?_, back_applied⟩
      rw [applyAll, first]
      exact front_applied

end InheritanceSettings

end Governance
