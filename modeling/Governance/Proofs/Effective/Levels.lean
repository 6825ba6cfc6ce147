import Governance.Proofs.Effective.Listing
import Governance.Proofs.Sorting

/-!
# The order of application along a longer chain

Sorting is stable, so it sorts any part of a list as it sorts the whole. Along a chain that goes one
scope further down, the policies of the longer chain are therefore applied in two stages: those of
the shorter chain as they are applied there, and then those of the scope that was added.
-/

set_option autoImplicit false

namespace Governance

/-! ## A scope further down -/

namespace ScopedPolicy

variable {chain : List Scope} {scope : Scope} {policies : List ScopedPolicy}

theorem place_of_append {policy : ScopedPolicy} {place : Nat}
    (found : (chain ++ [scope]).findIdx? (fun other => other.id = policy.scope) = some place) :
    (place < chain.length ∧ chain.findIdx? (fun other => other.id = policy.scope) = some place) ∨
      (place = chain.length ∧ ¬ policy.IsAttached chain ∧ scope.id = policy.scope) := by
  rw [List.findIdx?_append] at found
  cases above : chain.findIdx? fun other => other.id = policy.scope with
  | some place' =>
      rw [above] at found
      cases found
      exact .inl ⟨(List.findIdx?_eq_some_iff_getElem.mp above).1, rfl⟩
  | none =>
      rw [above, List.findIdx?_singleton] at found
      by_cases named : scope.id = policy.scope
      · simp only [named, decide_true, if_true, Option.map_some, Option.none_or, Nat.zero_add,
          Option.some.injEq] at found
        exact .inr ⟨found.symm, not_isAttached_of_findIdx? above, named⟩
      · simp [named] at found

theorem placeAll_policiesOf {placed : List (Nat × ScopedPolicy)}
    (succeeded : placeAll (chain ++ [scope]) policies = .ok placed) :
    placeAll chain (InheritanceSettings.policiesOf chain policies) =
      .ok (placed.filter fun item => item.1 < chain.length) := by
  obtain ⟨same, places⟩ := placeAll_eq_ok_iff.mp succeeded
  refine placeAll_eq_ok_iff.mpr ⟨?_, fun item listed => ?_⟩
  · rw [InheritanceSettings.policiesOf, ← same, List.filter_map]
    refine congrArg (List.map Prod.snd) (List.filter_congr fun item listed => ?_)
    rw [Bool.eq_iff_iff, decide_eq_true_iff]
    rcases place_of_append (places item listed) with ⟨above, found⟩ | ⟨below, detached, _⟩
    · obtain ⟨other, listed', named⟩ := isAttached_iff_findIdx?.mpr ⟨item.1, found⟩
      simpa [above] using ⟨other, listed', named⟩
    · simp only [below, Nat.lt_irrefl, false_iff]
      simpa [IsAttached] using detached
  · obtain ⟨listed, above⟩ := List.mem_filter.mp listed
    rcases place_of_append (places item listed) with ⟨_, found⟩ | ⟨below, _⟩
    · exact found
    · simp [below] at above

/-- The policies of the scope that was added are applied after all others, which are applied as
they are along the shorter chain. -/
theorem applicationOrder_append (attached : ∀ policy ∈ policies, policy.IsAttached (chain ++ [scope])) :
    ∃ above below,
      applicationOrder chain (InheritanceSettings.policiesOf chain policies) = .ok above ∧
      applicationOrder (chain ++ [scope]) policies = .ok (above ++ below) ∧
      ∀ policy ∈ below, policy ∈ InheritanceSettings.policiesOf [scope] policies := by
  rcases placeAll_cases (chain ++ [scope]) policies with
    ⟨_, placed, succeeded⟩ | ⟨policy, listed, detached, _⟩
  · obtain ⟨same, places⟩ := placeAll_eq_ok_iff.mp succeeded
    have downward : ∀ a b, mayPrecede a b = true → decide (b.1 < chain.length) = true →
        decide (a.1 < chain.length) = true := by
      intro a b before above
      simp only [decide_eq_true_eq] at above ⊢
      rcases mayPrecede_iff.mp before with less | ⟨level, _⟩
      · omega
      · omega
    refine ⟨((placed.filter fun item => item.1 < chain.length).mergeSort mayPrecede).map Prod.snd,
      ((placed.filter fun item => !decide (item.1 < chain.length)).mergeSort mayPrecede).map Prod.snd,
      ?_, ?_, fun policy listed => ?_⟩
    · rw [applicationOrder, placeAll_policiesOf succeeded, Except.map]
    · rw [applicationOrder, succeeded, Except.map,
        mergeSort_eq_append mayPrecede_trans mayPrecede_total downward, List.map_append]
    · obtain ⟨item, sorted, rfl⟩ := List.mem_map.mp listed
      obtain ⟨listed, further⟩ := List.mem_filter.mp (List.mem_mergeSort.mp sorted)
      rcases place_of_append (places item listed) with ⟨above, _⟩ | ⟨_, _, named⟩
      · simp [above] at further
      · rw [InheritanceSettings.policiesOf, List.mem_filter]
        exact ⟨same ▸ List.mem_map_of_mem listed, by simpa using named⟩
  · exact absurd (attached policy listed) detached

end ScopedPolicy

end Governance
