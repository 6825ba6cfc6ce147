import Governance.Scope.Chain
import Mathlib.Data.List.Chain
import Mathlib.Data.List.Nodup

/-!
# Which lists of scopes are chains

A list passes the check for a target exactly if it ends at the target, repeats no scope, and links
every scope to the one before it, which stands on a higher level. Nothing is asked of the scope in
front.
-/

set_option autoImplicit false

namespace Governance.Scope

def MayFollow (above below : Scope) : Prop :=
  below.parent = some above.id ∧ above.type.depth < below.type.depth

theorem checkDepth_eq_ok_iff {parent child : Scope} :
    checkDepth parent child = .ok () ↔ parent.type.depth < child.type.depth := by
  rw [checkDepth]
  split
  · rename_i shallow
    simp [shallow]
  · rename_i deeper
    simpa using deeper

theorem checkLinks_eq_ok_iff {chain : List Scope} :
    checkLinks chain = .ok () ↔ chain.IsChain MayFollow := by
  induction chain with
  | nil => simp [checkLinks]
  | cons above rest ih =>
      cases rest with
      | nil => simp [checkLinks]
      | cons below rest =>
          rw [checkLinks, List.isChain_cons_cons, MayFollow, ← checkDepth_eq_ok_iff, ← ih]
          by_cases linked : below.parent = some above.id
          · cases checkDepth above below <;> simp [linked]
          · simp [linked]

theorem firstRepeated?_eq_none_iff {seen : List ScopeId} {chain : List Scope} :
    firstRepeated? seen chain = none ↔
      (∀ scope ∈ chain, scope.id ∉ seen) ∧ (chain.map Scope.id).Nodup := by
  induction chain generalizing seen with
  | nil => simp [firstRepeated?]
  | cons scope rest ih =>
      rw [firstRepeated?]
      by_cases repeated : scope.id ∈ seen
      · simp [repeated]
      · rw [if_neg repeated, ih, List.map_cons, List.nodup_cons, List.forall_mem_cons]
        simp only [List.mem_cons, not_or, List.mem_map, not_exists, not_and]
        constructor
        · intro fresh
          exact ⟨⟨repeated, fun other listed => (fresh.1 other listed).2⟩,
            fun other listed => (fresh.1 other listed).1, fresh.2⟩
        · intro fresh
          exact ⟨fun other listed => ⟨fresh.2.1 other listed, fresh.1.2 other listed⟩, fresh.2.2⟩

theorem checkChain_eq_ok_iff {target : ScopeId} {chain : List Scope} :
    checkChain target chain = .ok () ↔
      chain.getLast?.map Scope.id = some target ∧ (chain.map Scope.id).Nodup ∧
        chain.IsChain MayFollow := by
  rw [checkChain, ← checkLinks_eq_ok_iff]
  cases ending : chain.getLast? with
  | none => simp
  | some last =>
      have distinct := @firstRepeated?_eq_none_iff [] chain
      simp only [List.not_mem_nil, not_false_eq_true, implies_true, true_and] at distinct
      by_cases named : last.id = target
      · cases repeated : firstRepeated? [] chain with
        | none => simp [named, ← distinct, repeated]
        | some id => simp [named, ← distinct, repeated]
      · simp [named]

end Governance.Scope
