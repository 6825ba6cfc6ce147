import Governance.Proofs.Effective.Hierarchy
import Governance.Proofs.Scope.Building

/-!
# Which chains a computation accepts

Two checks decide what a chain is. The check before a merge looks at neighbours in the list; a tree
looks at parents. They agree on everything but the scope in front, of which the first one asks
nothing: it accepts the lower end of a chain of ancestors as if it were the whole of it.
-/

set_option autoImplicit false

namespace Governance

namespace Scope

/-- A chain in front of which stands a scope without a parent. -/
def Rooted (chain : List Scope) : Prop :=
  ∃ top, chain.head? = some top ∧ top.parent = none

def uprooted : List Scope → List Scope
  | [] => []
  | top :: rest => { top with parent := none } :: rest

theorem rooted_uprooted {chain : List Scope} (nonempty : chain ≠ []) : Rooted (uprooted chain) := by
  cases chain with
  | nil => contradiction
  | cons top rest => exact ⟨_, rfl, rfl⟩

theorem nonempty_of_checkChain {target : ScopeId} {chain : List Scope}
    (checked : checkChain target chain = .ok ()) : chain ≠ [] := by
  rintro rfl
  cases checked

/-- The check never looks at the parent of the scope in front. -/
theorem checkChain_uprooted_iff {target : ScopeId} {chain : List Scope} :
    checkChain target (uprooted chain) = .ok () ↔ checkChain target chain = .ok () := by
  rw [checkChain_eq_ok_iff, checkChain_eq_ok_iff]
  cases chain with
  | nil => rfl
  | cons top rest =>
      have follows : (uprooted (top :: rest)).IsChain MayFollow ↔ (top :: rest).IsChain MayFollow := by
        cases rest with
        | nil => simp [uprooted]
        | cons below rest => simp [uprooted, List.isChain_cons_cons, MayFollow]
      rw [follows, uprooted]
      cases rest <;> simp

theorem parent_of_follows {front back : List Scope} {above below : Scope}
    (follows : (front.concat above ++ below :: back).IsChain MayFollow) :
    below.parent = some above.id ∧ above.type.depth < below.type.depth := by
  rw [List.concat_eq_append, List.append_assoc] at follows
  exact (List.isChain_cons_cons.mp (List.isChain_append.mp follows).2.1).1

end Scope

namespace ScopeTree

variable {tree : ScopeTree} {scopes chain : List Scope} {target : ScopeId}

/-- A rooted chain that passes the check lists every parent it names. -/
theorem forest_of_checkChain (checked : Scope.checkChain target chain = .ok ())
    (rooted : Scope.Rooted chain) : Forest chain := by
  obtain ⟨_, distinct, follows⟩ := Scope.checkChain_eq_ok_iff.mp checked
  refine ⟨distinct, fun scope listed parent named => ?_⟩
  obtain ⟨front, back, rfl⟩ := List.append_of_mem listed
  rcases List.eq_nil_or_concat front with rfl | ⟨front, above, rfl⟩
  · obtain ⟨top, first, none⟩ := rooted
    cases first
    rw [named] at none
    cases none
  · obtain ⟨linked, higher⟩ := Scope.parent_of_follows follows
    rw [named, Option.some.injEq] at linked
    exact ⟨above, by simp, linked.symm, higher⟩

/-- Linked scopes of a tree that end at a scope are the lower end of its ancestors. -/
theorem Ancestry.isSuffix {id : ScopeId} {whole : List Scope} (up : tree.Ancestry id whole)
    (stored : ∀ scope ∈ chain, tree.find? scope.id = some scope)
    (follows : chain.IsChain Scope.MayFollow) {last : Scope} (found : tree.find? id = some last)
    (ends : chain.getLast? = some last) : chain <:+ whole := by
  induction up generalizing chain last with
  | root found' named =>
      cases found.symm.trans found'
      obtain ⟨front, rfl⟩ := List.getLast?_eq_some_iff.mp ends
      rcases List.eq_nil_or_concat front with rfl | ⟨front, above, rfl⟩
      · exact List.suffix_rfl
      · cases named.symm.trans (Scope.parent_of_follows follows).1
  | @child id parent scope whole found' named up ih =>
      cases found.symm.trans found'
      obtain ⟨front, rfl⟩ := List.getLast?_eq_some_iff.mp ends
      rcases List.eq_nil_or_concat front with rfl | ⟨front, above, rfl⟩
      · exact List.suffix_append whole [scope]
      · -- the scope in front of the last one is the parent that the tree knows
        cases named.symm.trans (Scope.parent_of_follows follows).1
        have upper := (List.isChain_append.mp follows).1
        have within : front.concat above <:+ whole :=
          ih (fun other listed => stored other (List.mem_append_left _ listed)) upper
            (stored above (by simp)) (by simp)
        obtain ⟨left, rfl⟩ := within
        exact ⟨left, (List.append_assoc left (front.concat above) [scope]).symm⟩

/-- The lower end of a chain of ancestors is all of it exactly if it is rooted. -/
theorem Ancestry.rooted_iff (formed : tree.Formed) {id : ScopeId} {left : List Scope}
    (up : tree.Ancestry id (left ++ chain)) (nonempty : chain ≠ []) :
    left = [] ↔ Scope.Rooted chain := by
  constructor
  · rintro rfl
    exact up.begins
  · rintro ⟨top, first, named⟩
    rcases List.eq_nil_or_concat left with rfl | ⟨left, above, rfl⟩
    · rfl
    · obtain ⟨rest, rfl⟩ := List.head?_eq_some_iff.mp first
      cases named.symm.trans (Scope.parent_of_follows (up.mayFollow formed)).1

/-- In a tree with the scopes of a chain that passes the check, the chain is the lower end of the
ancestors of its target. -/
theorem ancestorChain_of_checkChain (built : ofList scopes = .ok tree)
    (within : ∀ scope ∈ chain, scope ∈ scopes)
    (checked : Scope.checkChain target chain = .ok ()) :
    ∃ left, tree.ancestorChain target = .ok (left ++ chain) ∧ (left = [] ↔ Scope.Rooted chain) := by
  obtain ⟨formed, _⟩ := ofList_eq_ok built
  have stored : ∀ scope ∈ chain, tree.find? scope.id = some scope := fun scope listed =>
    find?_of_listed built (within scope listed)
  obtain ⟨ends, _, follows⟩ := Scope.checkChain_eq_ok_iff.mp checked
  obtain ⟨last, ending, rfl⟩ := Option.map_eq_some_iff.mp ends
  have found := stored last (List.mem_of_getLast? ending)
  obtain ⟨whole, up, _, walks⟩ := formed.chainAbove found
  obtain ⟨left, rfl⟩ := up.isSuffix stored follows found ending
  exact ⟨left, walks tree.size (Nat.le_refl _),
    up.rooted_iff formed (Scope.nonempty_of_checkChain checked)⟩

/-- A list is the chain of a target in its own tree exactly if it is rooted and passes the check. -/
theorem ancestorChain_ofList_iff :
    (∃ tree, ofList chain = .ok tree ∧ tree.ancestorChain target = .ok chain) ↔
      Scope.checkChain target chain = .ok () ∧ Scope.Rooted chain := by
  constructor
  · rintro ⟨tree, built, walked⟩
    obtain ⟨formed, _⟩ := ofList_eq_ok built
    cases found : tree.find? target with
    | none =>
        rw [ancestorChain_eq_error found] at walked
        cases walked
    | some scope =>
        obtain ⟨whole, up, _, walks⟩ := formed.chainAbove found
        rw [ancestorChain, walks tree.size (Nat.le_refl _)] at walked
        cases walked
        exact ⟨up.checkChain formed, up.begins⟩
  · rintro ⟨checked, rooted⟩
    obtain ⟨tree, built⟩ := (forest_of_checkChain checked rooted).ofList
    obtain ⟨left, walked, whole⟩ := ancestorChain_of_checkChain built (fun _ listed => listed) checked
    cases whole.mpr rooted
    exact ⟨tree, built, walked⟩

end ScopeTree

namespace InheritanceSettings

/-- Without policies nothing but the chain can be at fault. -/
theorem compute_nil_isOk_iff {settings : InheritanceSettings} {target : ScopeId}
    {chain : List Scope} :
    (∃ outcome, settings.compute target chain [] = .ok outcome) ↔
      Scope.checkChain target chain = .ok () := by
  constructor
  · rintro ⟨outcome, computed⟩
    obtain ⟨state, merged, _⟩ := compute_eq_ok computed
    exact (mergeChain_eq_ok merged).1
  · intro checked
    have placed : ScopedPolicy.applicationOrder chain [] = .ok [] := by
      simp [ScopedPolicy.applicationOrder, ScopedPolicy.placeAll, Except.map]
    obtain ⟨outcome, computed, _⟩ := compute_of_applyAll checked placed
      (show settings.applyAll [] {} = .ok {} from rfl) rfl rfl
    exact ⟨outcome, computed⟩

/-- A chain without a parent in front is accepted exactly if it is the chain of its target in its
own tree. Of any other chain the parent in front is overlooked, so that in a tree with its scopes it
is a proper part of the ancestors. -/
theorem compute_accepts_iff (settings : InheritanceSettings) (target : ScopeId)
    (chain : List Scope) :
    ((∃ tree, ScopeTree.ofList chain = .ok tree ∧ tree.ancestorChain target = .ok chain) ↔
      (∃ outcome, settings.compute target chain [] = .ok outcome) ∧ Scope.Rooted chain) ∧
    ((∃ outcome, settings.compute target chain [] = .ok outcome) ↔
      ∃ tree, ScopeTree.ofList (Scope.uprooted chain) = .ok tree ∧
        tree.ancestorChain target = .ok (Scope.uprooted chain)) ∧
    ∀ scopes tree, ScopeTree.ofList scopes = .ok tree → (∀ scope ∈ chain, scope ∈ scopes) →
      (∃ outcome, settings.compute target chain [] = .ok outcome) →
      ∃ left, tree.ancestorChain target = .ok (left ++ chain) ∧ (left = [] ↔ Scope.Rooted chain) := by
  have accepted := @compute_nil_isOk_iff settings target chain
  refine ⟨?_, ?_, fun scopes tree built within computed =>
    ScopeTree.ancestorChain_of_checkChain built within (accepted.mp computed)⟩
  · rw [accepted, ScopeTree.ancestorChain_ofList_iff]
  · rw [accepted, ScopeTree.ancestorChain_ofList_iff, Scope.checkChain_uprooted_iff, iff_self_and]
    intro checked
    exact Scope.rooted_uprooted (Scope.nonempty_of_checkChain checked)

/-- The company stands above the brand, and the chain of the brand alone leaves it out. -/
theorem compute_accepts_iff_brandScope :
    (∃ outcome, compute {} brandScope.id [brandScope] [] = .ok outcome) ∧
      ∃ tree, ScopeTree.ofList [companyScope, brandScope] = .ok tree ∧
        ∃ left, tree.ancestorChain brandScope.id = .ok (left ++ [brandScope]) ∧ left ≠ [] := by
  have accepted : ∃ outcome, compute {} brandScope.id [brandScope] [] = .ok outcome :=
    compute_nil_isOk_iff.mpr (by decide)
  obtain ⟨tree, built⟩ : ∃ tree, ScopeTree.ofList [companyScope, brandScope] = .ok tree := ⟨_, rfl⟩
  obtain ⟨left, walked, whole⟩ := (compute_accepts_iff {} brandScope.id [brandScope]).2.2
    [companyScope, brandScope] tree built (by simp) accepted
  refine ⟨accepted, tree, built, left, walked, fun empty => ?_⟩
  obtain ⟨top, first, named⟩ := whole.mp empty
  cases first
  cases named

theorem truncated_chain_accepted :
    ¬ ((∃ outcome, compute {} brandScope.id [brandScope] [] = .ok outcome) ↔
      ∃ tree, ScopeTree.ofList [brandScope] = .ok tree ∧
        tree.ancestorChain brandScope.id = .ok [brandScope]) := by
  intro agree
  have accepted : ∃ outcome, compute {} brandScope.id [brandScope] [] = .ok outcome :=
    compute_nil_isOk_iff.mpr (by decide)
  have dangling : ScopeTree.ofList [brandScope] = .error (.unknownScope companyScope.id) := rfl
  obtain ⟨tree, built, _⟩ := agree.mp accepted
  cases dangling.symm.trans built

end InheritanceSettings

end Governance
