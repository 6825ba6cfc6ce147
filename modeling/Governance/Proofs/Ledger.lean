import Governance.Ledger
import Governance.Proofs.Effective.Hierarchy
import Governance.Proofs.Effective.Version

/-!
# What a cascade keeps up to date

An effective policy on record is current if the policies there are now give it again, in whatever
version. A change of a policy leaves records behind at the scopes that it bore on or bears on, and
at no others. A cascade from above these scopes makes their records current, as far as they can be
computed, and does nothing when it is repeated.
-/

set_option autoImplicit false

namespace Governance

theorem InheritanceSettings.scope_of_computeInTree {settings : InheritanceSettings}
    {tree : ScopeTree} {target : ScopeId} {policies : List ScopedPolicy}
    {outcome : EffectiveOutcome}
    (computed : settings.computeInTree tree target policies = .ok outcome) :
    outcome.policy.scope = target := by
  rw [computeInTree] at computed
  cases climbed : tree.ancestorChain target with
  | error problem => simp [climbed] at computed
  | ok chain =>
      simp only [climbed] at computed
      obtain ⟨_, _, finished⟩ := finished_of_compute computed
      obtain ⟨_, _, _, rfl⟩ := outcome_eq_ok finished
      rfl

namespace Ledger

variable {ledger next : Ledger} {id : PolicyId} {scope top : ScopeId} {scopes : List ScopeId}
  {results : List (ScopeId × Except InheritanceError EffectiveOutcome)}
  {outcome : EffectiveOutcome} {stale : ScopeId → Prop}

/-! ## Records that are current -/

def computeAnew (ledger : Ledger) (scope : ScopeId) : Except InheritanceError EffectiveOutcome :=
  ledger.settings.computeInTree ledger.tree scope ledger.policies.values

/-- The record of a scope, if there is one, is what the policies give, in some version. -/
def Current (ledger : Ledger) (scope : ScopeId) : Prop :=
  ∀ policy, ledger.effective.find? scope = some policy →
    ∃ outcome, ledger.computeAnew scope = .ok outcome ∧
      policy = { outcome.policy with version := policy.version }

def CurrentExcept (ledger : Ledger) (stale : ScopeId → Prop) : Prop :=
  ∀ scope, ¬ stale scope → ledger.Current scope

theorem computeAt_of_find?_eq_none (unrecorded : ledger.effective.find? scope = none) :
    ledger.computeAt scope = ledger.computeAnew scope := by
  rw [computeAt, unrecorded, computeAnew]

theorem computeAt_of_find? {previous : EffectivePolicy}
    (recorded : ledger.effective.find? scope = some previous) (same : previous.scope = scope) :
    ledger.computeAt scope = (ledger.computeAnew scope).map (EffectiveOutcome.after previous) := by
  rw [computeAt, recorded, computeAnew, InheritanceSettings.computeInTree]
  cases ledger.tree.ancestorChain scope with
  | error problem => rfl
  | ok chain => exact InheritanceSettings.recompute_eq_map same

theorem computeAt_eq_ok (computed : ledger.computeAt scope = .ok outcome) :
    ∃ fresh, ledger.computeAnew scope = .ok fresh ∧
      outcome.policy = { fresh.policy with version := outcome.policy.version } := by
  cases recorded : ledger.effective.find? scope with
  | none =>
      rw [computeAt_of_find?_eq_none recorded] at computed
      exact ⟨outcome, computed, rfl⟩
  | some previous =>
      rw [computeAt, recorded] at computed
      cases climbed : ledger.tree.ancestorChain scope with
      | error problem => simp [climbed] at computed
      | ok chain =>
          simp only [climbed] at computed
          obtain ⟨fresh, found, rfl⟩ := InheritanceSettings.recompute_eq_ok computed
          refine ⟨fresh, ?_, rfl⟩
          simp only [computeAnew, InheritanceSettings.computeInTree, climbed, found]

def recordAfter (ledger : Ledger) (scope : ScopeId) : Option EffectivePolicy :=
  match ledger.computeAt scope with
  | .error _ => ledger.effective.find? scope
  | .ok outcome => some outcome.policy

/-- A current record is not replaced by another version of itself. -/
theorem Current.recordAfter_eq (current : ledger.Current scope) {policy : EffectivePolicy}
    (recorded : ledger.effective.find? scope = some policy) :
    ledger.recordAfter scope = some policy := by
  obtain ⟨outcome, computed, same⟩ := current policy recorded
  have owner : policy.scope = scope := by
    rw [same]
    exact InheritanceSettings.scope_of_computeInTree computed
  rw [recordAfter, computeAt_of_find? recorded owner, computed, same]
  simp [Except.map, EffectiveOutcome.after]

/-! ## Changes of a policy -/

structure DiffersAt (ledger : Ledger) (id : PolicyId) (next : Ledger) : Prop where
  settings : next.settings = ledger.settings
  tree : next.tree = ledger.tree
  effective : next.effective = ledger.effective
  policies : ∀ other, other ≠ id → next.policies.find? other = ledger.policies.find? other

theorem differsAt_put (ledger : Ledger) (policy : ScopedPolicy) :
    ledger.DiffersAt policy.id (ledger.put policy) := by
  refine ⟨rfl, rfl, rfl, fun other different => ?_⟩
  rw [put, SortedMap.find?_insert, if_neg (Ne.symm different)]

theorem differsAt_drop (ledger : Ledger) (id : PolicyId) :
    ledger.DiffersAt id (ledger.drop id) := by
  refine ⟨rfl, rfl, rfl, fun other different => ?_⟩
  rw [drop, SortedMap.find?_erase, if_neg (Ne.symm different)]

/-- Whether the policy under an identifier counts for a scope. -/
def Bears (ledger : Ledger) (id : PolicyId) (scope : ScopeId) : Prop :=
  ∃ policy, ledger.policies.find? id = some policy ∧ ledger.tree.Under policy.scope scope

theorem bears_put {policy : ScopedPolicy} :
    (ledger.put policy).Bears policy.id scope ↔ ledger.tree.Under policy.scope scope := by
  simp [Bears, put]

theorem not_bears_drop : ¬ (ledger.drop id).Bears id scope := by
  simp [Bears, drop]

/-- A scope for which no policy under the identifier counts computes what it computed before. -/
theorem computeAnew_of_differsAt (formed : ledger.tree.Formed) (differs : ledger.DiffersAt id next)
    (before : ¬ ledger.Bears id scope) (after : ¬ next.Bears id scope) :
    next.computeAnew scope = ledger.computeAnew scope := by
  rw [computeAnew, computeAnew, differs.settings, differs.tree]
  refine InheritanceSettings.computeInTree_congr formed fun chain up => ?_
  refine SortedMap.filter_values_eq fun other => ?_
  have detached : ∀ policy : ScopedPolicy, ¬ ledger.tree.Under policy.scope scope →
      ¬ (chain.any fun above => above.id = policy.scope) = true := by
    intro policy outside
    rw [ScopeTree.under_iff_mem_chain formed up] at outside
    simpa using outside
  by_cases changed : other = id
  · subst changed
    rw [Option.filter_eq_none_iff.mpr, Option.filter_eq_none_iff.mpr]
    · exact fun policy found => detached policy fun under => before ⟨policy, found, under⟩
    · refine fun policy found => detached policy fun under => after ⟨policy, found, ?_⟩
      rwa [differs.tree]
  · rw [differs.policies other changed]

theorem Current.of_differsAt (current : ledger.Current scope) (formed : ledger.tree.Formed)
    (differs : ledger.DiffersAt id next) (before : ¬ ledger.Bears id scope)
    (after : ¬ next.Bears id scope) : next.Current scope := by
  intro policy recorded
  rw [differs.effective] at recorded
  rw [computeAnew_of_differsAt formed differs before after]
  exact current policy recorded

/-! ## Computing policies again -/

structure SameSources (ledger next : Ledger) : Prop where
  settings : next.settings = ledger.settings
  tree : next.tree = ledger.tree
  policies : next.policies = ledger.policies

theorem SameSources.trans {last : Ledger} (first : ledger.SameSources next)
    (second : next.SameSources last) : ledger.SameSources last :=
  ⟨second.settings.trans first.settings, second.tree.trans first.tree,
    second.policies.trans first.policies⟩

theorem SameSources.computeAnew (same : ledger.SameSources next) (scope : ScopeId) :
    next.computeAnew scope = ledger.computeAnew scope := by
  rw [Ledger.computeAnew, same.settings, same.tree, same.policies, ← Ledger.computeAnew]

theorem SameSources.computeAt (same : ledger.SameSources next)
    (kept : next.effective.find? scope = ledger.effective.find? scope) :
    next.computeAt scope = ledger.computeAt scope := by
  rw [Ledger.computeAt, Ledger.computeAt, same.settings, same.tree, same.policies, kept]

theorem SameSources.recordAfter (same : ledger.SameSources next)
    (kept : next.effective.find? scope = ledger.effective.find? scope) :
    next.recordAfter scope = ledger.recordAfter scope := by
  rw [Ledger.recordAfter, Ledger.recordAfter, same.computeAt kept, kept]

theorem SameSources.eq_of_find?_eq (same : ledger.SameSources next)
    (kept : ∀ scope, next.effective.find? scope = ledger.effective.find? scope) :
    next = ledger := by
  have records : next.effective = ledger.effective := SortedMap.ext_find? kept
  cases next
  cases ledger
  obtain ⟨rfl, rfl, rfl⟩ := same
  cases records
  rfl

theorem SameSources.current (same : ledger.SameSources next)
    (kept : next.effective.find? scope = ledger.effective.find? scope)
    (current : ledger.Current scope) : next.Current scope := by
  intro policy recorded
  rw [kept] at recorded
  rw [same.computeAnew]
  exact current policy recorded

structure Refreshes (ledger : Ledger) (scopes : List ScopeId) (next : Ledger)
    (results : List (ScopeId × Except InheritanceError EffectiveOutcome)) : Prop where
  sources : ledger.SameSources next
  records : ∀ scope ∈ scopes, next.effective.find? scope = ledger.recordAfter scope
  others : ∀ scope, scope ∉ scopes → next.effective.find? scope = ledger.effective.find? scope
  results : results = scopes.map fun scope => (scope, ledger.computeAt scope)

theorem sameSources_refresh (ledger : Ledger) (scope : ScopeId) :
    ledger.SameSources (ledger.refresh scope).1 := by
  rw [refresh]
  split <;> exact ⟨rfl, rfl, rfl⟩

theorem find?_refresh (ledger : Ledger) (scope other : ScopeId) :
    (ledger.refresh scope).1.effective.find? other
      = if scope = other then ledger.recordAfter scope else ledger.effective.find? other := by
  rw [refresh, recordAfter]
  cases ledger.computeAt scope with
  | ok outcome => exact SortedMap.find?_insert _ _ _ _
  | error problem =>
      by_cases same : scope = other
      · rw [if_pos same, same]
      · rw [if_neg same]

theorem snd_refresh (ledger : Ledger) (scope : ScopeId) :
    (ledger.refresh scope).2 = ledger.computeAt scope := by
  rw [refresh]
  split <;> simp_all

/-- Computing one scope again changes nothing for the scopes that follow, so each of them gives what
it would have given by itself. -/
theorem refreshes_refreshAll (distinct : scopes.Nodup) :
    ledger.Refreshes scopes (ledger.refreshAll scopes).1 (ledger.refreshAll scopes).2 := by
  induction scopes generalizing ledger with
  | nil => exact ⟨⟨rfl, rfl, rfl⟩, List.forall_mem_nil _, fun _ _ => rfl, rfl⟩
  | cons scope rest ih =>
      obtain ⟨fresh, distinct⟩ := List.nodup_cons.mp distinct
      have first := sameSources_refresh ledger scope
      have kept : ∀ other, scope ≠ other →
          (ledger.refresh scope).1.effective.find? other = ledger.effective.find? other :=
        fun other different => by rw [find?_refresh, if_neg different]
      have apart : ∀ other ∈ rest, scope ≠ other := fun other listed same => fresh (same ▸ listed)
      have following := @ih (ledger.refresh scope).1 distinct
      refine ⟨first.trans following.sources, fun other listed => ?_, fun other unlisted => ?_, ?_⟩
      · rcases List.mem_cons.mp listed with rfl | later
        · exact (following.others other fresh).trans (by rw [find?_refresh, if_pos rfl])
        · have same := first.recordAfter (kept other (apart other later))
          exact (following.records other later).trans same
      · rw [List.mem_cons, not_or] at unlisted
        exact (following.others other unlisted.2).trans (kept other (Ne.symm unlisted.1))
      · rw [refreshAll]
        simp only [following.results, List.map_cons, snd_refresh]
        congr 1
        exact List.map_congr_left fun other listed => by
          rw [first.computeAt (kept other (apart other listed))]

theorem Refreshes.kept (done : ledger.Refreshes scopes next results) (listed : scope ∈ scopes)
    {problem : InheritanceError} (failed : ledger.computeAt scope = .error problem) :
    next.effective.find? scope = ledger.effective.find? scope := by
  rw [done.records scope listed, recordAfter, failed]

theorem Refreshes.recorded (done : ledger.Refreshes scopes next results) (listed : scope ∈ scopes)
    (computed : ledger.computeAt scope = .ok outcome) :
    next.effective.find? scope = some outcome.policy := by
  rw [done.records scope listed, recordAfter, computed]

theorem Refreshes.current (done : ledger.Refreshes scopes next results) (listed : scope ∈ scopes)
    (computed : ledger.computeAt scope = .ok outcome) : next.Current scope := by
  obtain ⟨fresh, given, same⟩ := computeAt_eq_ok computed
  intro policy recorded
  rw [done.recorded listed computed] at recorded
  cases recorded
  exact ⟨fresh, (done.sources.computeAnew scope).trans given, same⟩

/-- What is computed again is current, and what is not computed stays as it was. -/
theorem Refreshes.currentExcept (done : ledger.Refreshes scopes next results)
    (current : ledger.CurrentExcept stale) :
    next.CurrentExcept fun scope =>
      stale scope ∧ (scope ∈ scopes → ∃ problem, ledger.computeAt scope = .error problem) := by
  intro scope fine
  by_cases listed : scope ∈ scopes
  · cases computed : ledger.computeAt scope with
    | ok outcome => exact done.current listed computed
    | error problem =>
        exact done.sources.current (done.kept listed computed)
          (current scope fun old => fine ⟨old, fun _ => ⟨problem, computed⟩⟩)
  · exact done.sources.current (done.others scope listed)
      (current scope fun old => fine ⟨old, fun within => absurd within listed⟩)

/-- Computing the same scopes once more would change nothing. -/
theorem Refreshes.recordAfter_eq (done : ledger.Refreshes scopes next results)
    (listed : scope ∈ scopes) : next.recordAfter scope = next.effective.find? scope := by
  cases computed : ledger.computeAt scope with
  | ok outcome =>
      have recorded := done.recorded listed computed
      rw [(done.current listed computed).recordAfter_eq recorded, recorded]
  | error problem =>
      have kept := done.kept listed computed
      rw [done.sources.recordAfter kept, recordAfter, computed, kept]

/-! ## Cascades -/

/-- A cascade computes exactly the scopes under the changed one again. -/
theorem cascade_eq_ok (formed : ledger.tree.Formed) {owner : Scope}
    (stored : ledger.tree.find? top = some owner) :
    ∃ order next results, ledger.cascade top = .ok (next, results) ∧
      (∀ scope, scope ∈ order ↔ ledger.tree.Under top scope) ∧
      ledger.Refreshes order next results := by
  obtain ⟨order, walked, distinct, below⟩ := ScopeTree.invalidationOrder_eq_ok formed stored
  refine ⟨order, _, _, ?_, below, refreshes_refreshAll distinct⟩
  rw [cascade, walked]
  rfl

theorem stored_of_cascade (done : ledger.cascade top = .ok (next, results)) :
    ∃ owner, ledger.tree.find? top = some owner := by
  cases found : ledger.tree.find? top with
  | some owner => exact ⟨owner, rfl⟩
  | none =>
      rw [cascade, ScopeTree.invalidationOrder_eq_error found] at done
      cases done

theorem refreshes_of_cascade (formed : ledger.tree.Formed)
    (done : ledger.cascade top = .ok (next, results)) :
    ∃ order, (∀ scope, scope ∈ order ↔ ledger.tree.Under top scope) ∧
      ledger.Refreshes order next results := by
  obtain ⟨owner, stored⟩ := stored_of_cascade done
  obtain ⟨order, next', results', done', below, refreshes⟩ := cascade_eq_ok formed stored
  cases done.symm.trans done'
  exact ⟨order, below, refreshes⟩

/-- If no record is out of date but below a scope, a cascade from there leaves none that it does not
report as failed. -/
theorem current_or_reported (formed : ledger.tree.Formed)
    (current : ledger.CurrentExcept (ledger.tree.Under top))
    (done : ledger.cascade top = .ok (next, results)) (scope : ScopeId) :
    next.Current scope ∨ ∃ problem, (scope, .error problem) ∈ results := by
  obtain ⟨order, below, refreshes⟩ := refreshes_of_cascade formed done
  refine or_iff_not_imp_right.mpr fun unreported => refreshes.currentExcept current scope ?_
  intro old
  have listed := (below scope).mpr old.1
  obtain ⟨problem, computed⟩ := old.2 listed
  refine unreported ⟨problem, ?_⟩
  rw [refreshes.results]
  exact List.mem_map.mpr ⟨scope, listed, by rw [computed]⟩

/-- A policy that replaces none, or one of the same scope, calls for one cascade from its scope. -/
theorem current_or_reported_put (formed : ledger.tree.Formed)
    (current : ∀ scope, ledger.Current scope) {policy : ScopedPolicy}
    (stays : ∀ replaced, ledger.policies.find? policy.id = some replaced →
      replaced.scope = policy.scope)
    (done : (ledger.put policy).cascade policy.scope = .ok (next, results)) (scope : ScopeId) :
    next.Current scope ∨ ∃ problem, (scope, .error problem) ∈ results := by
  have reached : (ledger.put policy).CurrentExcept (ledger.tree.Under policy.scope) := by
    intro below outside
    have before : ¬ ledger.Bears policy.id below := fun ⟨replaced, found, under⟩ =>
      outside (stays replaced found ▸ under)
    exact (current below).of_differsAt formed (differsAt_put ledger policy) before
      (mt bears_put.mp outside)
  exact @current_or_reported (ledger.put policy) _ _ _ formed reached done scope

/-- A cascade changes no decision of a scope that does not stand under the changed one. -/
theorem decide_cascade_of_not_under (formed : ledger.tree.Formed)
    (done : ledger.cascade top = .ok (next, results)) (outside : ¬ ledger.tree.Under top scope)
    (event : UsageEvent) (bundleId : BundleId) (extras : SortedMap String Json) :
    next.decide scope event bundleId extras = ledger.decide scope event bundleId extras := by
  obtain ⟨order, below, refreshes⟩ := refreshes_of_cascade formed done
  rw [decide, decide, refreshes.others scope fun listed => outside ((below scope).mp listed)]

/-- A cascade that is repeated counts no version and replaces no record. -/
theorem cascade_again (formed : ledger.tree.Formed)
    (done : ledger.cascade top = .ok (next, results)) :
    ∃ again, next.cascade top = .ok (next, again) := by
  obtain ⟨owner, stored⟩ := stored_of_cascade done
  obtain ⟨order, below, refreshes⟩ := refreshes_of_cascade formed done
  have sameTree := refreshes.sources.tree
  obtain ⟨order', last, again, done', below', refreshes'⟩ :=
    cascade_eq_ok (sameTree ▸ formed) (sameTree ▸ stored)
  suffices last = next from ⟨again, this ▸ done'⟩
  refine refreshes'.sources.eq_of_find?_eq fun scope => ?_
  by_cases listed : scope ∈ order'
  · rw [refreshes'.records scope listed]
    rw [below', sameTree, ← below] at listed
    exact refreshes.recordAfter_eq listed
  · exact refreshes'.others scope listed

/-! ## Histories of calls -/

inductive Call where
  | put (policy : ScopedPolicy)
  | drop (id : PolicyId)
  | cascade (top : ScopeId)

def call (ledger : Ledger) : Call → Ledger
  | .put policy => ledger.put policy
  | .drop id => ledger.drop id
  | .cascade top =>
    match ledger.cascade top with
    | .error _ => ledger
    | .ok (next, _) => next

/-- The scopes whose records may be out of date after a call, given those before it. -/
def staleAfter (ledger : Ledger) (stale : ScopeId → Prop) : Call → ScopeId → Prop
  | .put policy, scope =>
    stale scope ∨ ledger.Bears policy.id scope ∨ ledger.tree.Under policy.scope scope
  | .drop id, scope => stale scope ∨ ledger.Bears id scope
  | .cascade top, scope =>
    stale scope ∧ (ledger.tree.Under top scope → ∃ problem, ledger.computeAt scope = .error problem)

def callAll (ledger : Ledger) : List Call → Ledger
  | [] => ledger
  | step :: rest => callAll (ledger.call step) rest

def staleAfterAll (ledger : Ledger) (stale : ScopeId → Prop) : List Call → ScopeId → Prop
  | [] => stale
  | step :: rest => staleAfterAll (ledger.call step) (ledger.staleAfter stale step) rest

theorem tree_call (formed : ledger.tree.Formed) (step : Call) :
    (ledger.call step).tree = ledger.tree := by
  cases step with
  | put policy => rfl
  | drop id => rfl
  | cascade top =>
      rw [call]
      cases done : ledger.cascade top with
      | error problem => rfl
      | ok after =>
          obtain ⟨_, _, refreshes⟩ := refreshes_of_cascade formed done
          exact refreshes.sources.tree

theorem currentExcept_call (formed : ledger.tree.Formed) (current : ledger.CurrentExcept stale)
    (step : Call) : (ledger.call step).CurrentExcept (ledger.staleAfter stale step) := by
  cases step with
  | put policy =>
      intro scope fine
      simp only [staleAfter, not_or] at fine
      exact (current scope fine.1).of_differsAt formed (differsAt_put ledger policy) fine.2.1
        (mt bears_put.mp fine.2.2)
  | drop id =>
      intro scope fine
      simp only [staleAfter, not_or] at fine
      exact (current scope fine.1).of_differsAt formed (differsAt_drop ledger id) fine.2
        not_bears_drop
  | cascade top =>
      rw [call]
      cases done : ledger.cascade top with
      | error problem =>
          have unknown : ∀ scope, ¬ ledger.tree.Under top scope := by
            intro scope under
            obtain ⟨owner, stored⟩ := under.top_stored
            obtain ⟨_, _, _, done', _⟩ := cascade_eq_ok formed stored
            cases done.symm.trans done'
          intro scope fine
          exact current scope fun old => fine ⟨old, fun under => absurd under (unknown scope)⟩
      | ok after =>
          obtain ⟨order, below, refreshes⟩ := refreshes_of_cascade formed done
          intro scope fine
          refine refreshes.currentExcept current scope fun old => fine ⟨old.1, fun under => ?_⟩
          exact old.2 ((below scope).mpr under)

theorem currentExcept_callAll (formed : ledger.tree.Formed) (current : ledger.CurrentExcept stale)
    (calls : List Call) :
    (ledger.callAll calls).CurrentExcept (ledger.staleAfterAll stale calls) := by
  induction calls generalizing ledger stale with
  | nil => exact current
  | cons step rest ih =>
      exact ih (tree_call formed step ▸ formed) (currentExcept_call formed current step)

/-- Once records are kept, a record can be out of date only at a scope that a change of a policy
reached and no cascade has computed since. -/
theorem currentExcept_callAll_of_empty (formed : ledger.tree.Formed)
    (unrecorded : ledger.effective = {}) (calls : List Call) :
    (ledger.callAll calls).CurrentExcept (ledger.staleAfterAll (fun _ => False) calls) := by
  refine currentExcept_callAll formed (fun scope _ policy recorded => ?_) calls
  rw [unrecorded, SortedMap.find?_empty] at recorded
  cases recorded

end Ledger

end Governance
