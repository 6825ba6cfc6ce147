import Governance.Proofs.Effective.Descendant
import Governance.Proofs.Effective.Flaws
import Governance.Proofs.Scope.Chain

/-!
# Which failure comes first

A computation fails for four reasons, in a fixed order: the chain or a policy is not valid, which of
flawed policies being decided by the order of application alone; some conflict is incompatible; the
merged values have no digest. What comes later does not show until everything before it is in order.
-/

set_option autoImplicit false

namespace Governance

/-- Whether a list of scopes is a chain to a target: it ends there, repeats no scope, and every
scope stands below the one before it. -/
def Scope.LeadsTo (target : ScopeId) (chain : List Scope) : Prop :=
  chain.getLast?.map Scope.id = some target ∧ (chain.map Scope.id).Nodup ∧
    chain.IsChain Scope.MayFollow

theorem Scope.leadsTo_iff {target : ScopeId} {chain : List Scope} :
    LeadsTo target chain ↔ checkChain target chain = .ok () :=
  checkChain_eq_ok_iff.symm

namespace InheritanceSettings

variable {settings : InheritanceSettings} {target : ScopeId} {chain : List Scope}
  {policies : List ScopedPolicy} {policy : ScopedPolicy} {state : MergeState}
  {problem : ValidationError}

/-! ## Applying policies -/

theorem applyPolicy_of_reports (reports : policy.Reports settings.registry problem)
    (state : MergeState) : settings.applyPolicy policy state = .error problem := by
  cases reports with
  | rules failed => simp only [applyPolicy, failed]
  | overrides declared _ failed => simp only [applyPolicy, declared, failed]

theorem applyAll_of_sound
    (sound : ∀ policy ∈ policies, ¬ policy.IsFlawed settings.registry) (state : MergeState) :
    ∃ final, settings.applyAll policies state = .ok final := by
  induction policies generalizing state with
  | nil => exact ⟨state, rfl⟩
  | cons policy rest ih =>
      obtain ⟨soundFirst, soundRest⟩ := List.forall_mem_cons.mp sound
      rcases policy.read_or_reports settings.registry with
        ⟨declared, overridden, rules, overrides⟩ | reports
      · simp only [applyAll, applyPolicy, rules, overrides]
        exact ih soundRest _
      · exact absurd (ScopedPolicy.isFlawed_iff_reports.mpr reports) soundFirst

/-- The first flawed policy decides, whatever is in conflict before it or flawed behind it. -/
theorem applyAll_of_first {front back : List ScopedPolicy}
    (sound : ∀ other ∈ front, ¬ other.IsFlawed settings.registry)
    (reports : policy.Reports settings.registry problem) (state : MergeState) :
    settings.applyAll (front ++ policy :: back) state = .error problem := by
  obtain ⟨middle, applied⟩ := applyAll_of_sound sound state
  rw [applyAll_append_of_ok applied, applyAll, applyPolicy_of_reports reports middle]

theorem mergeChain_eq_applyAll {ordered : List ScopedPolicy} (leads : Scope.LeadsTo target chain)
    (placed : ScopedPolicy.applicationOrder chain policies = .ok ordered) :
    settings.mergeChain target chain policies = settings.applyAll ordered {} := by
  have checked := Scope.leadsTo_iff.mp leads
  simp only [mergeChain, checked, placed, bind, Except.bind]

theorem compute_of_first {front back : List ScopedPolicy} (leads : Scope.LeadsTo target chain)
    (placed : ScopedPolicy.applicationOrder chain policies = .ok (front ++ policy :: back))
    (sound : ∀ other ∈ front, ¬ other.IsFlawed settings.registry)
    (reports : policy.Reports settings.registry problem) :
    settings.compute target chain policies = .error (.validation problem) := by
  rw [compute, mergeChain_eq_applyAll leads placed, applyAll_of_first sound reports]

theorem exists_first_flawed {registry : FieldRegistry} {ordered : List ScopedPolicy}
    (flawed : ∃ policy ∈ ordered, policy.IsFlawed registry) :
    ∃ front policy back, ordered = front ++ policy :: back ∧
      (∀ other ∈ front, ¬ other.IsFlawed registry) ∧ policy.IsFlawed registry := by
  induction ordered with
  | nil =>
      obtain ⟨_, listed, _⟩ := flawed
      cases listed
  | cons policy rest ih =>
      by_cases first : policy.IsFlawed registry
      · exact ⟨[], policy, rest, rfl, List.forall_mem_nil _, first⟩
      · obtain ⟨other, listed, later⟩ := flawed
        have inRest : other ∈ rest := (List.mem_cons.mp listed).resolve_left fun same =>
          first (same ▸ later)
        obtain ⟨front, other, back, rfl, sound, found⟩ := ih ⟨other, inRest, later⟩
        exact ⟨policy :: front, other, back, rfl, List.forall_mem_cons.mpr ⟨first, sound⟩, found⟩

/-! ## Finished merges -/

/-- How a computation ends whose merge is finished: with the first incompatible conflict, or else
without a digest because of a float, or else with an outcome. -/
structure Concludes (state : MergeState)
    (computed : Except InheritanceError EffectiveOutcome) : Prop where
  conflict : (∃ place culprit conflicts, computed = .error (.conflict place culprit conflicts)) ↔
    ∃ conflict ∈ state.conflicts, conflict.classification = .incompatible
  first : ∀ front first back, state.conflicts = front ++ first :: back →
    (∀ conflict ∈ front, conflict.classification ≠ .incompatible) →
    first.classification = .incompatible →
    computed = .error (.conflict first.childScope first.childPolicy state.conflicts)
  canonicalization : state.Settled →
    ((∃ cause, computed = .error (.canonicalization cause)) ↔ state.document.floatFree = false)
  outcome : state.Settled → state.document.floatFree = true →
    ∃ outcome, computed = .ok outcome ∧ outcome.policy.values = state.document ∧
      outcome.conflicts = state.conflicts ∧
      ∀ conflict ∈ outcome.conflicts, conflict.classification ≠ .incompatible

theorem outcome_of_incompatible {front back : List PolicyConflict} {first : PolicyConflict}
    (shape : state.conflicts = front ++ first :: back)
    (before : ∀ conflict ∈ front, conflict.classification ≠ .incompatible)
    (incompatible : first.classification = .incompatible) :
    settings.outcome target state
      = .error (.conflict first.childScope first.childPolicy state.conflicts) := by
  have found : state.incompatible? = some first := by
    rw [MergeState.incompatible?, shape, List.find?_eq_some_iff_append]
    exact ⟨by simp [incompatible], front, back, rfl,
      fun conflict listed => by simpa using before conflict listed⟩
  simp only [outcome, found]

theorem outcome_of_float (settled : state.Settled) (float : state.document.floatFree = false) :
    ∃ cause, settings.outcome target state = .error (.canonicalization cause) := by
  have compatible := MergeState.incompatible?_eq_none_iff.mpr settled
  cases digest : ContentDigest.ofDocument settings.registry state.document with
  | error cause => exact ⟨cause, by simp only [outcome, compatible, digest]⟩
  | ok contentHash =>
      rw [floatFree_of_digest digest] at float
      cases float

theorem outcome_cases (settings : InheritanceSettings) (target : ScopeId) (state : MergeState) :
    (¬ state.Settled ∧ ∃ place culprit conflicts,
        settings.outcome target state = .error (.conflict place culprit conflicts)) ∨
      (state.Settled ∧ state.document.floatFree = false ∧
        ∃ cause, settings.outcome target state = .error (.canonicalization cause)) ∨
      (state.Settled ∧ state.document.floatFree = true ∧
        ∃ outcome, settings.outcome target state = .ok outcome ∧
          outcome.policy.values = state.document ∧ outcome.conflicts = state.conflicts) := by
  cases found : state.incompatible? with
  | some first =>
      have unsettled : ¬ state.Settled := fun settled => by
        rw [MergeState.incompatible?_eq_none_iff.mpr settled] at found
        cases found
      exact .inl ⟨unsettled, first.childScope, first.childPolicy, state.conflicts, by
        simp only [outcome, found]⟩
  | none =>
      have settled := MergeState.incompatible?_eq_none_iff.mp found
      cases free : state.document.floatFree with
      | false => exact .inr (.inl ⟨settled, rfl, outcome_of_float settled free⟩)
      | true =>
          obtain ⟨outcome, finished, values, _, conflicts⟩ :=
            @outcome_of_floatFree settings target state found free
          exact .inr (.inr ⟨settled, rfl, outcome, finished, values, conflicts⟩)

theorem concludes_outcome (settings : InheritanceSettings) (target : ScopeId) (state : MergeState) :
    Concludes state (settings.outcome target state) := by
  have unsettled_iff : ¬ state.Settled ↔
      ∃ conflict ∈ state.conflicts, conflict.classification = .incompatible := by
    simp [MergeState.Settled]
  refine ⟨?_, fun _ _ _ => outcome_of_incompatible, fun settled => ?_, fun settled free => ?_⟩
  · rw [← unsettled_iff]
    rcases settings.outcome_cases target state with
      ⟨unsettled, stopped⟩ | ⟨settled, _, _, stopped⟩ | ⟨settled, _, _, finished, _⟩
    · exact iff_of_true stopped unsettled
    · rw [stopped]
      simp [settled]
    · rw [finished]
      simp [settled]
  · rcases settings.outcome_cases target state with
      ⟨unsettled, _⟩ | ⟨_, float, stopped⟩ | ⟨_, free, _, finished, _⟩
    · exact absurd settled unsettled
    · exact iff_of_true stopped float
    · rw [finished, free]
      simp
  · have compatible := MergeState.incompatible?_eq_none_iff.mpr settled
    obtain ⟨outcome, finished, values, _, conflicts⟩ :=
      @outcome_of_floatFree settings target state compatible free
    exact ⟨outcome, finished, values, conflicts, conflicts ▸ settled⟩

/-! ## The order of failures -/

/-- With a chain and policies that are valid the computation comes down to what the merge found. -/
theorem compute_of_sound (leads : Scope.LeadsTo target chain)
    (attached : ∀ policy ∈ policies, policy.IsAttached chain)
    (sound : ∀ policy ∈ policies, ¬ policy.IsFlawed settings.registry) :
    ∃ ordered state, ScopedPolicy.applicationOrder chain policies = .ok ordered ∧
      settings.applyAll ordered {} = .ok state ∧
      settings.compute target chain policies = settings.outcome target state := by
  rcases ScopedPolicy.applicationOrder_cases chain policies with
    ⟨_, ordered, placed⟩ | ⟨policy, listed, detached, _⟩
  · have perm := (ScopedPolicy.applicationOrder_eq_ok placed).1
    obtain ⟨state, applied⟩ := @applyAll_of_sound settings ordered
      (fun policy listed => sound policy (perm.mem_iff.mp listed)) {}
    refine ⟨ordered, state, placed, applied, ?_⟩
    rw [compute, mergeChain_eq_applyAll leads placed, applied]
  · exact absurd (attached policy listed) detached

/-- A computation is refused exactly if the chain is not valid, a policy belongs to no scope of it,
or a policy is flawed. -/
theorem compute_eq_validation_iff :
    (∃ problem, settings.compute target chain policies = .error (.validation problem)) ↔
      ¬ Scope.LeadsTo target chain ∨ (∃ policy ∈ policies, ¬ policy.IsAttached chain) ∨
        ∃ policy ∈ policies, policy.IsFlawed settings.registry := by
  constructor
  · rintro ⟨problem, refused⟩
    by_contra valid
    push Not at valid
    obtain ⟨leads, attached, sound⟩ := valid
    obtain ⟨_, state, _, _, computed⟩ := compute_of_sound leads attached sound
    rw [computed] at refused
    rcases settings.outcome_cases target state with
      ⟨_, _, _, _, stopped⟩ | ⟨_, _, _, stopped⟩ | ⟨_, _, _, finished, _⟩
    · cases stopped.symm.trans refused
    · cases stopped.symm.trans refused
    · cases finished.symm.trans refused
  · intro invalid
    cases checked : Scope.checkChain target chain with
    | error problem => exact ⟨problem, compute_of_unchecked checked⟩
    | ok =>
        have leads := Scope.leadsTo_iff.mpr checked
        rcases ScopedPolicy.applicationOrder_cases chain policies with
          ⟨attached, ordered, placed⟩ | ⟨policy, _, _, failed⟩
        · have flawed : ∃ policy ∈ policies, policy.IsFlawed settings.registry := by
            rcases invalid with astray | ⟨policy, listed, detached⟩ | flawed
            · exact absurd leads astray
            · exact absurd (attached policy listed) detached
            · exact flawed
          obtain ⟨policy, listed, flaw⟩ := flawed
          have inOrder := (ScopedPolicy.applicationOrder_eq_ok placed).1.mem_iff.mpr listed
          obtain ⟨front, first, back, rfl, sound, flaw⟩ :=
            exists_first_flawed ⟨policy, inOrder, flaw⟩
          obtain ⟨problem, reports⟩ := ScopedPolicy.isFlawed_iff_reports.mp flaw
          exact ⟨problem, compute_of_first leads placed sound reports⟩
        · exact ⟨_, compute_of_detached checked failed⟩

theorem compute_of_first_flawed
    (distinct : (policies.map fun policy => (policy.scope, policy.id)).Nodup)
    (leads : Scope.LeadsTo target chain) (attached : ∀ policy ∈ policies, policy.IsAttached chain)
    (listed : policy ∈ policies) (flawed : policy.IsFlawed settings.registry)
    (first : ∀ other ∈ policies, ScopedPolicy.Before chain other policy →
      ¬ other.IsFlawed settings.registry) :
    ∃ problem, policy.Reports settings.registry problem ∧
      settings.compute target chain policies = .error (.validation problem) := by
  obtain ⟨problem, reports⟩ := ScopedPolicy.isFlawed_iff_reports.mp flawed
  refine ⟨problem, reports, ?_⟩
  rcases ScopedPolicy.applicationOrder_cases chain policies with
    ⟨_, ordered, placed⟩ | ⟨other, listed', detached, _⟩
  · have perm := (ScopedPolicy.applicationOrder_eq_ok placed).1
    have sorted := ScopedPolicy.pairwise_before distinct placed
    obtain ⟨front, back, rfl⟩ := List.append_of_mem (perm.mem_iff.mpr listed)
    refine compute_of_first leads placed (fun other inFront => ?_) reports
    have before := (List.pairwise_append.mp sorted).2.2 other inFront policy List.mem_cons_self
    exact first other (perm.mem_iff.mp (List.mem_append_left _ inFront)) before
  · exact absurd (attached other listed') detached

/-- Validation comes first, and of flawed policies the first one in the order of application
decides, its rules before its overrides; then the first incompatible conflict; then a float in the
merged values. A computation that gets past all of these has an outcome. -/
theorem compute_failure_order (settings : InheritanceSettings) (target : ScopeId)
    (chain : List Scope) (policies : List ScopedPolicy)
    (distinct : (policies.map fun policy => (policy.scope, policy.id)).Nodup) :
    ((∃ problem, settings.compute target chain policies = .error (.validation problem)) ↔
      ¬ Scope.LeadsTo target chain ∨ (∃ policy ∈ policies, ¬ policy.IsAttached chain) ∨
        ∃ policy ∈ policies, policy.IsFlawed settings.registry) ∧
    (Scope.LeadsTo target chain → (∀ policy ∈ policies, policy.IsAttached chain) →
      ∀ policy ∈ policies, policy.IsFlawed settings.registry →
        (∀ other ∈ policies, ScopedPolicy.Before chain other policy →
          ¬ other.IsFlawed settings.registry) →
        ∃ problem, policy.Reports settings.registry problem ∧
          settings.compute target chain policies = .error (.validation problem)) ∧
    (Scope.LeadsTo target chain → (∀ policy ∈ policies, policy.IsAttached chain) →
      (∀ policy ∈ policies, ¬ policy.IsFlawed settings.registry) →
        ∃ ordered state, ordered.Perm policies ∧ ordered.Pairwise (ScopedPolicy.Before chain) ∧
          settings.applyAll ordered {} = .ok state ∧
          Concludes state (settings.compute target chain policies)) := by
  refine ⟨compute_eq_validation_iff, fun leads attached policy listed flawed first =>
    compute_of_first_flawed distinct leads attached listed flawed first,
    fun leads attached sound => ?_⟩
  obtain ⟨ordered, state, placed, applied, computed⟩ := compute_of_sound leads attached sound
  refine ⟨ordered, state, (ScopedPolicy.applicationOrder_eq_ok placed).1,
    ScopedPolicy.pairwise_before distinct placed, applied, ?_⟩
  rw [computed]
  exact settings.concludes_outcome target state

def brandWords : ScopedPolicy :=
  { brandApprovals with rules := .obj [("min_approvals", .str "three")] }

theorem isFlawed_brandWords : brandWords.IsFlawed .standard :=
  .inl ⟨_, .kind .top List.mem_cons_self rfl rfl⟩

/-- The policies of the company are in conflict, but what is reported is the policy of the brand,
which is applied last. -/
theorem compute_failure_order_brandWords :
    ([brandWords, companyLimits, companyLimit].map fun policy => (policy.scope, policy.id)).Nodup ∧
      (∃ conflicts, compute {} companyScope.id [companyScope] [companyLimits, companyLimit]
        = .error (.conflict companyScope.id companyLimit.id conflicts)) ∧
      compute {} brandScope.id brandChain [brandWords, companyLimits, companyLimit]
        = .error (.validation (.fieldKindMismatch brandWords.id (.ofKeys ["min_approvals"])
            .number (.str "three"))) := by
  have distinct : ([brandWords, companyLimits, companyLimit].map
      fun policy => (policy.scope, policy.id)).Nodup := by decide
  have leads : Scope.LeadsTo brandScope.id brandChain := Scope.leadsTo_iff.mpr (by decide)
  have attached : ∀ policy ∈ [brandWords, companyLimits, companyLimit],
      policy.IsAttached brandChain := by
    unfold ScopedPolicy.IsAttached
    decide
  refine ⟨distinct, compute_companyLimit, ?_⟩
  have first : ∀ other ∈ [brandWords, companyLimits, companyLimit],
      ScopedPolicy.Before brandChain other brandWords → ¬ other.IsFlawed .standard := by
    intro other listed before
    rcases List.mem_cons.mp listed with rfl | listed
    · exact (before.asymm before).elim
    · rcases List.mem_pair.mp listed with rfl | rfl
      · exact ScopedPolicy.not_isFlawed_of_read rfl rfl
      · exact ScopedPolicy.not_isFlawed_of_read rfl rfl
  obtain ⟨problem, reports, refused⟩ := (compute_failure_order {} brandScope.id brandChain
    [brandWords, companyLimits, companyLimit] distinct).2.1 leads attached
    brandWords List.mem_cons_self isFlawed_brandWords first
  rw [refused]
  cases reports with
  | rules failed =>
      cases failed
      rfl
  | overrides read _ _ => cases read

end InheritanceSettings

end Governance
