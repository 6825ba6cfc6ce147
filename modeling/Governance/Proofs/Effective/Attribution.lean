import Governance.Proofs.Conflict.Preorder
import Governance.Proofs.Effective.Totals

/-!
# What the source of a field says

The source on record for a flag or a threshold names the policy that declared it last. The value is
the one that this policy declares, unless the policy asks for less than what it inherited: then the
inherited value stays, the policy is named all the same, and a looser conflict says so.
-/

set_option autoImplicit false

namespace Governance

/-- Whether a source names a policy that declares a field with a value, the last one to declare it. -/
structure FieldProvenance.Names (source : FieldProvenance) (ordered : List ScopedPolicy)
    (field : FieldPath) (policy : ScopedPolicy) (declared : Json) : Prop where
  scope : policy.scope = source.scope
  id : policy.id = source.policy
  mode : policy.mode = source.mode
  declares : policy.declaredAt? source.isOverride field = some declared
  unchanged : source.isOverride = false → policy.declaredAt? true field = none
  last : ∃ front back, ordered = front ++ policy :: back ∧
    ∀ later ∈ back, ∀ isOverride, later.declaredAt? isOverride field = none

def RecordsLooser (conflicts : List PolicyConflict) (field : FieldPath) (source : FieldProvenance)
    (declared : Json) : Prop :=
  ∃ conflict ∈ conflicts, conflict.field = field ∧ conflict.classification = .looser ∧
    conflict.childScope = source.scope ∧ conflict.childPolicy = source.policy ∧
    conflict.childValue = declared

/-- How the value of a field relates to the value that was declared for it last. -/
inductive FieldDirective.Upholds (directive : FieldDirective) (field : FieldPath)
    (conflicts : List PolicyConflict) (source : FieldProvenance) (declared : Json) : Json → Prop where
  | taken : Upholds directive field conflicts source declared declared
  | inexact {value : Json} : source.isOverride = false → source.mode ≠ .replace →
      declared.floatFree = false ∨ value.floatFree = false →
      Upholds directive field conflicts source declared value
  | refused {value : Json} : source.isOverride = false → source.mode ≠ .replace →
      ConflictClassification.classify (some directive) value declared = some .looser →
      RecordsLooser conflicts field source declared →
      Upholds directive field conflicts source declared value

inductive FieldDirective.Attributed (directive : FieldDirective) (ordered : List ScopedPolicy)
    (field : FieldPath) (conflicts : List PolicyConflict) : Option MergedField → Prop where
  | absent : Attributed directive ordered field conflicts none
  | present {merged : MergedField} {policy : ScopedPolicy} {declared : Json} :
      merged.source.Names ordered field policy declared →
      directive.Upholds field conflicts merged.source declared merged.value →
      Attributed directive ordered field conflicts (some merged)

theorem RecordsLooser.mono {conflicts more : List PolicyConflict} {field : FieldPath}
    {source : FieldProvenance} {declared : Json}
    (recorded : RecordsLooser conflicts field source declared) (grows : conflicts ⊆ more) :
    RecordsLooser more field source declared := by
  obtain ⟨conflict, listed, named⟩ := recorded
  exact ⟨conflict, grows listed, named⟩

theorem FieldDirective.Upholds.mono {directive : FieldDirective} {field : FieldPath}
    {conflicts more : List PolicyConflict} {source : FieldProvenance} {declared value : Json}
    (upholds : directive.Upholds field conflicts source declared value)
    (grows : conflicts ⊆ more) : directive.Upholds field more source declared value := by
  cases upholds with
  | taken => exact .taken
  | inexact rule additive inexact => exact .inexact rule additive inexact
  | refused rule additive looser recorded =>
      exact .refused rule additive looser (recorded.mono grows)

/-! ## Flags and thresholds -/

theorem Json.bound_cases (direction : Ordering) {inherited declared : Json}
    (accepted : ValueKind.number.accepts inherited = true)
    (accepted' : ValueKind.number.accepts declared = true) :
    bound direction inherited declared = declared ∨
      (declared.floatFree = false ∨ (bound direction inherited declared).floatFree = false) ∨
      (bound direction inherited declared = inherited ∧
        (inherited.floatFree = true ∧ declared.floatFree = true) ∧
        ConflictClassification.ofNumbers direction inherited declared = some .looser) := by
  cases declared with
  | null | bool | str | arr | obj => cases accepted'
  | float => exact .inr (.inl (.inl rfl))
  | int number =>
      cases inherited with
      | null | bool | str | arr | obj => cases accepted
      | float value =>
          rw [bound]
          split
          · exact .inl rfl
          · split
            · exact .inl rfl
            · exact .inr (.inl (.inr rfl))
      | int number' =>
          simp only [bound, compareNumbers?, ConflictClassification.ofNumbers]
          by_cases moved : compare number number' = direction
          · exact .inl (if_pos moved)
          · rw [if_neg moved]
            cases order : compare number number' with
            | eq => exact .inl (congrArg Json.int (Int.compare_eq_eq.mp order).symm)
            | lt | gt =>
                rw [order] at moved
                exact .inr (.inr ⟨rfl, ⟨rfl, rfl⟩, if_neg moved⟩)

namespace FieldDirective

variable {directive : FieldDirective} {inherited declared : Json}

theorem not_array_of_accepts (scalar : directive.kind.isArray = false)
    (accepted : directive.kind.accepts declared = true) : declared.isArray = false := by
  cases declared with
  | null | bool | int | float | str | obj => rfl
  | arr =>
      cases known : directive.kind with
      | boolean | number => simp [known, ValueKind.accepts] at accepted
      | stringArray | objectArray => simp [known, ValueKind.isArray] at scalar

/-- A flag or a threshold takes the declared value, or keeps one that the declared value is looser
than. -/
theorem combine_cases (mode : InheritanceMode) (usual : directive.IsStandard)
    (scalar : directive.kind.isArray = false) (accepted : directive.kind.accepts inherited = true)
    (accepted' : directive.kind.accepts declared = true) :
    mode.combine (some directive) inherited declared = declared ∨
      (mode ≠ .replace ∧ (declared.floatFree = false ∨
        (mode.combine (some directive) inherited declared).floatFree = false)) ∨
      (mode ≠ .replace ∧ mode.combine (some directive) inherited declared = inherited ∧
        (inherited.floatFree = true ∧ declared.floatFree = true) ∧
        ConflictClassification.classify (some directive) inherited declared = some .looser) := by
  by_cases additive : mode = .replace
  · subst additive
    exact .inl rfl
  have classified : ConflictClassification.classify (some directive) inherited declared
      = ConflictClassification.ofKind directive inherited declared := by
    simp [ConflictClassification.classify, accepted, accepted']
  rw [InheritanceMode.combine_of_not_array additive (not_array_of_accepts scalar accepted'),
    classified]
  simp only [ne_eq, additive, not_false_eq_true, true_and]
  rcases usual with rfl | rfl | rfl | ⟨array, _⟩
  · obtain ⟨flag, rfl⟩ := ValueKind.exists_flag_of_accepts accepted
    obtain ⟨flag', rfl⟩ := ValueKind.exists_flag_of_accepts accepted'
    cases flag with
    | false => exact .inl rfl
    | true =>
        cases flag' with
        | true => exact .inl rfl
        | false => exact .inr (.inr ⟨rfl, ⟨rfl, rfl⟩, rfl⟩)
  · exact Json.bound_cases .lt accepted accepted'
  · exact Json.bound_cases .gt accepted accepted'
  · rw [array] at scalar
    cases scalar

theorem arranged_of_accepts {registry : FieldRegistry} {keys : List String}
    (scalar : directive.kind.isArray = false) (accepted : directive.kind.accepts declared = true) :
    Canonical.arranged registry keys declared = declared := by
  cases declared with
  | null | bool | int | float | str => rfl
  | arr =>
      have flat := not_array_of_accepts scalar accepted
      cases flat
  | obj =>
      cases known : directive.kind with
      | boolean | number | stringArray | objectArray =>
          simp [known, ValueKind.accepts] at accepted

end FieldDirective

namespace FieldDirective.Upholds

variable {directive : FieldDirective} {field : FieldPath} {conflicts : List PolicyConflict}
  {source : FieldProvenance} {declared value : Json}

theorem eq_of_forced (upholds : directive.Upholds field conflicts source declared value)
    (forced : source.isOverride = true ∨ source.mode = .replace) : value = declared := by
  cases upholds with
  | taken => rfl
  | inexact rule additive | refused rule additive =>
      rcases forced with override | replacing
      · rw [override] at rule
        cases rule
      · exact absurd replacing additive

theorem eq_or_looser (free : value.floatFree = true) (free' : declared.floatFree = true)
    (upholds : directive.Upholds field conflicts source declared value) :
    value = declared ∨
      (ConflictClassification.classify (some directive) value declared = some .looser ∧
        RecordsLooser conflicts field source declared) := by
  cases upholds with
  | taken => exact .inl rfl
  | inexact _ _ inexact => simp [free, free'] at inexact
  | refused _ _ looser recorded => exact .inr ⟨looser, recorded⟩

theorem eq_iff (free : value.floatFree = true)
    (self : ConflictClassification.classify (some directive) value value = none)
    (upholds : directive.Upholds field conflicts source declared value) :
    value = declared ↔ declared.floatFree = true ∧
      ConflictClassification.classify (some directive) value declared ≠ some .looser := by
  constructor
  · intro same
    subst same
    rw [self]
    exact ⟨free, fun looser => nomatch looser⟩
  · intro given
    obtain ⟨free', notLooser⟩ := given
    rcases upholds.eq_or_looser free free' with same | ⟨looser, _⟩
    · exact same
    · exact absurd looser notLooser

theorem recorded (free : value.floatFree = true)
    (upholds : directive.Upholds field conflicts source declared value)
    (free' : declared.floatFree = true) (differs : value ≠ declared) :
    RecordsLooser conflicts field source declared := by
  rcases upholds.eq_or_looser free free' with same | ⟨_, recorded⟩
  · exact absurd same differs
  · exact recorded

end FieldDirective.Upholds

namespace InheritanceSettings

variable {settings : InheritanceSettings} {policy : ScopedPolicy} {keys : List String}
  {directive : FieldDirective} {front : List ScopedPolicy}

/-- A declared flag or threshold becomes the value, or is on record as looser. -/
theorem upholds_resultOf (usual : directive.IsStandard) (scalar : directive.kind.isArray = false)
    {field : FieldPath} (found : settings.registry.directive? field = some directive)
    {isOverride : Bool} {declared : Json} {inherited : Option MergedField}
    {conflicts : List PolicyConflict}
    (suits : ∀ merged, inherited = some merged → settings.registry.Suits field merged.value)
    (suits' : settings.registry.Suits field declared)
    (recorded : settings.foundBy policy isOverride field declared inherited ⊆ conflicts) :
    directive.Upholds field conflicts (policy.source isOverride) declared
      (settings.resultOf policy isOverride field declared inherited) := by
  cases inherited with
  | none => exact .taken
  | some merged =>
      cases isOverride with
      | true => exact .taken
      | false =>
          rw [resultOf, found, if_neg Bool.false_ne_true]
          have accepted := suits merged rfl directive found
          have accepted' := suits' directive found
          rcases FieldDirective.combine_cases policy.mode usual scalar accepted accepted' with
            taken | ⟨additive, inexact⟩ | ⟨additive, kept, ⟨free, free'⟩, looser⟩
          · rw [taken]
            exact .taken
          · exact .inexact rfl additive inexact
          · rw [kept]
            refine .refused rfl additive looser
              ⟨settings.conflict policy field .looser merged declared, recorded ?_, rfl, rfl, rfl, rfl,
                rfl⟩
            have compared : settings.comparedOf policy false field declared merged = declared := by
              rw [comparedOf, FieldDirective.not_array_of_accepts scalar accepted']
              rfl
            have different : settings.sameCanonical field merged.value declared = false := by
              rw [Bool.eq_false_iff, ne_eq, sameCanonical_iff free free',
                FieldDirective.arranged_of_accepts scalar accepted,
                FieldDirective.arranged_of_accepts scalar accepted']
              intro same
              have self : ConflictClassification.classify (some directive) declared declared = none :=
                ConflictClassification.classify_self free' fun _ known =>
                  Option.some.inj known ▸ accepted'
              rw [same, self] at looser
              cases looser
            rw [foundBy, compared, difference, different, if_neg Bool.false_ne_true, found, looser]
            exact List.mem_cons_self

/-! ## Runs -/

theorem names_append {source : FieldProvenance} {field : FieldPath} {declared : Json}
    {later : ScopedPolicy} (names : source.Names front field policy declared)
    (silent : ∀ isOverride, later.declaredAt? isOverride field = none) :
    source.Names (front ++ [later]) field policy declared := by
  obtain ⟨before, back, rfl, undeclared⟩ := names.last
  refine { names with last := ⟨before, back ++ [later], by simp, fun other listed => ?_⟩ }
  rcases List.mem_append.mp listed with old | new
  · exact undeclared other old
  · rw [List.mem_singleton.mp new]
    exact silent

theorem names_source {field : FieldPath} {isOverride : Bool} {declared : Json}
    (declares : policy.declaredAt? isOverride field = some declared)
    (unchanged : isOverride = false → policy.declaredAt? true field = none) :
    (policy.source isOverride).Names (front ++ [policy]) field policy declared :=
  ⟨rfl, rfl, rfl, declares, unchanged, front, [], rfl, List.forall_mem_nil _⟩

theorem attributed_applyPolicy (usual : directive.IsStandard)
    (scalar : directive.kind.isArray = false)
    (found : settings.registry.directiveForKeys? keys = some directive)
    (reachable : settings.registry.Reachable keys) (known : policy.WellFormed)
    {state final : MergeState} (sound : SoundFields settings.registry.Suits state.fields)
    (settled : final.Settled) (applied : settings.applyPolicy policy state = .ok final)
    (attributed : directive.Attributed front (.ofKeys keys) state.conflicts
      (state.fields.find? (.ofKeys keys))) :
    directive.Attributed (front ++ [policy]) (.ofKeys keys) final.conflicts
      (final.fields.find? (.ofKeys keys)) := by
  obtain ⟨declared, overridden, middle, rules, overrides, same, grows, byRules, byOverrides⟩ :=
    declaration_applyPolicy (.ofKeys keys) known applied settled
  have directed : settings.registry.directive? (.ofKeys keys) = some directive :=
    FieldRegistry.directive?_ofKeys.trans found
  rw [ScopedPolicy.find?_overridden known reachable overrides] at byOverrides
  rw [ScopedPolicy.find?_declared known reachable rules] at byRules
  cases override : policy.declaredAt? true (.ofKeys keys) with
  | some value =>
      rw [override] at byOverrides
      rw [byOverrides.eq_declared]
      refine .present (names_source override fun silent => nomatch silent) ?_
      cases middle.fields.find? (.ofKeys keys) <;> exact .taken
  | none =>
      rw [override] at byOverrides
      rw [byOverrides.eq_kept]
      cases rule : policy.declaredAt? false (.ofKeys keys) with
      | some value =>
          rw [rule] at byRules
          have suits := ScopedPolicy.suits_of_declares
            (ScopedPolicy.declares_of_declaredAt? known reachable rules rule)
          rw [byRules.eq_declared]
          refine .present (names_source rule fun _ => override) ?_
          exact upholds_resultOf usual scalar directed (fun merged => sound.holds _ merged)
            suits (List.Subset.trans byRules.foundBy_subset grows)
      | none =>
          rw [rule] at byRules
          rw [byRules.eq_kept, keptBy]
          split
          · exact .absent
          · have silent : ∀ isOverride, policy.declaredAt? isOverride (.ofKeys keys) = none :=
              Bool.forall_bool.mpr ⟨rule, override⟩
            have later := (conflicts_prefix_applyPolicy applied).subset
            cases before : state.fields.find? (.ofKeys keys) with
            | none => exact .absent
            | some merged =>
                rw [before] at attributed
                cases attributed with
                | present names upholds =>
                    exact .present (names_append names silent) (upholds.mono later)

theorem attributed_applyAll (usual : directive.IsStandard)
    (scalar : directive.kind.isArray = false)
    (found : settings.registry.directiveForKeys? keys = some directive)
    (reachable : settings.registry.Reachable keys) {rest : List ScopedPolicy}
    (known : ∀ policy ∈ rest, policy.WellFormed) {state final : MergeState}
    (sound : SoundFields settings.registry.Suits state.fields) (settled : final.Settled)
    (applied : settings.applyAll rest state = .ok final)
    (attributed : directive.Attributed front (.ofKeys keys) state.conflicts
      (state.fields.find? (.ofKeys keys))) :
    directive.Attributed (front ++ rest) (.ofKeys keys) final.conflicts
      (final.fields.find? (.ofKeys keys)) := by
  induction rest generalizing front state with
  | nil =>
      cases applied
      rw [List.append_nil]
      exact attributed
  | cons policy rest ih =>
      obtain ⟨middle, first, later⟩ := applyAll_cons_eq_ok applied
      obtain ⟨known, known_rest⟩ := List.forall_mem_cons.mp known
      have step := attributed_applyPolicy usual scalar found reachable known sound
        (settled.of_subset (conflicts_prefix_applyAll later).subset) first attributed
      have sound' := sound_applyPolicy settings.registry.combines_suits
        (fun _ _ => ScopedPolicy.suits_of_declares) sound first
      have run := ih known_rest sound' later step
      rw [List.append_assoc] at run
      exact run

/-! ## Outcomes -/

/-- Under the standard registry, the source of a flag or a threshold names the policy that declared
it last. The value is the declared one exactly if what was declared has no float and is not looser
than the value; what was declared without a float but has not become the value is on record as
looser. -/
theorem compute_attributes (conflictPolicy : ConflictPolicy) (target : ScopeId)
    (chain : List Scope) (policies : List ScopedPolicy) (outcome : EffectiveOutcome)
    (known : ∀ policy ∈ policies, policy.WellFormed)
    (computed : compute { conflicts := conflictPolicy } target chain policies = .ok outcome) :
    ∃ ordered, ScopedPolicy.applicationOrder chain policies = .ok ordered ∧
      ∀ keys directive source,
        FieldRegistry.standard.directiveForKeys? keys = some directive →
        directive.kind.isArray = false →
        outcome.policy.provenance.find? (.ofKeys keys) = some source →
        ∃ policy declared value, source.Names ordered (.ofKeys keys) policy declared ∧
          outcome.policy.value? (.ofKeys keys) = some value ∧
          (source.isOverride = true ∨ source.mode = .replace → value = declared) ∧
          (value = declared ↔ declared.floatFree = true ∧
            ConflictClassification.classify (some directive) value declared ≠ some .looser) ∧
          (declared.floatFree = true → value ≠ declared →
            RecordsLooser outcome.conflicts (.ofKeys keys) source declared) := by
  obtain ⟨ordered, final, run⟩ := run_of_compute computed
  refine ⟨ordered, run.placed, fun keys directive source found scalar recorded => ?_⟩
  have reachable := FieldRegistry.standard_reachable found
  have usual := FieldRegistry.standard_isStandard found
  have attributed : directive.Attributed ([] ++ ordered) (.ofKeys keys) final.conflicts
      (final.fields.find? (.ofKeys keys)) :=
    attributed_applyAll usual scalar found reachable
      (fun policy listed => known policy (run.mem_iff.mp listed)) sound_empty run.settled run.applied
      .absent
  rw [List.nil_append] at attributed
  rw [run.find?_provenance] at recorded
  obtain ⟨merged, reached, rfl⟩ := Option.map_eq_some_iff.mp recorded
  rw [reached] at attributed
  cases attributed with
  | @present _ policy declared names upholds =>
      have directed : FieldRegistry.standard.directive? (.ofKeys keys) = some directive :=
        FieldRegistry.directive?_ofKeys.trans found
      obtain ⟨free, suits⟩ := run.fits _ merged reached
      have self : ConflictClassification.classify (some directive) merged.value merged.value = none :=
        ConflictClassification.classify_self free fun _ known =>
          Option.some.inj known ▸ suits directive directed
      have value : outcome.policy.value? (.ofKeys keys) = some merged.value := by
        rw [run.value? reachable, reached]
        rfl
      rw [run.conflicts]
      exact ⟨policy, declared, merged.value, names, value, upholds.eq_of_forced,
        upholds.eq_iff free self, upholds.recorded free⟩

/-! ### A source that did not give the value -/

/-- The policy that a source names need not declare the value: it is named as well where what it
declares is looser than what it inherited. -/
theorem not_declared_by_source : ¬ ∀ (target : ScopeId) (chain : List Scope)
    (policies : List ScopedPolicy) (outcome : EffectiveOutcome),
    (∀ policy ∈ policies, policy.WellFormed) → compute {} target chain policies = .ok outcome →
    ∀ keys directive source value,
      FieldRegistry.standard.directiveForKeys? keys = some directive →
      directive.kind.isArray = false →
      outcome.policy.provenance.find? (.ofKeys keys) = some source →
      outcome.policy.value? (.ofKeys keys) = some value →
      ∃ policy ∈ policies, policy.scope = source.scope ∧ policy.id = source.policy ∧
        policy.declaredAt? source.isOverride (.ofKeys keys) = some value := by
  intro bound
  obtain ⟨outcome, computed, value, source⟩ := compute_approvalPolicies
  obtain ⟨policy, listed, _, named, declares⟩ := bound _ _ _ outcome wellFormed_approvalPolicies
    computed ["min_approvals"] .lowerBound _ _ (by decide) rfl source value
  simp only [approvalPolicies, List.mem_cons, List.not_mem_nil, or_false] at listed
  rcases listed with rfl | rfl
  · exact absurd named (by decide)
  · exact absurd declares (by decide)

theorem compute_attributes_approvalPolicies : ∃ outcome policy declared,
    compute {} brandScope.id brandChain approvalPolicies = .ok outcome ∧
      FieldProvenance.Names (fewerApprovals.source false) approvalPolicies
        (.ofKeys ["min_approvals"]) policy declared ∧
      (Json.int 2 = declared ↔ declared.floatFree = true ∧ ConflictClassification.classify
        (some .lowerBound) (.int 2) declared ≠ some .looser) := by
  obtain ⟨outcome, computed, reached, recorded⟩ := compute_approvalPolicies
  obtain ⟨ordered, placed, attributes⟩ :=
    compute_attributes {} _ _ _ outcome wellFormed_approvalPolicies computed
  obtain ⟨policy, declared, value, names, reached', _, same, _⟩ :=
    attributes ["min_approvals"] .lowerBound _ (by decide) rfl recorded
  have order : ScopedPolicy.applicationOrder brandChain approvalPolicies = .ok approvalPolicies :=
    applicationOrder_brandChain rfl rfl
  rw [order] at placed
  cases placed
  rw [reached] at reached'
  cases reached'
  exact ⟨outcome, policy, declared, computed, names, same⟩

end InheritanceSettings

end Governance
