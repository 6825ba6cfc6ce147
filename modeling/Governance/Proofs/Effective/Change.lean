import Governance.Proofs.Effective.Coherence
import Governance.Proofs.Effective.Step

/-!
# Changes that leave a record

The last policy of a chain leaves a conflict on every field whose canonical form it changes, with
three exceptions: the elements of a set may be repeated more or less often, a field that imposed
nothing may be dropped and overridden by one policy, and a float in the rules of a policy may hide
a difference that its overrides make.
-/

set_option autoImplicit false

namespace Governance

def FieldRegistry.SameElements (registry : FieldRegistry) (field : FieldPath)
    (earlier later : Json) : Prop :=
  ∃ directive items others, registry.directive? field = some directive ∧
    directive.isOrderless = true ∧ earlier = .arr items ∧ later = .arr others ∧
    ∀ item, item ∈ items ↔ item ∈ others

/-- Whether no conflict tells two values of a field apart. -/
inductive FieldRegistry.Indistinct (registry : FieldRegistry) (field : FieldPath)
    (earlier later : Json) : Prop where
  | canonical : Canonical.valueAt registry field earlier = Canonical.valueAt registry field later →
      Indistinct registry field earlier later
  | elements : registry.SameElements field earlier later →
      Indistinct registry field earlier later

/-- The ways in which a policy changes a field without a conflict on it. -/
inductive ScopedPolicy.ChangesSilently (policy : ScopedPolicy) (registry : FieldRegistry)
    (field : FieldPath) (earlier later : Json) : Prop where
  /-- The elements of a set stay, but some are repeated more or less often. -/
  | repeated : registry.SameElements field earlier later →
      ChangesSilently policy registry field earlier later
  /-- The rules drop a field that imposed nothing, and the overrides declare it. -/
  | dropped {declared overridden : Leaves} : policy.mode = .replace →
      policy.declared registry = .ok declared →
      InheritanceSettings.covers declared field = true → (∀ leaf ∈ declared, leaf.1 ≠ field) →
      registry.ImposesNothing field earlier → policy.overridden registry = .ok overridden →
      (field, later) ∈ overridden → ChangesSilently policy registry field earlier later
  /-- The rules declare a value with a float, and the overrides another value. -/
  | inexact {declared overridden : Leaves} {value : Json} :
      policy.declared registry = .ok declared → (field, value) ∈ declared →
      value.floatFree = false → policy.overridden registry = .ok overridden →
      (field, later) ∈ overridden → ChangesSilently policy registry field earlier later

/-! ## Values that are not told apart -/

namespace FieldRegistry

variable {registry : FieldRegistry} {field : FieldPath} {earlier later : Json}

theorem Indistinct.refl (value : Json) : registry.Indistinct field value value := .canonical rfl

end FieldRegistry

namespace InheritanceSettings

variable {settings : InheritanceSettings} {field : FieldPath} {earlier later : Json}

theorem indistinct_of_difference (orderly : settings.registry.Orderly)
    (fits : settings.registry.Fits field earlier) (fits' : settings.registry.Fits field later)
    (unchanged : settings.difference field earlier later = none) :
    settings.registry.Indistinct field earlier later := by
  cases same : settings.sameCanonical field earlier later with
  | true =>
      rw [sameCanonical_iff fits.1 fits'.1] at same
      refine .canonical ?_
      rw [Canonical.valueAt, Canonical.valueAt,
        Canonical.normalize_eq_arranged settings.registry fits.1,
        Canonical.normalize_eq_arranged settings.registry fits'.1, same]
  | false =>
      rw [difference, same, if_neg Bool.false_ne_true] at unchanged
      cases found : settings.registry.directive? field with
      | none =>
          rw [found, ConflictClassification.classify] at unchanged
          cases shape : earlier.sameShape later with
          | false => simp [shape] at unchanged
          | true =>
              cases equal : earlier.same later with
              | false => simp [shape, equal] at unchanged
              | true =>
                  rw [(Json.same_iff fits.1).mp equal]
                  exact .refl later
      | some directive =>
          have accepted := fits.2 directive found
          have accepted' := fits'.2 directive found
          have coherent := orderly.coherent _ _ found
          simp only [found, ConflictClassification.classify, accepted, accepted', Bool.and_self,
            Bool.not_true, Bool.false_eq_true, if_false] at unchanged
          obtain ⟨strict, strict'⟩ :=
            (FieldDirective.grades_ofKind coherent fits.1 fits'.1 accepted accepted').eq_none_iff.mp
              unchanged
          rcases FieldDirective.eq_or_elements_of_atLeastAsStrict strict strict' with
            rfl | ⟨orderless, items, others, shape, shape', elements⟩
          · exact .refl earlier
          · exact .elements ⟨directive, items, others, found, orderless, shape, shape', elements⟩

theorem arranged_of_valueAt (free : earlier.floatFree = true) (free' : later.floatFree = true)
    (same : Canonical.valueAt settings.registry field earlier
      = Canonical.valueAt settings.registry field later) :
    Canonical.arranged settings.registry field.keys earlier
      = Canonical.arranged settings.registry field.keys later := by
  rw [Canonical.valueAt, Canonical.valueAt,
    Canonical.normalize_eq_arranged settings.registry free,
    Canonical.normalize_eq_arranged settings.registry free', Except.ok.injEq] at same
  exact same

theorem elements_of_canonical (orderly : settings.registry.Orderly) {directive : FieldDirective}
    (found : settings.registry.directive? field = some directive)
    (orderless : directive.isOrderless = true) {others : List Json}
    (fits : settings.registry.Fits field earlier)
    (fits' : settings.registry.Fits field (.arr others))
    (same : Canonical.valueAt settings.registry field earlier
      = Canonical.valueAt settings.registry field (.arr others)) :
    ∃ items, earlier = .arr items ∧ ∀ item, item ∈ items ↔ item ∈ others := by
  have accepted' := fits'.2 directive found
  have array : directive.kind.isArray = true := by
    cases known : directive.kind with
    | boolean | number => simp [known, ValueKind.accepts] at accepted'
    | stringArray | objectArray => rfl
  obtain ⟨items, rfl⟩ := ValueKind.exists_items_of_accepts array (fits.2 directive found)
  have perm := items_of_arranged_eq orderly found (fits.2 directive found) accepted'
    (arranged_of_valueAt fits.1 fits'.1 same)
  rw [if_pos orderless] at perm
  exact ⟨items, rfl, fun item => perm.mem_iff⟩

theorem indistinct_trans (orderly : settings.registry.Orderly) {middle : Json}
    (fits : settings.registry.Fits field earlier) (fits' : settings.registry.Fits field middle)
    (fits'' : settings.registry.Fits field later)
    (first : settings.registry.Indistinct field earlier middle)
    (second : settings.registry.Indistinct field middle later) :
    settings.registry.Indistinct field earlier later := by
  cases first with
  | canonical same =>
      cases second with
      | canonical same' => exact .canonical (same.trans same')
      | elements elements =>
          obtain ⟨directive, items, others, found, orderless, rfl, rfl, equal⟩ := elements
          obtain ⟨before, rfl, equal'⟩ :=
            elements_of_canonical orderly found orderless fits fits' same
          exact .elements ⟨directive, before, others, found, orderless, rfl, rfl,
            fun item => (equal' item).trans (equal item)⟩
  | elements elements =>
      obtain ⟨directive, items, others, found, orderless, rfl, rfl, equal⟩ := elements
      cases second with
      | canonical same =>
          obtain ⟨after, rfl, equal'⟩ :=
            elements_of_canonical orderly found orderless fits'' fits' same.symm
          exact .elements ⟨directive, items, after, found, orderless, rfl, rfl,
            fun item => (equal item).trans (equal' item).symm⟩
      | elements elements =>
          obtain ⟨directive', items', others', found', _, shape, rfl, equal'⟩ := elements
          cases shape
          exact .elements ⟨directive, items, others', found, orderless, rfl, rfl,
            fun item => (equal item).trans (equal' item)⟩

theorem eq_of_indistinct_flags {flag flag' : Bool}
    (indistinct : settings.registry.Indistinct field (.bool flag) (.bool flag')) : flag = flag' := by
  cases indistinct with
  | canonical same => exact Json.bool.inj (arranged_of_valueAt rfl rfl same)
  | elements elements =>
      obtain ⟨_, _, _, _, _, shape, _⟩ := elements
      cases shape

/-! ## One policy -/

variable {policy : ScopedPolicy}

/-- A declared value for which no conflict is found leaves a value that is not told apart from the
inherited one. -/
theorem indistinct_resultOf (orderly : settings.registry.Orderly) {isOverride : Bool}
    {declared : Json} {inherited : MergedField}
    (fits : settings.registry.Fits field inherited.value)
    (fits' : settings.registry.Fits field
      (settings.resultOf policy isOverride field declared (some inherited)))
    (unchanged : settings.difference field inherited.value
      (settings.comparedOf policy isOverride field declared inherited) = none) :
    settings.registry.Indistinct field inherited.value
      (settings.resultOf policy isOverride field declared (some inherited)) := by
  rw [comparedOf] at unchanged
  cases array : declared.isArray with
  | true =>
      rw [array, if_pos rfl] at unchanged
      exact indistinct_of_difference orderly fits fits' unchanged
  | false =>
      rw [array, if_neg Bool.false_ne_true] at unchanged
      have result := InheritanceMode.combined_combine (if isOverride then .replace else policy.mode)
        (settings.registry.directive? field) inherited.value declared
      rw [← resultOf] at result
      generalize settings.resultOf policy isOverride field declared (some inherited) = combined
        at fits' result ⊢
      cases result with
      | declared => exact indistinct_of_difference orderly fits fits' unchanged
      | inherited => exact .refl _
      | @either flag flag' same same' =>
          rw [same'] at unchanged
          rw [same] at fits unchanged ⊢
          have fits'' : settings.registry.Fits field (.bool flag') := by
            refine ⟨rfl, fun directive found => ?_⟩
            have accepted := fits'.2 directive found
            cases known : directive.kind <;> rw [known] at accepted <;> exact accepted
          have equal := eq_of_indistinct_flags
            (indistinct_of_difference orderly fits fits'' unchanged)
          rw [equal, Bool.or_self]
          exact .refl _
      | elements _ same' =>
          rw [same'] at array
          cases array

def Unrecorded (policy : ScopedPolicy) (field : FieldPath) (conflicts : List PolicyConflict) :
    Prop :=
  ∀ conflict ∈ conflicts, conflict.field = field → conflict.childScope = policy.scope →
    conflict.childPolicy ≠ policy.id

theorem difference_of_unrecorded {isOverride : Bool} {declared : Json} {inherited : MergedField}
    {conflicts : List PolicyConflict} (unrecorded : Unrecorded policy field conflicts)
    (recorded : settings.foundBy policy isOverride field declared (some inherited) ⊆ conflicts) :
    settings.difference field inherited.value
      (settings.comparedOf policy isOverride field declared inherited) = none := by
  cases found : settings.difference field inherited.value
      (settings.comparedOf policy isOverride field declared inherited) with
  | none => rfl
  | some classification =>
      simp only [foundBy, found, List.cons_subset, List.nil_subset, and_true] at recorded
      exact absurd rfl (unrecorded _ recorded rfl rfl)

/-- A field that a policy drops without a conflict imposed nothing. -/
theorem imposesNothing_of_unrecorded {declared : Leaves} {state : MergeState}
    {merged : MergedField} (replacing : policy.mode = .replace)
    (covered : covers declared field = true) (undeclared : ∀ leaf ∈ declared, leaf.1 ≠ field)
    (before : state.fields.find? field = some merged)
    (unrecorded : Unrecorded policy field (settings.applyRules policy declared state).conflicts) :
    settings.registry.ImposesNothing field merged.value := by
  rw [← FieldRegistry.losingLoosens_eq_false_iff]
  cases loosens : FieldDirective.losingLoosens (settings.registry.directive? field)
      merged.value with
  | false => rfl
  | true =>
      have displaced : (displacedBy declared state).find? field = some merged := by
        rw [displacedBy, SortedMap.find?_filter, before, Option.filter_some, if_pos covered]
      rw [applyRules_of_replace replacing] at unrecorded
      exact absurd rfl (unrecorded _
        (List.mem_append_right _ (mem_dropped displaced undeclared loosens)) rfl rfl)

theorem indistinct_of_declaration (orderly : settings.registry.Orderly) {isOverride : Bool}
    {declared : Json} {inherited after : MergedField} {kept : Option MergedField}
    {conflicts : List PolicyConflict} (fits : settings.registry.Fits field inherited.value)
    (fits' : settings.registry.Fits field after.value)
    (unrecorded : Unrecorded policy field conflicts)
    (declaration : Declaration settings policy isOverride field (some inherited) kept conflicts
      (some declared) (some after)) :
    settings.registry.Indistinct field inherited.value after.value := by
  have unchanged := difference_of_unrecorded unrecorded declaration.foundBy_subset
  obtain rfl := Option.some.inj declaration.eq_declared
  exact indistinct_resultOf orderly fits fits' unchanged

/-- What rules that leave no conflict make of a field that the overrides do not declare is not told
apart from the inherited value. -/
theorem indistinct_of_rules (orderly : settings.registry.Orderly) {leaves : Leaves}
    {declared : Option Json} {before after : MergedField} {conflicts : List PolicyConflict}
    (fits : settings.registry.Fits field before.value)
    (fits' : settings.registry.Fits field after.value)
    (unrecorded : Unrecorded policy field conflicts)
    (byRules : Declaration settings policy false field (some before)
      (keptBy policy leaves field (some before)) conflicts declared (some after)) :
    settings.registry.Indistinct field before.value after.value := by
  cases declared with
  | some value => exact indistinct_of_declaration orderly fits fits' unrecorded byRules
  | none =>
      have kept := byRules.eq_kept
      rw [keptBy] at kept
      split at kept
      · cases kept
      · cases kept
        exact .refl _

/-- What a policy that leaves no conflict makes of a field that its overrides declare is not told
apart from the inherited value, unless its rules drop the field first or give it a float. -/
theorem indistinct_of_overrides (orderly : settings.registry.Orderly)
    {declared overridden : Leaves} {state : MergeState} {before after : MergedField}
    {value : Json} {conflicts : List PolicyConflict}
    (rules : policy.declared settings.registry = .ok declared)
    (overrides : policy.overridden settings.registry = .ok overridden)
    (override : Entries.find? field overridden = some value)
    (found : state.fields.find? field = some before)
    (fits : settings.registry.Fits field before.value)
    (fits' : settings.registry.Fits field after.value)
    (unrecorded : Unrecorded policy field conflicts)
    (grows : (settings.applyRules policy declared state).conflicts ⊆ conflicts)
    (byRules : Declaration settings policy false field (some before)
      (keptBy policy declared field (some before))
      (settings.applyRules policy declared state).conflicts (Entries.find? field declared)
      ((settings.applyRules policy declared state).fields.find? field))
    (byOverrides : Declaration settings policy true field
      ((settings.applyRules policy declared state).fields.find? field)
      ((settings.applyRules policy declared state).fields.find? field) conflicts (some value)
      (some after)) :
    settings.registry.Indistinct field before.value after.value ∨
      policy.ChangesSilently settings.registry field before.value after.value := by
  have unrecorded_rules : Unrecorded policy field
      (settings.applyRules policy declared state).conflicts :=
    fun conflict listed => unrecorded conflict (grows listed)
  have overriding : after.value = value := by
    rw [Option.some.inj byOverrides.eq_declared]
    cases (settings.applyRules policy declared state).fields.find? field <;> rfl
  have listed : (field, after.value) ∈ overridden := overriding ▸ Entries.mem_of_find? override
  cases rule : Entries.find? field declared with
  | none =>
      rw [rule] at byRules
      rw [byRules.eq_kept, keptBy] at byOverrides
      split at byOverrides
      · rename_i dropped
        obtain ⟨replacing, covered⟩ := dropped
        have undeclared : ∀ leaf ∈ declared, leaf.1 ≠ field := Entries.find?_eq_none_iff.mp rule
        have nothing := imposesNothing_of_unrecorded replacing covered undeclared found
          unrecorded_rules
        exact .inr (.dropped replacing rules covered undeclared nothing overrides listed)
      · exact .inl (indistinct_of_declaration orderly fits fits' unrecorded byOverrides)
  | some between =>
      have listed_rule := Entries.mem_of_find? rule
      rw [rule] at byRules
      cases free : between.floatFree with
      | false => exact .inr (.inexact rules listed_rule free overrides listed)
      | true =>
          -- no conflict from the inherited value to the one between, nor from there to the last
          have shape := byRules.eq_declared
          rw [shape] at byRules byOverrides
          have suits : settings.registry.Suits field between :=
            ScopedPolicy.suits_of_declares (.inl ⟨declared, rules, listed_rule⟩)
          have combined := InheritanceMode.combined_combine policy.mode
            (settings.registry.directive? field) before.value between
          have fits_middle := FieldRegistry.fits_of_combined fits ⟨free, suits⟩ combined
          have first := indistinct_of_declaration orderly fits fits_middle unrecorded_rules byRules
          have second := indistinct_of_declaration orderly fits_middle fits' unrecorded byOverrides
          exact .inl (indistinct_trans orderly fits fits_middle fits' first second)

/-- A policy that leaves no conflict on a field leaves a value that is not told apart from the
inherited one, or changes it in one of the silent ways. -/
theorem indistinct_applyPolicy (orderly : settings.registry.Orderly) (known : policy.WellFormed)
    {state final : MergeState} {before after : MergedField} (settled : final.Settled)
    (applied : settings.applyPolicy policy state = .ok final)
    (found : state.fields.find? field = some before)
    (found' : final.fields.find? field = some after)
    (fits : settings.registry.Fits field before.value)
    (fits' : settings.registry.Fits field after.value)
    (unrecorded : Unrecorded policy field final.conflicts) :
    settings.registry.Indistinct field before.value after.value ∨
      policy.ChangesSilently settings.registry field before.value after.value := by
  obtain ⟨declared, overridden, middle, rules, overrides, rfl, grows, byRules, byOverrides⟩ :=
    declaration_applyPolicy field known applied settled
  rw [found] at byRules
  rw [found'] at byOverrides
  cases override : Entries.find? field overridden with
  | none =>
      rw [override] at byOverrides
      rw [← byOverrides.eq_kept] at byRules
      exact .inl (indistinct_of_rules orderly fits fits'
        (fun conflict listed => unrecorded conflict (grows listed)) byRules)
  | some value =>
      rw [override] at byOverrides
      exact indistinct_of_overrides orderly rules overrides override found fits fits' unrecorded
        grows byRules byOverrides

/-! ## Outcomes -/

/-- Under the standard registry, the policy that is applied last leaves a conflict on every field
whose canonical form it changes, unless it changes the field in one of the silent ways. -/
theorem compute_records_change (conflictPolicy : ConflictPolicy) (target : ScopeId)
    (chain : List Scope) (policies whole ordered : List ScopedPolicy) (last : ScopedPolicy)
    (earlier later : EffectiveOutcome) (known : last.WellFormed)
    (placed : ScopedPolicy.applicationOrder chain policies = .ok ordered)
    (placed' : ScopedPolicy.applicationOrder chain whole = .ok (ordered ++ [last]))
    (computed : compute { conflicts := conflictPolicy } target chain policies = .ok earlier)
    (computed' : compute { conflicts := conflictPolicy } target chain whole = .ok later) :
    ∀ field before after, field ∈ earlier.policy.provenance.keys →
      field ∈ later.policy.provenance.keys → earlier.policy.value? field = some before →
      later.policy.value? field = some after →
      Canonical.valueAt .standard field before ≠ Canonical.valueAt .standard field after →
      (∃ conflict ∈ later.conflicts, conflict.field = field ∧ conflict.childScope = last.scope ∧
        conflict.childPolicy = last.id) ∨
      last.ChangesSilently .standard field before after := by
  obtain ⟨_, middle, run⟩ := run_of_compute computed
  obtain ⟨_, final, run'⟩ := run_of_compute computed'
  obtain rfl := Except.ok.inj (run.placed.symm.trans placed)
  obtain rfl := Except.ok.inj (run'.placed.symm.trans placed')
  obtain ⟨_, front, back⟩ := applyAll_append_eq_ok run'.applied
  obtain rfl := Except.ok.inj (run.applied.symm.trans front)
  obtain ⟨_, applied, rest⟩ := applyAll_cons_eq_ok back
  cases rest
  intro field before after listed listed' value value' differ
  obtain ⟨merged, found⟩ := Option.isSome_iff_exists.mp ((run.shows.listed field).mp listed)
  obtain ⟨merged', found'⟩ := Option.isSome_iff_exists.mp ((run'.shows.listed field).mp listed')
  obtain rfl := Option.some.inj (value.symm.trans (run.shows.value field merged found))
  obtain rfl := Option.some.inj (value'.symm.trans (run'.shows.value field merged' found'))
  by_cases unrecorded : Unrecorded last field final.conflicts
  · rcases indistinct_applyPolicy FieldRegistry.standard_orderly known run'.settled applied found
      found' (run.fits _ _ found) (run'.fits _ _ found') unrecorded with indistinct | silent
    · cases indistinct with
      | canonical same => exact absurd same differ
      | elements elements => exact .inr (.repeated elements)
    · exact .inr silent
  · simp only [Unrecorded, not_forall, not_not] at unrecorded
    obtain ⟨conflict, recorded, named, scope, id⟩ := unrecorded
    rw [run'.conflicts]
    exact .inl ⟨conflict, recorded, named, scope, id⟩

/-! ### A threshold that is raised, and an element that is repeated -/

theorem applicationOrder_take_one {base change : ScopedPolicy}
    (above : base.scope = companyScope.id) (below : change.scope = brandScope.id) :
    ScopedPolicy.applicationOrder brandChain [base] = .ok [base] :=
  (ScopedPolicy.applicationOrder_eq_ok (applicationOrder_brandChain above below)).2 1

/-- The value of a field before and after the policy of a brand is applied. -/
theorem values_brandChain {base change : ScopedPolicy} {first second : MergeState}
    (above : base.scope = companyScope.id) (below : change.scope = brandScope.id)
    (applied : InheritanceSettings.applyAll {} [base] {} = .ok first)
    (applied' : InheritanceSettings.applyAll {} [base, change] {} = .ok second)
    (settled : first.incompatible? = none) (settled' : second.incompatible? = none)
    (free : first.document.floatFree = true) (free' : second.document.floatFree = true) :
    ∃ earlier later,
      compute {} brandScope.id brandChain [base] = .ok earlier ∧
      compute {} brandScope.id brandChain [base, change] = .ok later ∧
      earlier.Shows first ∧ later.Shows second := by
  obtain ⟨earlier, computed, values, provenance, conflicts⟩ := @compute_of_applyAll {}
    brandScope.id brandChain _ _ _ (by decide) (applicationOrder_take_one above below) applied
    settled free
  obtain ⟨later, computed', values', provenance', conflicts'⟩ :=
    compute_brandChain above below applied' settled' free'
  exact ⟨earlier, later, computed, computed',
    EffectiveOutcome.shows_of_eq (sound_applyAll_placed applied) values provenance conflicts,
    EffectiveOutcome.shows_of_eq (sound_applyAll_placed applied') values' provenance' conflicts'⟩

theorem compute_records_change_brandApprovals : ∃ later,
    compute {} brandScope.id brandChain [companyApprovals, brandApprovals] = .ok later ∧
      ∃ conflict ∈ later.conflicts, conflict.field = .ofKeys ["min_approvals"] ∧
        conflict.childScope = brandScope.id ∧ conflict.childPolicy = brandApprovals.id := by
  obtain ⟨earlier, later, computed, computed', shows, shows'⟩ :=
    @values_brandChain companyApprovals brandApprovals _ _ rfl rfl rfl rfl (by decide) (by decide)
      (by decide) (by decide)
  refine ⟨later, computed', ?_⟩
  have known : brandApprovals.WellFormed := ScopedPolicy.wellFormed_ofRules (by decide)
  rcases compute_records_change {} _ _ [companyApprovals] [companyApprovals, brandApprovals]
      [companyApprovals] brandApprovals earlier later known
      (@applicationOrder_take_one companyApprovals brandApprovals rfl rfl)
      (applicationOrder_brandChain rfl rfl) computed computed' (.ofKeys ["min_approvals"]) (.int 2)
      (.int 3) ((shows.listed _).mpr (by decide)) ((shows'.listed _).mpr (by decide))
      (shows.value _ ⟨.int 2, companyApprovals.source false⟩ (by decide))
      (shows'.value _ ⟨.int 3, brandApprovals.source false⟩ (by decide))
      (fun same => nomatch same) with recorded | silent
  · exact recorded
  · cases silent with
    | repeated elements =>
        obtain ⟨_, _, _, _, _, shape, _⟩ := elements
        cases shape
    | dropped replacing => cases replacing
    | inexact _ _ _ overrides listed =>
        cases overrides
        cases listed

def brandBlocksState : MergeState :=
  applyLeaf {} brandBlocks false (.ofKeys ["blocked_actions"]) (.arr [.str "export"])
    (some ⟨.arr [.str "export", .str "export"], companyBlocks.source false⟩)
    { fields := ({} : SortedMap FieldPath MergedField).insert (.ofKeys ["blocked_actions"])
        ⟨.arr [.str "export", .str "export"], companyBlocks.source false⟩ }

theorem conflicts_brandBlocksState : brandBlocksState.conflicts = [] := by
  have unchanged : difference {} (.ofKeys ["blocked_actions"])
      (.arr [.str "export", .str "export"]) (.arr [.str "export"]) = none := by
    rw [difference]
    split
    · rfl
    · decide
  have compared : comparedOf {} brandBlocks false (.ofKeys ["blocked_actions"])
      (.arr [.str "export"])
      ⟨.arr [.str "export", .str "export"], companyBlocks.source false⟩
        = .arr [.str "export"] := by decide
  rw [brandBlocksState, conflicts_applyLeaf, foundBy, compared, unchanged]
  rfl

/-- A change of the canonical form may leave no conflict at all: a union does not keep repeated
elements, and sets are compared by what they contain. -/
theorem change_not_recorded : ¬ ∀ (target : ScopeId) (chain : List Scope)
    (policies whole ordered : List ScopedPolicy) (last : ScopedPolicy)
    (earlier later : EffectiveOutcome), last.WellFormed →
    ScopedPolicy.applicationOrder chain policies = .ok ordered →
    ScopedPolicy.applicationOrder chain whole = .ok (ordered ++ [last]) →
    compute {} target chain policies = .ok earlier → compute {} target chain whole = .ok later →
    ∀ field before after, field ∈ earlier.policy.provenance.keys →
      field ∈ later.policy.provenance.keys → earlier.policy.value? field = some before →
      later.policy.value? field = some after →
      Canonical.valueAt .standard field before ≠ Canonical.valueAt .standard field after →
      ∃ conflict ∈ later.conflicts, conflict.field = field ∧ conflict.childPolicy = last.id := by
  intro bound
  have settled : brandBlocksState.incompatible? = none := by
    rw [MergeState.incompatible?, conflicts_brandBlocksState]
    rfl
  obtain ⟨earlier, later, computed, computed', shows, shows'⟩ :=
    @values_brandChain companyBlocks brandBlocks _ brandBlocksState rfl rfl rfl rfl (by decide)
      settled (by decide) (by decide)
  have differ : Canonical.valueAt .standard (.ofKeys ["blocked_actions"])
      (.arr [.str "export", .str "export"]) ≠
        Canonical.valueAt .standard (.ofKeys ["blocked_actions"]) (.arr [.str "export"]) := by
    intro same
    have perm := @items_of_arranged_eq {} (.ofKeys ["blocked_actions"])
      FieldRegistry.standard_orderly (.set .stringArray .moreIsStricter) (by decide)
      [.str "export", .str "export"] [.str "export"] (by decide) (by decide)
      (@arranged_of_valueAt {} _ _ _ (by decide) (by decide) same)
    have lengths := List.Perm.length_eq perm
    cases lengths
  obtain ⟨conflict, recorded, _⟩ := bound _ _ [companyBlocks] [companyBlocks, brandBlocks]
    [companyBlocks] brandBlocks earlier later (ScopedPolicy.wellFormed_ofRules (by decide))
    (@applicationOrder_take_one companyBlocks brandBlocks rfl rfl)
    (applicationOrder_brandChain rfl rfl) computed computed' (.ofKeys ["blocked_actions"])
    (.arr [.str "export", .str "export"]) (.arr [.str "export"])
    ((shows.listed _).mpr (by decide)) ((shows'.listed _).mpr (by decide))
    (shows.value _ ⟨.arr [.str "export", .str "export"], companyBlocks.source false⟩ (by decide))
    (shows'.value _ ⟨.arr [.str "export"], brandBlocks.source false⟩ (by decide)) differ
  rw [shows'.conflicts, conflicts_brandBlocksState] at recorded
  cases recorded

end InheritanceSettings

end Governance
