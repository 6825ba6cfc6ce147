import Governance.Proofs.Effective.Coherence
import Governance.Proofs.Effective.Step
import Mathlib.Order.Lattice

/-!
# What declared values add up to

Policies that merge or append, and override nothing, add their values up: a control is required
once one of them requires it, the strictest threshold wins, sets grow by union and sequences at
their end. What is merged one policy at a time is the same as one total over all declared values.
-/

set_option autoImplicit false

namespace Governance

/-- What the values that are declared for a field add up to, by the meaning of the field. -/
inductive FieldDirective.Totals (directive : FieldDirective) (values : List Json) : Json → Prop where
  | required (flags : List Bool) : directive = .requiredFlag → values = flags.map .bool →
      Totals directive values (.bool (flags.any id))
  | least (numbers : List Int) {number : Int} : directive = .upperBound →
      values = numbers.map .int → number ∈ numbers → (∀ other ∈ numbers, number ≤ other) →
      Totals directive values (.int number)
  | greatest (numbers : List Int) {number : Int} : directive = .lowerBound →
      values = numbers.map .int → number ∈ numbers → (∀ other ∈ numbers, other ≤ number) →
      Totals directive values (.int number)
  | union (lists : List (List Json)) {items : List Json} : directive.kind.isArray = true →
      directive.isOrderless = true → values = lists.map .arr →
      (∀ item, item ∈ items ↔ ∃ list ∈ lists, item ∈ list) → Totals directive values (.arr items)
  | concatenation (lists : List (List Json)) : directive.kind.isArray = true →
      directive.isOrderless = false → values = lists.map .arr →
      Totals directive values (.arr lists.flatten)

def FieldDirective.IsStandard (directive : FieldDirective) : Prop :=
  directive = .requiredFlag ∨ directive = .upperBound ∨ directive = .lowerBound ∨
    (directive.kind.isArray = true ∧ (directive = .set directive.kind directive.strictness ∨
      directive = .sequence directive.kind))

instance (directive : FieldDirective) : Decidable directive.IsStandard :=
  inferInstanceAs (Decidable (_ ∨ _))

theorem FieldRegistry.standard_isStandard {keys : List String} {directive : FieldDirective}
    (found : standard.directiveForKeys? keys = some directive) : directive.IsStandard := by
  have each : ∀ entry ∈ standard.directives.entries, entry.2.IsStandard := by decide
  exact each _ (Entries.mem_of_find? found)

/-! ## Combining two values -/

namespace Json

theorem mem_distinctAfter {seen items : List Json} (free : ∀ item ∈ items, item.floatFree = true)
    {item : Json} : item ∈ distinctAfter seen items ↔ item ∈ seen ∨ item ∈ items := by
  induction items generalizing seen with
  | nil => simp [distinctAfter]
  | cons first rest ih =>
      obtain ⟨free_first, free_rest⟩ := List.forall_mem_cons.mp free
      rw [distinctAfter, List.mem_cons]
      split
      · rename_i repeated
        have listed := (memberOf_iff free_first).mp repeated
        rw [ih free_rest]
        constructor
        · exact fun given => given.imp id .inr
        · intro given
          rcases given with old | rfl | later
          · exact .inl old
          · exact .inl listed
          · exact .inr later
      · rw [ih free_rest, List.mem_append, List.mem_singleton, or_assoc]

theorem bound_lt_int (inherited declared : Int) :
    bound .lt (.int inherited) (.int declared) = .int (min inherited declared) := by
  rw [bound, compareNumbers?]
  dsimp only
  split
  · rename_i less
    rw [Int.min_eq_right (Int.le_of_lt (Int.compare_eq_lt.mp less))]
  · rename_i notLess
    rw [Int.compare_eq_lt] at notLess
    rw [Int.min_eq_left (Int.not_lt.mp notLess)]

theorem bound_gt_int (inherited declared : Int) :
    bound .gt (.int inherited) (.int declared) = .int (max inherited declared) := by
  rw [bound, compareNumbers?]
  dsimp only
  split
  · rename_i greater
    rw [Int.max_eq_right (Int.le_of_lt (Int.compare_eq_gt.mp greater))]
  · rename_i notGreater
    rw [Int.compare_eq_gt] at notGreater
    rw [Int.max_eq_left (Int.not_lt.mp notGreater)]

end Json

theorem InheritanceMode.combine_of_not_array {mode : InheritanceMode} (additive : mode ≠ .replace)
    {directive : FieldDirective} {inherited declared : Json} (flat : declared.isArray = false) :
    mode.combine (some directive) inherited declared
      = directive.merge.combine inherited declared := by
  cases mode with
  | replace => exact absurd rfl additive
  | merge => rfl
  | append =>
      cases declared with
      | arr => cases flat
      | null | bool | int | float | str | obj => cases inherited <;> rfl

theorem InheritanceMode.combine_set {mode : InheritanceMode} (additive : mode ≠ .replace)
    (kind : ValueKind) (strictness : Strictness) {items added : List Json}
    (free : (Json.arr items).floatFree = true) (free' : (Json.arr added).floatFree = true) :
    ∃ all, mode.combine (some (.set kind strictness)) (.arr items) (.arr added) = .arr all ∧
      ∀ item, item ∈ all ↔ item ∈ items ∨ item ∈ added := by
  cases mode with
  | replace => exact absurd rfl additive
  | append => exact ⟨items ++ added, rfl, fun item => List.mem_append⟩
  | merge =>
      refine ⟨Json.distinctAfter [] (items ++ added), rfl, fun item => ?_⟩
      have free_both : ∀ item ∈ items ++ added, item.floatFree = true :=
        List.forall_mem_append.mpr ⟨Json.floatFree_arr.mp free, Json.floatFree_arr.mp free'⟩
      simp [Json.mem_distinctAfter free_both]

theorem InheritanceMode.combine_sequence {mode : InheritanceMode} (additive : mode ≠ .replace)
    (kind : ValueKind) (items added : List Json) :
    mode.combine (some (.sequence kind)) (.arr items) (.arr added) = .arr (items ++ added) := by
  cases mode with
  | replace => exact absurd rfl additive
  | merge | append => rfl

/-! ## Totals of one more value -/

theorem least_append {α : Type} [LinearOrder α] {numbers : List α} {number added : α}
    (present : number ∈ numbers) (below : ∀ other ∈ numbers, number ≤ other) :
    min number added ∈ numbers ++ [added] ∧
      ∀ other ∈ numbers ++ [added], min number added ≤ other := by
  constructor
  · rcases le_total number added with le | ge
    · rw [min_eq_left le]
      exact List.mem_append_left _ present
    · rw [min_eq_right ge]
      exact List.mem_append_right _ List.mem_cons_self
  · intro other given
    rcases List.mem_append.mp given with earlier | last
    · exact (min_le_left _ _).trans (below other earlier)
    · rw [List.mem_singleton.mp last]
      exact min_le_right _ _

theorem greatest_append {α : Type} [LinearOrder α] {numbers : List α} {number added : α}
    (present : number ∈ numbers) (above : ∀ other ∈ numbers, other ≤ number) :
    max number added ∈ numbers ++ [added] ∧
      ∀ other ∈ numbers ++ [added], other ≤ max number added :=
  @least_append αᵒᵈ _ numbers number added present above

namespace FieldDirective

variable {directive : FieldDirective} {values : List Json}

theorem IsStandard.eq_set (usual : directive.IsStandard) (array : directive.kind.isArray = true)
    (order : directive.isOrderless = true) : directive = .set directive.kind directive.strictness := by
  rcases usual with rfl | rfl | rfl | ⟨_, shape | shape⟩
  · cases array
  · cases array
  · cases array
  · exact shape
  · rw [shape] at order
    cases order

theorem IsStandard.eq_sequence (usual : directive.IsStandard) (array : directive.kind.isArray = true)
    (order : directive.isOrderless = false) : directive = .sequence directive.kind := by
  rcases usual with rfl | rfl | rfl | ⟨_, shape | shape⟩
  · cases array
  · cases array
  · cases array
  · rw [shape] at order
    cases order
  · exact shape

theorem totals_singleton (usual : directive.IsStandard) {value : Json}
    (free : value.floatFree = true) (accepted : directive.kind.accepts value = true) :
    directive.Totals [value] value := by
  rcases usual with rfl | rfl | rfl | ⟨array, _⟩
  · obtain ⟨flag, rfl⟩ := ValueKind.exists_flag_of_accepts accepted
    have total : requiredFlag.Totals [.bool flag] (.bool ([flag].any id)) := .required [flag] rfl rfl
    simpa using total
  · obtain ⟨number, rfl⟩ := ValueKind.exists_number_of_accepts free accepted
    exact .least [number] rfl rfl List.mem_cons_self (by simp)
  · obtain ⟨number, rfl⟩ := ValueKind.exists_number_of_accepts free accepted
    exact .greatest [number] rfl rfl List.mem_cons_self (by simp)
  · obtain ⟨items, rfl⟩ := ValueKind.exists_items_of_accepts array accepted
    cases order : directive.isOrderless with
    | true => exact .union [items] array order rfl (by simp)
    | false =>
        have total : directive.Totals [.arr items] (.arr [items].flatten) :=
          .concatenation [items] array order rfl
        simpa using total

/-- Combining a total with one more value gives the total of all of them. -/
theorem totals_combine (usual : directive.IsStandard) {mode : InheritanceMode}
    (additive : mode ≠ .replace) {inherited declared : Json} (free : inherited.floatFree = true)
    (free' : declared.floatFree = true) (accepted : directive.kind.accepts declared = true)
    (total : directive.Totals values inherited) :
    directive.Totals (values ++ [declared]) (mode.combine (some directive) inherited declared) := by
  cases total with
  | required flags shape listed =>
      subst shape listed
      obtain ⟨flag, rfl⟩ := ValueKind.exists_flag_of_accepts accepted
      rw [InheritanceMode.combine_of_not_array additive rfl]
      change requiredFlag.Totals _ (.bool (flags.any id || flag))
      have total : requiredFlag.Totals (flags.map .bool ++ [.bool flag])
          (.bool ((flags ++ [flag]).any id)) := .required (flags ++ [flag]) rfl (by simp)
      simpa using total
  | @least numbers number shape listed present below =>
      subst shape listed
      obtain ⟨added, rfl⟩ := ValueKind.exists_number_of_accepts free' accepted
      obtain ⟨present, below⟩ := @least_append Int _ numbers number added present below
      rw [InheritanceMode.combine_of_not_array additive rfl]
      change upperBound.Totals _ (Json.bound .lt (.int number) (.int added))
      rw [Json.bound_lt_int]
      exact .least (numbers ++ [added]) rfl (by simp) present below
  | @greatest numbers number shape listed present above =>
      subst shape listed
      obtain ⟨added, rfl⟩ := ValueKind.exists_number_of_accepts free' accepted
      obtain ⟨present, above⟩ := @greatest_append Int _ numbers number added present above
      rw [InheritanceMode.combine_of_not_array additive rfl]
      change lowerBound.Totals _ (Json.bound .gt (.int number) (.int added))
      rw [Json.bound_gt_int]
      exact .greatest (numbers ++ [added]) rfl (by simp) present above
  | @union lists items array order listed elements =>
      subst listed
      obtain ⟨added, rfl⟩ := ValueKind.exists_items_of_accepts array accepted
      obtain ⟨all, combined, elements'⟩ :=
        InheritanceMode.combine_set additive directive.kind directive.strictness free free'
      rw [← usual.eq_set array order] at combined
      rw [combined]
      refine .union (lists ++ [added]) array order (by simp) fun item => ?_
      rw [elements', elements]
      simp [or_and_right, exists_or]
  | concatenation lists array order listed =>
      subst listed
      obtain ⟨added, rfl⟩ := ValueKind.exists_items_of_accepts array accepted
      have combined :=
        InheritanceMode.combine_sequence additive directive.kind lists.flatten added
      rw [← usual.eq_sequence array order] at combined
      have flattened : lists.flatten ++ added = (lists ++ [added]).flatten := by simp
      rw [combined, flattened]
      exact .concatenation (lists ++ [added]) array order (by simp)

end FieldDirective

/-! ## Runs -/

/-- Whether a field has been collected from some declared values: it holds their total, or it is
absent because there are none. -/
inductive FieldDirective.Collected (directive : FieldDirective) : List Json → Option MergedField → Prop where
  | absent : Collected directive [] none
  | present {values : List Json} {merged : MergedField} : values ≠ [] →
      directive.Totals values merged.value → Collected directive values (some merged)

theorem FieldDirective.Collected.isSome_iff {directive : FieldDirective} {values : List Json}
    {field : Option MergedField} (collected : directive.Collected values field) :
    field.isSome = true ↔ values ≠ [] := by
  cases collected with
  | absent => simp
  | present nonempty => simp [nonempty]

theorem FieldDirective.Collected.totals {directive : FieldDirective} {values : List Json}
    {merged : MergedField} (collected : directive.Collected values (some merged)) :
    directive.Totals values merged.value := by
  cases collected with
  | present _ total => exact total

namespace InheritanceSettings

variable {settings : InheritanceSettings} {keys : List String} {directive : FieldDirective}
  {values : List Json}

/-- A policy that does not replace and has no overrides adds what its rules declare. -/
theorem collected_applyPolicy (usual : directive.IsStandard)
    (found : settings.registry.directiveForKeys? keys = some directive)
    (reachable : settings.registry.Reachable keys) {policy : ScopedPolicy}
    (known : policy.WellFormed) (free : policy.FloatFree) (additive : policy.mode ≠ .replace)
    (plain : policy.overrides = none) {state final : MergeState}
    (sound : SoundFields settings.registry.Fits state.fields) (settled : final.Settled)
    (applied : settings.applyPolicy policy state = .ok final)
    (collected : directive.Collected values (state.fields.find? (.ofKeys keys))) :
    directive.Collected (values ++ (policy.declaredAt? false (.ofKeys keys)).toList)
      (final.fields.find? (.ofKeys keys)) := by
  obtain ⟨declared, rules, byRules⟩ :=
    declaration_of_additive reachable known additive plain applied settled
  cases given : policy.declaredAt? false (.ofKeys keys) with
  | none =>
      rw [given] at byRules
      rw [byRules.eq_kept, Option.toList_none, List.append_nil]
      exact collected
  | some value =>
      have fits := ScopedPolicy.fits_of_declares free
        (ScopedPolicy.declares_of_declaredAt? known reachable rules given)
      have directed := FieldRegistry.directive?_ofKeys.trans found
      have accepted := fits.2 directive directed
      rw [given] at byRules
      rw [byRules.eq_declared]
      refine .present (List.append_ne_nil_of_right_ne_nil _ (List.cons_ne_nil _ _)) ?_
      cases before : state.fields.find? (.ofKeys keys) with
      | none =>
          have none_yet : values = [] := by
            by_contra nonempty
            have present := collected.isSome_iff.mpr nonempty
            rw [before] at present
            cases present
          rw [none_yet]
          exact FieldDirective.totals_singleton usual fits.1 accepted
      | some inherited =>
          rw [before] at collected
          have inherited_free := (sound.holds _ _ before).1
          rw [resultOf, directed]
          exact FieldDirective.totals_combine usual additive inherited_free fits.1 accepted
            collected.totals

theorem collected_applyAll (usual : directive.IsStandard)
    (found : settings.registry.directiveForKeys? keys = some directive)
    (reachable : settings.registry.Reachable keys) {policies : List ScopedPolicy}
    (known : ∀ policy ∈ policies, policy.WellFormed) (free : ∀ policy ∈ policies, policy.FloatFree)
    (additive : ∀ policy ∈ policies, policy.mode ≠ .replace)
    (plain : ∀ policy ∈ policies, policy.overrides = none) {state final : MergeState}
    (sound : SoundFields settings.registry.Fits state.fields) (settled : final.Settled)
    (applied : settings.applyAll policies state = .ok final)
    (collected : directive.Collected values (state.fields.find? (.ofKeys keys))) :
    directive.Collected
      (values ++ policies.filterMap fun policy => policy.declaredAt? false (.ofKeys keys))
      (final.fields.find? (.ofKeys keys)) := by
  induction policies generalizing state values with
  | nil =>
      cases applied
      rw [List.filterMap_nil, List.append_nil]
      exact collected
  | cons policy rest ih =>
      obtain ⟨middle, first, later⟩ := applyAll_cons_eq_ok applied
      obtain ⟨known, known_rest⟩ := List.forall_mem_cons.mp known
      obtain ⟨free, free_rest⟩ := List.forall_mem_cons.mp free
      obtain ⟨additive, additive_rest⟩ := List.forall_mem_cons.mp additive
      obtain ⟨plain, plain_rest⟩ := List.forall_mem_cons.mp plain
      have settled' := settled.of_subset (conflicts_prefix_applyAll later).subset
      have combines : Combines settings.registry.Fits := fun _ _ _ _ =>
        FieldRegistry.fits_of_combined
      have sound' := sound_applyPolicy combines (fun _ _ => ScopedPolicy.fits_of_declares free)
        sound first
      have step := collected_applyPolicy usual found reachable known free additive plain sound
        settled' first collected
      have run := ih known_rest free_rest additive_rest plain_rest sound' later step
      have split : (policy :: rest).filterMap (fun policy => policy.declaredAt? false (.ofKeys keys))
          = (policy.declaredAt? false (.ofKeys keys)).toList ++
            rest.filterMap fun policy => policy.declaredAt? false (.ofKeys keys) := by
        cases given : policy.declaredAt? false (.ofKeys keys) with
        | none => simp [given]
        | some value => simp [given]
      rw [split, ← List.append_assoc]
      exact run

/-! ## Outcomes -/

/-- Under the standard registry, policies that merge or append add their values up: a registered
field is in the outcome exactly if some policy declares it, with the total of the values that are
declared for it along the chain. -/
theorem compute_totals (conflictPolicy : ConflictPolicy) (target : ScopeId) (chain : List Scope)
    (policies : List ScopedPolicy) (outcome : EffectiveOutcome)
    (known : ∀ policy ∈ policies, policy.WellFormed) (free : ∀ policy ∈ policies, policy.FloatFree)
    (additive : ∀ policy ∈ policies, policy.mode ≠ .replace)
    (plain : ∀ policy ∈ policies, policy.overrides = none)
    (distinct : (policies.map fun policy => (policy.scope, policy.id)).Nodup)
    (computed : compute { conflicts := conflictPolicy } target chain policies = .ok outcome) :
    ∃ ordered : List ScopedPolicy, ordered.Perm policies ∧
      ordered.Pairwise (ScopedPolicy.Before chain) ∧
      ∀ keys directive, FieldRegistry.standard.directiveForKeys? keys = some directive →
        (FieldPath.ofKeys keys ∈ outcome.policy.provenance.keys ↔
          ∃ policy ∈ policies, ((FieldPath.ofKeys keys).lookup? policy.rules).isSome = true) ∧
        ((outcome.policy.value? (.ofKeys keys)).isSome = true ↔
          ∃ policy ∈ policies, ((FieldPath.ofKeys keys).lookup? policy.rules).isSome = true) ∧
        ∀ value, outcome.policy.value? (.ofKeys keys) = some value →
          directive.Totals
            (ordered.filterMap fun policy => (FieldPath.ofKeys keys).lookup? policy.rules) value := by
  obtain ⟨ordered, final, run⟩ := run_of_compute computed
  refine ⟨ordered, run.perm, ScopedPolicy.pairwise_before distinct run.placed,
    fun keys directive found => ?_⟩
  have reachable := FieldRegistry.standard_reachable found
  have collected : directive.Collected
      (ordered.filterMap fun policy => (FieldPath.ofKeys keys).lookup? policy.rules)
      (final.fields.find? (.ofKeys keys)) :=
    collected_applyAll (FieldRegistry.standard_isStandard found) found reachable
      (fun policy listed => known policy (run.mem_iff.mp listed))
      (fun policy listed => free policy (run.mem_iff.mp listed))
      (fun policy listed => additive policy (run.mem_iff.mp listed))
      (fun policy listed => plain policy (run.mem_iff.mp listed))
      sound_empty run.settled run.applied .absent
  have present : (final.fields.find? (.ofKeys keys)).isSome = true ↔
      ∃ policy ∈ policies, ((FieldPath.ofKeys keys).lookup? policy.rules).isSome = true := by
    rw [collected.isSome_iff]
    simp only [ne_eq, List.filterMap_eq_nil_iff, not_forall, run.mem_iff, exists_prop,
      ← Option.isSome_iff_ne_none]
  refine ⟨?_, ?_, fun value reached => ?_⟩
  · rw [run.shows.listed, present]
  · rw [run.value? reachable, Option.isSome_map, present]
  · rw [run.value? reachable] at reached
    obtain ⟨merged, at_field, rfl⟩ := Option.map_eq_some_iff.mp reached
    rw [at_field] at collected
    exact collected.totals

/-! ### A policy that asks for less than another one -/

theorem wellFormed_approvalPolicies : ∀ policy ∈ approvalPolicies, policy.WellFormed :=
  List.forall_mem_cons.mpr ⟨ScopedPolicy.wellFormed_ofRules (by decide),
    List.forall_mem_singleton.mpr (ScopedPolicy.wellFormed_ofRules (by decide))⟩

theorem compute_approvalPolicies : ∃ outcome,
    compute {} brandScope.id brandChain approvalPolicies = .ok outcome ∧
      outcome.policy.value? (.ofKeys ["min_approvals"]) = some (.int 2) ∧
      outcome.policy.provenance.find? (.ofKeys ["min_approvals"])
        = some (fewerApprovals.source false) := by
  obtain ⟨state, applied, settled, free, value, source⟩ : ∃ state,
      InheritanceSettings.applyAll {} approvalPolicies {} = .ok state ∧
        state.incompatible? = none ∧ state.document.floatFree = true ∧
        (FieldPath.ofKeys ["min_approvals"]).lookup? state.document = some (.int 2) ∧
        state.provenance.find? (.ofKeys ["min_approvals"])
          = some (fewerApprovals.source false) :=
    ⟨_, rfl, by decide, by decide, by decide, by decide⟩
  obtain ⟨outcome, computed, values, provenance, _⟩ :=
    compute_brandChain rfl rfl applied settled free
  refine ⟨outcome, computed, ?_, ?_⟩
  · rw [EffectivePolicy.value?, values, value]
  · rw [provenance, source]

theorem compute_totals_approvalPolicies : ∃ outcome, ∃ ordered : List ScopedPolicy,
    compute {} brandScope.id brandChain approvalPolicies = .ok outcome ∧
      ordered.Perm approvalPolicies ∧
      FieldDirective.lowerBound.Totals
        (ordered.filterMap fun policy => (FieldPath.ofKeys ["min_approvals"]).lookup? policy.rules)
        (.int 2) := by
  obtain ⟨outcome, computed, value, _⟩ := compute_approvalPolicies
  have floatFree : ∀ policy ∈ approvalPolicies, policy.FloatFree :=
    List.forall_mem_cons.mpr ⟨ScopedPolicy.floatFree_ofRules rfl,
      List.forall_mem_singleton.mpr (ScopedPolicy.floatFree_ofRules rfl)⟩
  obtain ⟨ordered, perm, _, totals⟩ := compute_totals {} _ _ _ outcome
    wellFormed_approvalPolicies floatFree (by decide) (by decide) (by decide) computed
  obtain ⟨_, _, total⟩ := totals ["min_approvals"] .lowerBound (by decide)
  exact ⟨outcome, ordered, computed, perm, total _ value⟩

end InheritanceSettings

end Governance
