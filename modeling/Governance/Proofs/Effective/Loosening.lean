import Governance.Proofs.Effective.Difference
import Governance.Proofs.Effective.Outcome

/-!
# No silent loosening

Applying further policies to a merge leaves every field at least as strict as it was, or records
a looser conflict, or drops a value that imposed nothing. The conflicts only grow, so a merge that
ends without an incompatible conflict never had one, and then a declared field changes no other.
-/

set_option autoImplicit false

namespace Governance

def MergeState.Settled (state : MergeState) : Prop :=
  ∀ conflict ∈ state.conflicts, conflict.classification ≠ .incompatible

theorem MergeState.incompatible?_eq_none_iff {state : MergeState} :
    state.incompatible? = none ↔ state.Settled := by
  simp [incompatible?, Settled]

theorem MergeState.Settled.of_subset {state final : MergeState} (settled : final.Settled)
    (grows : state.conflicts ⊆ final.conflicts) : state.Settled :=
  fun conflict listed => settled conflict (grows listed)

def Loosens (policies : List ScopedPolicy) (field : FieldPath) (conflicts : List PolicyConflict) :
    Prop :=
  ∃ conflict ∈ conflicts, conflict.field = field ∧ conflict.classification = .looser ∧
    ∃ policy ∈ policies, policy.scope = conflict.childScope ∧ policy.id = conflict.childPolicy

/-- What has become of a field since it had some value. -/
inductive Tracked (registry : FieldRegistry) (policies : List ScopedPolicy) (field : FieldPath)
    (earlier : Json) : Option MergedField → List PolicyConflict → Prop where
  | kept {merged : MergedField} {conflicts : List PolicyConflict} :
      registry.AtLeastAsStrict field earlier merged.value →
      Tracked registry policies field earlier (some merged) conflicts
  | lost {conflicts : List PolicyConflict} : registry.ImposesNothing field earlier →
      Tracked registry policies field earlier none conflicts
  | recorded {current : Option MergedField} {conflicts : List PolicyConflict} :
      Loosens policies field conflicts →
      Tracked registry policies field earlier current conflicts

theorem Tracked.mono {registry : FieldRegistry} {policies : List ScopedPolicy} {field : FieldPath}
    {earlier : Json} {current : Option MergedField} {conflicts more : List PolicyConflict}
    (tracked : Tracked registry policies field earlier current conflicts)
    (grows : conflicts ⊆ more) : Tracked registry policies field earlier current more := by
  cases tracked with
  | kept strict => exact .kept strict
  | lost nothing => exact .lost nothing
  | recorded found =>
      obtain ⟨conflict, listed, named⟩ := found
      exact .recorded ⟨conflict, grows listed, named⟩

namespace InheritanceSettings

variable {settings : InheritanceSettings} {policy : ScopedPolicy}

/-! ## What one declared field records -/

/-- What an inherited value is compared with. -/
def comparedOf (settings : InheritanceSettings) (policy : ScopedPolicy) (isOverride : Bool)
    (field : FieldPath) (declared : Json) (inherited : MergedField) : Json :=
  if declared.isArray then settings.resultOf policy isOverride field declared (some inherited)
  else declared

def clearedBy (settings : InheritanceSettings) (policy : ScopedPolicy) (field : FieldPath)
    (declared : Json) (state : MergeState) : List PolicyConflict :=
  ((state.fields.erase field).filter fun other _ => overlaps field other).entries.map
    fun entry => settings.conflict policy entry.1 .incompatible entry.2 declared

def foundBy (settings : InheritanceSettings) (policy : ScopedPolicy) (isOverride : Bool)
    (field : FieldPath) (declared : Json) : Option MergedField → List PolicyConflict
  | none => []
  | some inherited =>
    match settings.difference field inherited.value
        (settings.comparedOf policy isOverride field declared inherited) with
    | none => []
    | some classification =>
      [settings.conflict policy field classification inherited
        (settings.comparedOf policy isOverride field declared inherited)]

theorem conflicts_applyLeaf (isOverride : Bool) (field : FieldPath) (declared : Json)
    (inherited : Option MergedField) (state : MergeState) :
    (settings.applyLeaf policy isOverride field declared inherited state).conflicts =
      state.conflicts ++ settings.clearedBy policy field declared state ++
        settings.foundBy policy isOverride field declared inherited := by
  cases inherited with
  | none => exact (List.append_nil _).symm
  | some inherited => rfl

theorem conflicts_prefix_applyLeaf {isOverride : Bool} {field : FieldPath} {declared : Json}
    {inherited : Option MergedField} {state : MergeState} :
    state.conflicts <+:
      (settings.applyLeaf policy isOverride field declared inherited state).conflicts := by
  rw [conflicts_applyLeaf, List.append_assoc]
  exact List.prefix_append _ _

theorem find?_applyLeaf_of_settled {isOverride : Bool} {field other : FieldPath} {declared : Json}
    {inherited : Option MergedField} {state : MergeState}
    (settled : (settings.applyLeaf policy isOverride field declared inherited state).Settled)
    (different : field ≠ other) :
    (settings.applyLeaf policy isOverride field declared inherited state).fields.find? other
      = state.fields.find? other := by
  rw [find?_applyLeaf, if_neg different]
  cases overlap : overlaps field other with
  | false => rfl
  | true =>
      cases found : state.fields.find? other with
      | none => rfl
      | some merged =>
          -- the field would have been displaced with an incompatible conflict
          have displaced : ((state.fields.erase field).filter
              fun other _ => overlaps field other).find? other = some merged := by
            rw [SortedMap.find?_filter, SortedMap.find?_erase, if_neg different, found]
            simp [overlap]
          have listed : settings.conflict policy other .incompatible merged declared ∈
              settings.clearedBy policy field declared state :=
            List.mem_map.mpr ⟨_, SortedMap.find?_eq_some_iff.mp displaced, rfl⟩
          have recorded : settings.conflict policy other .incompatible merged declared ∈
              (settings.applyLeaf policy isOverride field declared inherited state).conflicts := by
            rw [conflicts_applyLeaf]
            exact List.mem_append_left _ (List.mem_append_right _ listed)
          exact absurd rfl (settled _ recorded)

theorem combine_unregistered {mode : InheritanceMode} {inherited declared : Json}
    (flat : declared.isArray = false) : mode.combine none inherited declared = declared := by
  cases mode with
  | replace | merge => rfl
  | append =>
      cases declared with
      | arr => cases flat
      | null | bool | int | float | str | obj => cases inherited <;> rfl

/-- A flag or a threshold that is at least as strict as the inherited one still is when the two are
combined. -/
theorem atLeastAsStrict_combined {directive : FieldDirective} {inherited declared combined : Json}
    (self : directive.AtLeastAsStrict inherited inherited)
    (strict : directive.AtLeastAsStrict inherited declared) (flat : declared.isArray = false)
    (result : Combined inherited declared combined) :
    directive.AtLeastAsStrict inherited combined := by
  cases result with
  | declared => exact strict
  | inherited => exact self
  | @either a b same same' =>
      subst same same'
      cases self with
      | flags direction =>
          refine .flags direction fun set => ?_
          rw [set, Bool.true_or]
  | elements same same' =>
      subst same'
      cases flat

theorem atLeastAsStrict_resultOf (orderly : settings.registry.Orderly) {isOverride : Bool}
    {field : FieldPath} {declared : Json} {inherited : MergedField}
    (fits : settings.registry.Fits field inherited.value)
    (fits' : settings.registry.Fits field declared)
    (notLooser : settings.difference field inherited.value
      (settings.comparedOf policy isOverride field declared inherited) ≠ some .looser)
    (compatible : settings.difference field inherited.value
      (settings.comparedOf policy isOverride field declared inherited) ≠ some .incompatible) :
    settings.registry.AtLeastAsStrict field inherited.value
      (settings.resultOf policy isOverride field declared (some inherited)) := by
  have result := InheritanceMode.combined_combine (if isOverride then .replace else policy.mode)
    (settings.registry.directive? field) inherited.value declared
  rw [comparedOf] at notLooser compatible
  cases array : declared.isArray with
  | true =>
      rw [array, if_pos rfl] at notLooser compatible
      exact atLeastAsStrict_of_difference orderly fits
        (FieldRegistry.fits_of_combined fits fits' result) notLooser compatible
  | false =>
      rw [array, if_neg Bool.false_ne_true] at notLooser compatible
      have strict := atLeastAsStrict_of_difference orderly fits fits' notLooser compatible
      have self := FieldRegistry.atLeastAsStrict_self orderly fits
      rw [resultOf]
      unfold FieldRegistry.AtLeastAsStrict at *
      cases found : settings.registry.directive? field with
      | none =>
          rw [found] at strict
          rw [combine_unregistered array]
          exact strict
      | some directive =>
          rw [found] at strict self result
          exact atLeastAsStrict_combined self strict array result

/-! ## Following a field through a run -/

section Runs

variable {policies : List ScopedPolicy} {field : FieldPath} {earlier : Json}

theorem tracked_applyLeaf (orderly : settings.registry.Orderly) (later : policy ∈ policies)
    {isOverride : Bool} {declared : Json} {inherited : Option MergedField} {state : MergeState}
    (settled : (settings.applyLeaf policy isOverride field declared inherited state).Settled)
    (fits : ∀ merged, inherited = some merged → settings.registry.Fits field merged.value)
    (fits' : settings.registry.Fits field declared)
    (tracked : Tracked settings.registry policies field earlier inherited state.conflicts) :
    Tracked settings.registry policies field earlier
      ((settings.applyLeaf policy isOverride field declared inherited state).fields.find? field)
      (settings.applyLeaf policy isOverride field declared inherited state).conflicts := by
  rw [find?_applyLeaf, if_pos rfl]
  cases tracked with
  | lost nothing => exact .kept (FieldRegistry.atLeastAsStrict_of_imposesNothing orderly nothing fits')
  | recorded found => exact (Tracked.recorded found).mono conflicts_prefix_applyLeaf.subset
  | @kept merged _ strict =>
      have listed : ∀ classification, settings.difference field merged.value
          (settings.comparedOf policy isOverride field declared merged) = some classification →
          settings.conflict policy field classification merged
            (settings.comparedOf policy isOverride field declared merged) ∈
          (settings.applyLeaf policy isOverride field declared (some merged) state).conflicts := by
        intro classification difference
        rw [conflicts_applyLeaf, foundBy, difference]
        exact List.mem_append_right _ List.mem_cons_self
      by_cases looser : settings.difference field merged.value
          (settings.comparedOf policy isOverride field declared merged) = some .looser
      · exact .recorded ⟨_, listed .looser looser, rfl, rfl, policy, later, rfl, rfl⟩
      · have compatible : settings.difference field merged.value
            (settings.comparedOf policy isOverride field declared merged) ≠ some .incompatible :=
          fun difference => settled _ (listed .incompatible difference) rfl
        exact .kept (FieldRegistry.atLeastAsStrict_trans strict
          (atLeastAsStrict_resultOf orderly (fits merged rfl) fits' looser compatible))

theorem conflicts_prefix_applyDeclared {displaced : SortedMap FieldPath MergedField}
    {declared : Leaves} {state : MergeState} :
    state.conflicts <+: (settings.applyDeclared policy displaced declared state).conflicts := by
  induction declared generalizing state with
  | nil => exact List.prefix_rfl
  | cons leaf rest ih => exact conflicts_prefix_applyLeaf.trans ih

theorem conflicts_prefix_applyOverridden {overridden : Leaves} {state : MergeState} :
    state.conflicts <+: (settings.applyOverridden policy overridden state).conflicts := by
  induction overridden generalizing state with
  | nil => exact List.prefix_rfl
  | cons leaf rest ih => exact conflicts_prefix_applyLeaf.trans ih

theorem isSome_applyDeclared {displaced : SortedMap FieldPath MergedField} {declared : Leaves}
    {state : MergeState} (settled : (settings.applyDeclared policy displaced declared state).Settled)
    (present : (state.fields.find? field).isSome = true ∨ ∃ leaf ∈ declared, leaf.1 = field) :
    ((settings.applyDeclared policy displaced declared state).fields.find? field).isSome = true := by
  induction declared generalizing state with
  | nil =>
      rcases present with present | ⟨leaf, listed, _⟩
      · exact present
      · cases listed
  | cons leaf rest ih =>
      refine ih settled ?_
      have settled' := settled.of_subset
        (@conflicts_prefix_applyDeclared settings policy displaced rest _).subset
      by_cases same : leaf.1 = field
      · rw [find?_applyLeaf, if_pos same]
        exact .inl rfl
      · rw [find?_applyLeaf_of_settled settled' same]
        rcases present with present | ⟨other, listed, named⟩
        · exact .inl present
        · rcases List.mem_cons.mp listed with rfl | listed
          · exact absurd named same
          · exact .inr ⟨other, listed, named⟩

theorem tracked_applyDeclared (orderly : settings.registry.Orderly) (later : policy ∈ policies)
    {displaced : SortedMap FieldPath MergedField} {declared : Leaves} {state : MergeState}
    (given : ∀ leaf ∈ declared, settings.registry.Fits leaf.1 leaf.2)
    (displacedSound : SoundFields settings.registry.Fits displaced)
    (sound : SoundFields settings.registry.Fits state.fields)
    (settled : (settings.applyDeclared policy displaced declared state).Settled)
    (tracked : Tracked settings.registry policies field earlier
      ((state.fields.find? field).or (displaced.find? field)) state.conflicts) :
    Tracked settings.registry policies field earlier
      (((settings.applyDeclared policy displaced declared state).fields.find? field).or
        (displaced.find? field))
      (settings.applyDeclared policy displaced declared state).conflicts := by
  induction declared generalizing state with
  | nil => exact tracked
  | cons leaf rest ih =>
      have given_leaf := given leaf List.mem_cons_self
      have held : ∀ merged, (state.fields.find? leaf.1).or (displaced.find? leaf.1) = some merged →
          settings.registry.Fits leaf.1 merged.value := by
        intro merged inherited
        rcases Option.or_eq_some_iff.mp inherited with found | ⟨_, found⟩
        · exact sound.holds leaf.1 merged found
        · exact displacedSound.holds leaf.1 merged found
      have combines : Combines settings.registry.Fits := fun _ _ _ _ =>
        FieldRegistry.fits_of_combined
      refine ih (fun other listed => given other (List.mem_cons_of_mem _ listed))
        (sound_applyLeaf sound (property_resultOf combines given_leaf held)) settled ?_
      have settled' := settled.of_subset
        (@conflicts_prefix_applyDeclared settings policy displaced rest _).subset
      by_cases same : leaf.1 = field
      · subst same
        have tracked' := tracked_applyLeaf orderly later settled' held given_leaf tracked
        rw [find?_applyLeaf, if_pos rfl] at tracked' ⊢
        exact tracked'
      · rw [find?_applyLeaf_of_settled settled' same]
        exact tracked.mono conflicts_prefix_applyLeaf.subset

theorem tracked_applyOverridden (orderly : settings.registry.Orderly) (later : policy ∈ policies)
    {overridden : Leaves} {state : MergeState}
    (given : ∀ leaf ∈ overridden, settings.registry.Fits leaf.1 leaf.2)
    (sound : SoundFields settings.registry.Fits state.fields)
    (settled : (settings.applyOverridden policy overridden state).Settled)
    (tracked : Tracked settings.registry policies field earlier (state.fields.find? field)
      state.conflicts) :
    Tracked settings.registry policies field earlier
      ((settings.applyOverridden policy overridden state).fields.find? field)
      (settings.applyOverridden policy overridden state).conflicts := by
  induction overridden generalizing state with
  | nil => exact tracked
  | cons leaf rest ih =>
      have given_leaf := given leaf List.mem_cons_self
      have held := sound.holds leaf.1
      have combines : Combines settings.registry.Fits := fun _ _ _ _ =>
        FieldRegistry.fits_of_combined
      refine ih (fun other listed => given other (List.mem_cons_of_mem _ listed))
        (sound_applyLeaf sound (property_resultOf combines given_leaf held)) settled ?_
      have settled' := settled.of_subset
        (@conflicts_prefix_applyOverridden settings policy rest _).subset
      by_cases same : leaf.1 = field
      · subst same
        exact tracked_applyLeaf orderly later settled' held given_leaf tracked
      · rw [find?_applyLeaf_of_settled settled' same]
        exact tracked.mono conflicts_prefix_applyLeaf.subset

def displacedBy (declared : Leaves) (state : MergeState) : SortedMap FieldPath MergedField :=
  state.fields.filter fun field _ => covers declared field

/-- A field is either left or displaced, so nothing is lost sight of. -/
theorem find?_or_displacedBy (declared : Leaves) (state : MergeState) (field : FieldPath) :
    ((state.fields.filter fun field _ => !covers declared field).find? field).or
      ((displacedBy declared state).find? field) = state.fields.find? field := by
  rw [displacedBy, SortedMap.find?_filter, SortedMap.find?_filter]
  cases covers declared field <;> cases state.fields.find? field <;> rfl

def replaced (settings : InheritanceSettings) (policy : ScopedPolicy) (declared : Leaves)
    (state : MergeState) : MergeState :=
  settings.applyDeclared policy (displacedBy declared state) declared
    { state with fields := state.fields.filter fun field _ => !covers declared field }

theorem applyRules_of_replace (replacing : policy.mode = .replace) (declared : Leaves)
    (state : MergeState) :
    settings.applyRules policy declared state =
      { settings.replaced policy declared state with
        conflicts := (settings.replaced policy declared state).conflicts ++
          settings.dropped policy (displacedBy declared state) declared } := by
  unfold applyRules
  rw [replacing]
  rfl

theorem applyRules_of_not_replace (additive : policy.mode ≠ .replace) (declared : Leaves)
    (state : MergeState) :
    settings.applyRules policy declared state = settings.applyDeclared policy {} declared state := by
  unfold applyRules
  cases mode : policy.mode with
  | replace => exact absurd mode additive
  | merge | append => rfl

theorem conflicts_prefix_applyRules {declared : Leaves} {state : MergeState} :
    state.conflicts <+: (settings.applyRules policy declared state).conflicts := by
  by_cases replacing : policy.mode = .replace
  · rw [applyRules_of_replace replacing]
    have grows : state.conflicts <+: (settings.replaced policy declared state).conflicts := by
      rw [replaced]
      exact @conflicts_prefix_applyDeclared settings policy (displacedBy declared state) declared
        { state with fields := state.fields.filter fun field _ => !covers declared field }
    exact grows.trans (List.prefix_append _ _)
  · rw [applyRules_of_not_replace replacing]
    exact conflicts_prefix_applyDeclared

theorem mem_dropped {displaced : SortedMap FieldPath MergedField} {declared : Leaves}
    {merged : MergedField} (found : displaced.find? field = some merged)
    (undeclared : ∀ leaf ∈ declared, leaf.1 ≠ field)
    (loosens : FieldDirective.losingLoosens (settings.registry.directive? field) merged.value = true) :
    settings.conflict policy field .looser merged .null ∈
      settings.dropped policy displaced declared := by
  refine List.mem_map.mpr ⟨(field, merged), List.mem_filter.mpr ⟨?_, ?_⟩, rfl⟩
  · exact SortedMap.find?_eq_some_iff.mp found
  · simp only [loosens, Bool.and_true, List.all_eq_true, decide_eq_true_eq]
    exact undeclared

/-- A field that a replacing policy displaces and does not declare again. -/
theorem tracked_dropped (later : policy ∈ policies) {displaced : SortedMap FieldPath MergedField}
    {declared : Leaves} {conflicts : List PolicyConflict}
    (undeclared : ∀ leaf ∈ declared, leaf.1 ≠ field)
    (tracked : Tracked settings.registry policies field earlier (displaced.find? field) conflicts) :
    Tracked settings.registry policies field earlier none
      (conflicts ++ settings.dropped policy displaced declared) := by
  cases found : displaced.find? field with
  | none => exact (found ▸ tracked).mono (List.subset_append_left _ _)
  | some merged =>
      rw [found] at tracked
      cases tracked with
      | recorded recorded =>
          exact (Tracked.recorded recorded).mono (List.subset_append_left _ _)
      | kept strict =>
          cases loosens : FieldDirective.losingLoosens (settings.registry.directive? field)
              merged.value with
          | false =>
              have nothing := FieldRegistry.losingLoosens_eq_false_iff.mp loosens
              exact .lost (FieldRegistry.imposesNothing_of_atLeastAsStrict strict nothing)
          | true =>
              have recorded : settings.conflict policy field .looser merged .null ∈
                  conflicts ++ settings.dropped policy displaced declared :=
                List.mem_append_right conflicts (mem_dropped found undeclared loosens)
              exact .recorded ⟨_, recorded, rfl, rfl, policy, later, rfl, rfl⟩

theorem tracked_replaced (orderly : settings.registry.Orderly) (later : policy ∈ policies)
    {declared : Leaves} {state : MergeState}
    (given : ∀ leaf ∈ declared, settings.registry.Fits leaf.1 leaf.2)
    (sound : SoundFields settings.registry.Fits state.fields)
    (settled : (settings.replaced policy declared state).Settled)
    (tracked : Tracked settings.registry policies field earlier (state.fields.find? field)
      state.conflicts) :
    Tracked settings.registry policies field earlier
      ((settings.replaced policy declared state).fields.find? field)
      ((settings.replaced policy declared state).conflicts ++
        settings.dropped policy (displacedBy declared state) declared) := by
  have kept := sound.filter fun field _ => !covers declared field
  have followed := @tracked_applyDeclared settings policy policies field earlier orderly later
    (displacedBy declared state) declared _ given (sound.filter _) kept settled
    ((find?_or_displacedBy declared state field).symm ▸ tracked)
  rw [← replaced] at followed
  cases present : (settings.replaced policy declared state).fields.find? field with
  | some merged =>
      rw [present, Option.some_or] at followed
      exact followed.mono (List.subset_append_left _ _)
  | none =>
      rw [present, Option.none_or] at followed
      refine tracked_dropped later (fun leaf listed named => ?_) followed
      have declared_present := isSome_applyDeclared settled (.inr ⟨leaf, listed, named⟩)
      rw [← replaced, present] at declared_present
      cases declared_present

theorem tracked_applyRules (orderly : settings.registry.Orderly) (later : policy ∈ policies)
    {declared : Leaves} {state : MergeState}
    (given : ∀ leaf ∈ declared, settings.registry.Fits leaf.1 leaf.2)
    (sound : SoundFields settings.registry.Fits state.fields)
    (settled : (settings.applyRules policy declared state).Settled)
    (tracked : Tracked settings.registry policies field earlier (state.fields.find? field)
      state.conflicts) :
    Tracked settings.registry policies field earlier
      ((settings.applyRules policy declared state).fields.find? field)
      (settings.applyRules policy declared state).conflicts := by
  by_cases replacing : policy.mode = .replace
  · rw [applyRules_of_replace replacing] at settled ⊢
    have settled' : (settings.replaced policy declared state).Settled :=
      settled.of_subset (List.subset_append_left _ _)
    exact tracked_replaced orderly later given sound settled' tracked
  · rw [applyRules_of_not_replace replacing] at settled ⊢
    have none_displaced : ∀ current : Option MergedField,
        current.or (SortedMap.find? (∅ : SortedMap FieldPath MergedField) field) = current := by
      intro current
      rw [SortedMap.find?_empty, Option.or_none]
    have followed := @tracked_applyDeclared settings policy policies field earlier orderly later
      ∅ declared state given sound_empty sound settled ((none_displaced _).symm ▸ tracked)
    rw [none_displaced] at followed
    exact followed

theorem conflicts_prefix_applyPolicy {state final : MergeState}
    (applied : settings.applyPolicy policy state = .ok final) : state.conflicts <+: final.conflicts := by
  obtain ⟨declared, overridden, _, _, rfl⟩ := applyPolicy_eq_ok applied
  exact conflicts_prefix_applyRules.trans conflicts_prefix_applyOverridden

/-- Conflicts are only ever added at the end. -/
theorem conflicts_prefix_applyAll {rest : List ScopedPolicy} {state final : MergeState}
    (applied : settings.applyAll rest state = .ok final) : state.conflicts <+: final.conflicts := by
  induction rest generalizing state with
  | nil =>
      cases applied
      exact List.prefix_rfl
  | cons policy rest ih =>
      obtain ⟨middle, first, later⟩ := applyAll_cons_eq_ok applied
      exact (conflicts_prefix_applyPolicy first).trans (ih later)

theorem tracked_applyPolicy (orderly : settings.registry.Orderly) (later : policy ∈ policies)
    (free : policy.FloatFree) {state final : MergeState}
    (sound : SoundFields settings.registry.Fits state.fields) (settled : final.Settled)
    (applied : settings.applyPolicy policy state = .ok final)
    (tracked : Tracked settings.registry policies field earlier (state.fields.find? field)
      state.conflicts) :
    Tracked settings.registry policies field earlier (final.fields.find? field) final.conflicts := by
  obtain ⟨declared, overridden, rules, overrides, rfl⟩ := applyPolicy_eq_ok applied
  have given : ∀ leaf ∈ declared, settings.registry.Fits leaf.1 leaf.2 := fun leaf listed =>
    ScopedPolicy.fits_of_declares free (.inl ⟨declared, rules, listed⟩)
  have given' : ∀ leaf ∈ overridden, settings.registry.Fits leaf.1 leaf.2 := fun leaf listed =>
    ScopedPolicy.fits_of_declares free (.inr ⟨overridden, overrides, listed⟩)
  have combines : Combines settings.registry.Fits := fun _ _ _ _ => FieldRegistry.fits_of_combined
  exact tracked_applyOverridden orderly later given' (sound_applyRules combines given sound) settled
    (tracked_applyRules orderly later given sound
      (settled.of_subset conflicts_prefix_applyOverridden.subset) tracked)

/-- What becomes of a field while further policies are applied. -/
theorem tracked_applyAll (orderly : settings.registry.Orderly) {rest : List ScopedPolicy}
    (later : rest ⊆ policies) (free : ∀ policy ∈ rest, policy.FloatFree) {state final : MergeState}
    (sound : SoundFields settings.registry.Fits state.fields) (settled : final.Settled)
    (applied : settings.applyAll rest state = .ok final)
    (tracked : Tracked settings.registry policies field earlier (state.fields.find? field)
      state.conflicts) :
    Tracked settings.registry policies field earlier (final.fields.find? field) final.conflicts := by
  induction rest generalizing state with
  | nil =>
      cases applied
      exact tracked
  | cons policy rest ih =>
      obtain ⟨middle, first, others⟩ := applyAll_cons_eq_ok applied
      have settled' := settled.of_subset (conflicts_prefix_applyAll others).subset
      have free' := free policy List.mem_cons_self
      have combines : Combines settings.registry.Fits := fun _ _ _ _ =>
        FieldRegistry.fits_of_combined
      refine ih (List.Subset.trans (List.subset_cons_self _ _) later)
        (fun policy listed => free policy (List.mem_cons_of_mem _ listed))
        (sound_applyPolicy combines (fun _ _ => ScopedPolicy.fits_of_declares free') sound first)
        others ?_
      exact tracked_applyPolicy orderly (later List.mem_cons_self) free' sound settled' first tracked

end Runs

end InheritanceSettings

end Governance
