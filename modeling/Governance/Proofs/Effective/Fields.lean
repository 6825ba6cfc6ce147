import Governance.Effective.Merge
import Governance.Proofs.Effective.Leaves

/-!
# The fields of a merge

What one declared field does to the fields collected so far, and what a run over any number of
policies keeps: every property of single fields that combining two values keeps, and that no field
lies in another one.
-/

set_option autoImplicit false

namespace Governance

structure SoundFields (property : FieldPath → Json → Prop)
    (fields : SortedMap FieldPath MergedField) : Prop where
  holds : ∀ field merged, fields.find? field = some merged → property field merged.value
  apart : ∀ field other merged merged', fields.find? field = some merged →
    fields.find? other = some merged' → field ≠ other →
      InheritanceSettings.overlaps field other = false

theorem SoundFields.filter {property : FieldPath → Json → Prop} {fields : SortedMap FieldPath MergedField}
    (sound : SoundFields property fields) (keep : FieldPath → MergedField → Bool) :
    SoundFields property (fields.filter keep) := by
  have within : ∀ {field merged}, (fields.filter keep).find? field = some merged →
      fields.find? field = some merged := by
    intro field merged found
    rw [SortedMap.find?_filter] at found
    exact (Option.filter_eq_some_iff.mp found).1
  constructor
  · intro field merged found
    exact sound.holds field merged (within found)
  · intro field other merged merged' found found'
    exact sound.apart field other merged merged' (within found) (within found')

def ScopedPolicy.Declares (policy : ScopedPolicy) (registry : FieldRegistry) (field : FieldPath)
    (value : Json) : Prop :=
  (∃ leaves, policy.declared registry = .ok leaves ∧ (field, value) ∈ leaves) ∨
    ∃ leaves, policy.overridden registry = .ok leaves ∧ (field, value) ∈ leaves

/-! ## Declared fields -/

namespace ScopedPolicy

theorem leaves_obj_eq_ok {policy : ScopedPolicy} {registry : FieldRegistry} {part : PolicySection}
    {members : List (String × Json)} {leaves : Leaves}
    (cut : policy.leaves registry part (.obj members) = .ok leaves) :
    Leaves.ofMembers registry (part == .rules && policy.mode == .replace) .root members
        = .ok leaves ∧
      policy.checkKinds registry leaves = .ok () := by
  rw [ScopedPolicy.leaves] at cut
  cases found : Leaves.ofMembers registry (part == .rules && policy.mode == .replace) .root
      members with
  | error problem => simp [found] at cut
  | ok listed =>
      cases checked : policy.checkKinds registry listed with
      | error problem => simp [found, checked, Except.map] at cut
      | ok =>
          simp only [found, checked, Except.map, Except.ok.injEq] at cut
          subst cut
          exact ⟨rfl, checked⟩

theorem leaves_eq_ok {policy : ScopedPolicy} {registry : FieldRegistry} {part : PolicySection}
    {document : Json} {leaves : Leaves} (cut : policy.leaves registry part document = .ok leaves) :
    ∃ members keepEmpty, document = .obj members ∧
      Leaves.ofMembers registry keepEmpty .root members = .ok leaves ∧
      policy.checkKinds registry leaves = .ok () := by
  cases document with
  | null | bool | int | float | str | arr => cases cut
  | obj members => exact ⟨members, _, rfl, leaves_obj_eq_ok cut⟩

theorem Declares.cut {policy : ScopedPolicy} {registry : FieldRegistry} {field : FieldPath}
    {value : Json} (declares : policy.Declares registry field value) :
    ∃ members keepEmpty leaves, (policy.rules = .obj members ∨ policy.overrides = some (.obj members)) ∧
      Leaves.ofMembers registry keepEmpty .root members = .ok leaves ∧
      policy.checkKinds registry leaves = .ok () ∧ (field, value) ∈ leaves := by
  rcases declares with ⟨leaves, declared, listed⟩ | ⟨leaves, overridden, listed⟩
  · obtain ⟨members, keepEmpty, shape, found, checked⟩ := leaves_eq_ok declared
    exact ⟨members, keepEmpty, leaves, .inl shape, found, checked, listed⟩
  · rw [ScopedPolicy.overridden] at overridden
    cases given : policy.overrides with
    | none =>
        rw [given] at overridden
        cases overridden
        cases listed
    | some document =>
        rw [given] at overridden
        obtain ⟨members, keepEmpty, rfl, found, checked⟩ := leaves_eq_ok overridden
        exact ⟨members, keepEmpty, leaves, .inr rfl, found, checked, listed⟩

theorem placed_of_declares {policy : ScopedPolicy} {registry : FieldRegistry} {field : FieldPath}
    {value : Json} (declares : policy.Declares registry field value) :
    registry.Placed field value := by
  obtain ⟨members, keepEmpty, leaves, _, found, _, listed⟩ := declares.cut
  exact Leaves.placed_of_ofMembers found _ listed

end ScopedPolicy

/-! ## Combining values -/

theorem Json.mem_of_mem_distinctAfter {seen items : List Json} {item : Json}
    (listed : item ∈ distinctAfter seen items) : item ∈ seen ∨ item ∈ items := by
  induction items generalizing seen with
  | nil => exact .inl listed
  | cons first rest ih =>
      rw [distinctAfter] at listed
      split at listed
      · exact (ih listed).imp id (List.mem_cons_of_mem _)
      · rcases ih listed with old | later
        · rcases List.mem_append.mp old with earlier | added
          · exact .inl earlier
          · exact .inr (List.mem_singleton.mp added ▸ List.mem_cons_self)
        · exact .inr (List.mem_cons_of_mem _ later)

/-- What combining two values can give. -/
inductive Combined (inherited declared : Json) : Json → Prop where
  | declared : Combined inherited declared declared
  | inherited : Combined inherited declared inherited
  | either {a b : Bool} :
      inherited = .bool a → declared = .bool b → Combined inherited declared (.bool (a || b))
  | elements {a b items : List Json} : inherited = .arr a → declared = .arr b →
      (∀ item ∈ items, item ∈ a ∨ item ∈ b) → Combined inherited declared (.arr items)

theorem Json.combined_bound (direction : Ordering) (inherited declared : Json) :
    Combined inherited declared (bound direction inherited declared) := by
  unfold bound
  split
  · exact .declared
  · split
    · exact .declared
    · exact .inherited

theorem MergeRule.combined_combine (rule : MergeRule) (inherited declared : Json) :
    Combined inherited declared (rule.combine inherited declared) := by
  unfold MergeRule.combine
  split
  · exact .either rfl rfl
  · exact Json.combined_bound _ _ _
  · exact Json.combined_bound _ _ _
  · refine .elements rfl rfl fun item listed => ?_
    rcases Json.mem_of_mem_distinctAfter listed with seen | listed
    · cases seen
    · exact List.mem_append.mp listed
  · exact .elements rfl rfl fun item listed => List.mem_append.mp listed
  · exact .declared

theorem InheritanceMode.combined_merge (directive : Option FieldDirective)
    (inherited declared : Json) :
    Combined inherited declared (InheritanceMode.merge.combine directive inherited declared) := by
  cases directive with
  | none => exact .declared
  | some directive => exact directive.merge.combined_combine inherited declared

theorem InheritanceMode.combined_combine (mode : InheritanceMode)
    (directive : Option FieldDirective) (inherited declared : Json) :
    Combined inherited declared (mode.combine directive inherited declared) := by
  cases mode with
  | replace => exact .declared
  | merge => exact combined_merge directive inherited declared
  | append =>
      unfold InheritanceMode.combine
      dsimp only
      split
      · exact .elements rfl rfl fun item listed => List.mem_append.mp listed
      · exact combined_merge directive _ _

/-! ## Properties that combining keeps -/

theorem FieldRegistry.placed_of_combined {registry : FieldRegistry} {field : FieldPath}
    {inherited declared combined : Json} (placed : registry.Placed field inherited)
    (placed' : registry.Placed field declared) (result : Combined inherited declared combined) :
    registry.Placed field combined := by
  obtain ⟨name, plain, names, shape, walkable, _⟩ := id placed
  cases result with
  | declared => exact placed'
  | inherited => exact placed
  | either | elements => exact ⟨name, plain, names, shape, walkable, endsAt_of_not_object rfl⟩

def FieldRegistry.Fits (registry : FieldRegistry) (field : FieldPath) (value : Json) : Prop :=
  value.floatFree = true ∧ ∀ directive, registry.directive? field = some directive →
    directive.kind.accepts value = true

theorem ValueKind.accepts_of_combined {kind : ValueKind} {inherited declared combined : Json}
    (accepted : kind.accepts inherited = true) (accepted' : kind.accepts declared = true)
    (result : Combined inherited declared combined) : kind.accepts combined = true := by
  cases result with
  | declared => exact accepted'
  | inherited => exact accepted
  | either same same' =>
      subst same same'
      cases kind with
      | boolean => rfl
      | number | stringArray | objectArray => cases accepted
  | elements same same' within =>
      subst same same'
      cases kind with
      | boolean | number => cases accepted
      | stringArray | objectArray =>
          simp only [accepts, List.all_eq_true] at *
          intro item listed
          rcases within item listed with old | new
          · exact accepted item old
          · exact accepted' item new

theorem Json.Hereditary.combined {holds : Json → Prop} (hereditary : Hereditary holds)
    {inherited declared combined : Json} (held : holds inherited) (held' : holds declared)
    (result : Combined inherited declared combined) : holds combined := by
  cases result with
  | declared => exact held'
  | inherited => exact held
  | either => exact hereditary.bool _
  | elements same same' within =>
      subst same same'
      refine hereditary.items.mpr fun item listed => ?_
      rcases within item listed with old | new
      · exact hereditary.items.mp held item old
      · exact hereditary.items.mp held' item new

theorem FieldRegistry.fits_of_combined {registry : FieldRegistry} {field : FieldPath}
    {inherited declared combined : Json} (fits : registry.Fits field inherited)
    (fits' : registry.Fits field declared) (result : Combined inherited declared combined) :
    registry.Fits field combined :=
  ⟨Json.hereditary_floatFree.combined fits.1 fits'.1 result, fun directive found =>
    ValueKind.accepts_of_combined (fits.2 directive found) (fits'.2 directive found) result⟩

theorem ScopedPolicy.accepts_of_checkKinds {policy : ScopedPolicy} {registry : FieldRegistry}
    {leaves : Leaves} (checked : policy.checkKinds registry leaves = .ok ()) :
    ∀ leaf ∈ leaves, ∀ directive, registry.directive? leaf.1 = some directive →
      directive.kind.accepts leaf.2 = true := by
  induction leaves with
  | nil => exact fun _ listed => nomatch listed
  | cons leaf rest ih =>
      rw [checkKinds] at checked
      cases found : registry.directive? leaf.1 with
      | none =>
          rw [found] at checked
          refine List.forall_mem_cons.mpr ⟨fun directive found' => ?_, ih checked⟩
          rw [found] at found'
          cases found'
      | some directive =>
          cases accepted : directive.kind.accepts leaf.2 with
          | false => simp [found, accepted] at checked
          | true =>
              simp only [found, accepted, if_true] at checked
              refine List.forall_mem_cons.mpr ⟨fun directive' found' => ?_, ih checked⟩
              rw [found] at found'
              cases found'
              exact accepted

def ScopedPolicy.FloatFree (policy : ScopedPolicy) : Prop :=
  policy.rules.floatFree = true ∧
    ∀ overrides, policy.overrides = some overrides → overrides.floatFree = true

theorem ScopedPolicy.floatFree_ofRules {id : PolicyId} {scope : ScopeId} {mode : InheritanceMode}
    {rules : Json} (free : rules.floatFree = true) : (ofRules id scope mode rules).FloatFree := by
  refine ⟨free, fun overrides found => ?_⟩
  cases found

theorem ScopedPolicy.holds_of_declares {holds : Json → Prop} (hereditary : Json.Hereditary holds)
    {policy : ScopedPolicy} {registry : FieldRegistry} (rules : holds policy.rules)
    (overrides : ∀ overrides, policy.overrides = some overrides → holds overrides)
    {field : FieldPath} {value : Json} (declares : policy.Declares registry field value) :
    holds value := by
  obtain ⟨members, keepEmpty, leaves, document, found, _, listed⟩ := declares.cut
  refine Leaves.holds_of_ofMembers hereditary found ?_ (field, value) listed
  rcases document with shape | shape
  · exact shape ▸ rules
  · exact overrides _ shape

theorem ScopedPolicy.fits_of_declares {policy : ScopedPolicy} {registry : FieldRegistry}
    (free : policy.FloatFree) {field : FieldPath} {value : Json}
    (declares : policy.Declares registry field value) : registry.Fits field value := by
  obtain ⟨_, _, _, _, _, checked, listed⟩ := declares.cut
  exact ⟨holds_of_declares Json.hereditary_floatFree free.1 free.2 declares,
    accepts_of_checkKinds checked _ listed⟩

namespace InheritanceSettings

variable {settings : InheritanceSettings} {policy : ScopedPolicy}

/-! ## One declared field -/

def resultOf (settings : InheritanceSettings) (policy : ScopedPolicy) (isOverride : Bool)
    (field : FieldPath) (declared : Json) : Option MergedField → Json
  | none => declared
  | some inherited =>
    (if isOverride then .replace else policy.mode).combine (settings.registry.directive? field)
      inherited.value declared

theorem find?_applyLeaf (isOverride : Bool) (field : FieldPath) (declared : Json)
    (inherited : Option MergedField) (state : MergeState) (other : FieldPath) :
    (settings.applyLeaf policy isOverride field declared inherited state).fields.find? other =
      if field = other then
        some ⟨settings.resultOf policy isOverride field declared inherited,
          ⟨policy.scope, policy.id, policy.mode, isOverride⟩⟩
      else if overlaps field other then none else state.fields.find? other := by
  have cleared : ((settings.clear policy field declared
      { state with fields := state.fields.erase field }).fields.insert field
        ⟨settings.resultOf policy isOverride field declared inherited,
          ⟨policy.scope, policy.id, policy.mode, isOverride⟩⟩).find? other =
      if field = other then
        some ⟨settings.resultOf policy isOverride field declared inherited,
          ⟨policy.scope, policy.id, policy.mode, isOverride⟩⟩
      else if overlaps field other then none else state.fields.find? other := by
    rw [SortedMap.find?_insert]
    split
    · rfl
    · rename_i different
      rw [clear, SortedMap.find?_filter, SortedMap.find?_erase]
      simp only [different, if_false]
      cases overlaps field other <;> cases state.fields.find? other <;> rfl
  cases inherited with
  | none => exact cleared
  | some inherited => exact cleared

/-! ## Runs -/

section Runs

variable {property : FieldPath → Json → Prop}

/-- Two fields of which one overlaps with the other are both kept only if they are one field. -/
theorem sound_applyLeaf {isOverride : Bool} {field : FieldPath} {declared : Json}
    {inherited : Option MergedField} {state : MergeState} (sound : SoundFields property state.fields)
    (given : property field (settings.resultOf policy isOverride field declared inherited)) :
    SoundFields property (settings.applyLeaf policy isOverride field declared inherited state).fields := by
  have kept : ∀ {other merged}, field ≠ other →
      (settings.applyLeaf policy isOverride field declared inherited state).fields.find? other
        = some merged →
      overlaps field other = false ∧ state.fields.find? other = some merged := by
    intro other merged different found
    rw [find?_applyLeaf, if_neg different] at found
    cases beside : overlaps field other with
    | true => simp [beside] at found
    | false => simpa [beside] using found
  constructor
  · intro other merged found
    by_cases same : field = other
    · subst same
      rw [find?_applyLeaf, if_pos rfl] at found
      cases found
      exact given
    · exact sound.holds other merged (kept same found).2
  · intro first second merged merged' found found' different
    by_cases same : field = first
    · subst same
      exact (kept different found').1
    · by_cases same' : field = second
      · subst same'
        rw [overlaps, Bool.or_comm]
        exact (kept same found).1
      · exact sound.apart first second merged merged' (kept same found).2 (kept same' found').2
          different

/-- What a run needs of a property: combining an inherited value with a declared one keeps it. -/
def Combines (property : FieldPath → Json → Prop) : Prop :=
  ∀ field inherited declared combined, property field inherited → property field declared →
    Combined inherited declared combined → property field combined

theorem property_resultOf (combines : Combines property) {isOverride : Bool}
    {field : FieldPath} {declared : Json} {inherited : Option MergedField}
    (given : property field declared)
    (held : ∀ merged, inherited = some merged → property field merged.value) :
    property field (settings.resultOf policy isOverride field declared inherited) := by
  cases inherited with
  | none => exact given
  | some merged =>
      exact combines field _ _ _ (held merged rfl) given (InheritanceMode.combined_combine _ _ _ _)

theorem sound_applyDeclared (combines : Combines property)
    {displaced : SortedMap FieldPath MergedField} {declared : Leaves} {state : MergeState}
    (given : ∀ leaf ∈ declared, property leaf.1 leaf.2) (displacedSound : SoundFields property displaced)
    (sound : SoundFields property state.fields) :
    SoundFields property (settings.applyDeclared policy displaced declared state).fields := by
  induction declared generalizing state with
  | nil => exact sound
  | cons leaf rest ih =>
      refine ih (fun later listed => given later (List.mem_cons_of_mem _ listed)) ?_
      refine sound_applyLeaf sound (property_resultOf combines (given leaf List.mem_cons_self) ?_)
      intro merged inherited
      rcases Option.or_eq_some_iff.mp inherited with found | ⟨_, found⟩
      · exact sound.holds leaf.1 merged found
      · exact displacedSound.holds leaf.1 merged found

theorem sound_applyOverridden (combines : Combines property)
    {overridden : Leaves} {state : MergeState}
    (given : ∀ leaf ∈ overridden, property leaf.1 leaf.2) (sound : SoundFields property state.fields) :
    SoundFields property (settings.applyOverridden policy overridden state).fields := by
  induction overridden generalizing state with
  | nil => exact sound
  | cons leaf rest ih =>
      refine ih (fun later listed => given later (List.mem_cons_of_mem _ listed)) ?_
      exact sound_applyLeaf sound (property_resultOf combines (given leaf List.mem_cons_self)
        fun merged found => sound.holds leaf.1 merged found)

theorem sound_empty : SoundFields property {} := by
  constructor
  · intro field merged found
    cases found
  · intro field other merged merged' found
    cases found

theorem sound_applyRules (combines : Combines property)
    {declared : Leaves} {state : MergeState} (given : ∀ leaf ∈ declared, property leaf.1 leaf.2)
    (sound : SoundFields property state.fields) :
    SoundFields property (settings.applyRules policy declared state).fields := by
  unfold applyRules
  split
  · have kept := sound.filter fun field _ => !covers declared field
    exact sound_applyDeclared combines given (sound.filter _) kept
  · exact sound_applyDeclared combines given sound_empty sound

/-- Applying a policy whose documents can be read. -/
theorem applyPolicy_eq_ok {state final : MergeState}
    (applied : settings.applyPolicy policy state = .ok final) :
    ∃ declared overridden, policy.declared settings.registry = .ok declared ∧
      policy.overridden settings.registry = .ok overridden ∧
      final = settings.applyOverridden policy overridden (settings.applyRules policy declared state) := by
  rw [applyPolicy] at applied
  cases rules : policy.declared settings.registry with
  | error problem => simp [rules] at applied
  | ok declared =>
      cases overrides : policy.overridden settings.registry with
      | error problem => simp [rules, overrides] at applied
      | ok overridden =>
          simp only [rules, overrides, Except.ok.injEq] at applied
          exact ⟨declared, overridden, rfl, rfl, applied.symm⟩

theorem sound_applyPolicy (combines : Combines property) {state final : MergeState}
    (given : ∀ field value, policy.Declares settings.registry field value → property field value)
    (sound : SoundFields property state.fields)
    (applied : settings.applyPolicy policy state = .ok final) : SoundFields property final.fields := by
  obtain ⟨declared, overridden, rules, overrides, rfl⟩ := applyPolicy_eq_ok applied
  refine sound_applyOverridden combines (fun leaf listed => ?_) (sound_applyRules combines
    (fun leaf listed => ?_) sound)
  · exact given leaf.1 leaf.2 (.inr ⟨overridden, overrides, listed⟩)
  · exact given leaf.1 leaf.2 (.inl ⟨declared, rules, listed⟩)

theorem applyAll_cons_eq_ok {rest : List ScopedPolicy} {state final : MergeState}
    (applied : settings.applyAll (policy :: rest) state = .ok final) :
    ∃ middle, settings.applyPolicy policy state = .ok middle ∧
      settings.applyAll rest middle = .ok final := by
  rw [applyAll] at applied
  cases first : settings.applyPolicy policy state with
  | error problem => simp [first] at applied
  | ok middle =>
      rw [first] at applied
      exact ⟨middle, rfl, applied⟩

/-- Policies that declare only fields with a property add up to fields with that property. -/
theorem sound_applyAll (combines : Combines property) {policies : List ScopedPolicy}
    {state final : MergeState}
    (given : ∀ policy ∈ policies, ∀ field value,
      policy.Declares settings.registry field value → property field value)
    (sound : SoundFields property state.fields)
    (applied : settings.applyAll policies state = .ok final) : SoundFields property final.fields := by
  induction policies generalizing state with
  | nil =>
      cases applied
      exact sound
  | cons policy rest ih =>
      obtain ⟨middle, first, later⟩ := applyAll_cons_eq_ok applied
      exact ih (fun other listed => given other (List.mem_cons_of_mem _ listed))
        (sound_applyPolicy combines (given policy List.mem_cons_self) sound first) later

end Runs

end InheritanceSettings

end Governance
