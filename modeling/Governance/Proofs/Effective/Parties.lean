import Governance.Proofs.Effective.Descendant
import Governance.Proofs.Effective.Listing
import Mathlib.Data.List.Nodup

/-!
# The parties of a conflict

A conflict names the policy that an inherited field comes from and the policy that declares against
it. What the rules of a policy meet comes from policies applied earlier, because no field of a
document lies in another one of it. The overrides come after the rules of their own policy and meet
these as well, so a policy can be in conflict with itself.
-/

set_option autoImplicit false

namespace Governance

/-! ## Naming policies -/

def ScopedPolicy.key (policy : ScopedPolicy) : ScopeId × PolicyId := (policy.scope, policy.id)

def FieldProvenance.key (source : FieldProvenance) : ScopeId × PolicyId :=
  (source.scope, source.policy)

namespace PolicyConflict

def parent (conflict : PolicyConflict) : ScopeId × PolicyId :=
  (conflict.parentScope, conflict.parentPolicy)

def child (conflict : PolicyConflict) : ScopeId × PolicyId :=
  (conflict.childScope, conflict.childPolicy)

end PolicyConflict

/-! ## The fields of one document -/

theorem InheritanceSettings.overlaps_comm (field other : FieldPath) :
    overlaps field other = overlaps other field := Bool.or_comm _ _

theorem InheritanceSettings.overlaps_self (field : FieldPath) : overlaps field field = true := by
  rw [overlaps, Bool.or_self, FieldPath.startsWith_iff]

theorem InheritanceSettings.ne_of_overlaps {field other : FieldPath}
    (beside : overlaps field other = false) : field ≠ other := by
  intro same
  rw [same, overlaps_self] at beside
  cases beside

namespace FieldRegistry

variable {registry : FieldRegistry}

theorem eq_nil_of_leafAt {keys names more : List String} {value leaf leaf' : Json}
    (reached : registry.LeafAt keys value names leaf)
    (reached' : registry.LeafAt keys value (names ++ more) leaf') : more = [] := by
  induction reached with
  | here ends => exact ((leafAt_iff_of_endsAt ends).mp reached').1
  | under _ found _ ih =>
      cases reached' with
      | under _ found' reached' =>
          rw [found] at found'
          cases found'
          exact ih reached'

theorem eq_of_leafOf {names names' : List String} {members : List (String × Json)}
    {leaf leaf' : Json} (reached : registry.LeafOf [] members names leaf)
    (reached' : registry.LeafOf [] members names' leaf') (begins : names <+: names') :
    names = names' := by
  obtain ⟨name, inner, rest, rfl, found, inside⟩ := reached
  obtain ⟨name', inner', rest', rfl, found', inside'⟩ := reached'
  obtain ⟨rfl, more, rfl⟩ := List.cons_prefix_cons.mp begins
  rw [found] at found'
  cases found'
  rw [eq_nil_of_leafAt inside inside', List.append_nil]

end FieldRegistry

theorem Leaves.separate_of_ofMembers {registry : FieldRegistry} {keepEmpty : Bool}
    {members : List (String × Json)} {leaves : Leaves} (known : (Json.obj members).WellFormed)
    (cut : ofMembers registry keepEmpty .root members = .ok leaves) : Separate registry leaves := by
  obtain ⟨ascending, spec⟩ := ofMembers_spec known cut
  refine ⟨placed_of_ofMembers cut, ascending.imp_of_mem fun {leaf other} listed listed' less => ?_⟩
  obtain ⟨_, names, field, inside⟩ := (spec leaf).mp listed
  obtain ⟨_, names', field', inside'⟩ := (spec other).mp listed'
  have different : names ≠ names' := fun same => KeyOrder.irrefl leaf.1 (by
    have equal : other.1 = leaf.1 := by rw [field, field', same]
    exact equal ▸ less)
  rw [field, field', InheritanceSettings.overlaps, Bool.or_eq_false_iff, ← Bool.not_eq_true,
    ← Bool.not_eq_true, FieldPath.startsWith_ofKeys_iff, FieldPath.startsWith_ofKeys_iff]
  constructor
  · exact fun begins => different (FieldRegistry.eq_of_leafOf inside inside' begins)
  · exact fun begins => different (FieldRegistry.eq_of_leafOf inside' inside begins).symm

namespace ScopedPolicy

variable {policy : ScopedPolicy} {registry : FieldRegistry} {leaves : Leaves}

theorem separate_declared (known : policy.WellFormed)
    (declared : policy.declared registry = .ok leaves) : leaves.Separate registry := by
  obtain ⟨members, keepEmpty, shape, cut, _⟩ := leaves_eq_ok declared
  exact Leaves.separate_of_ofMembers (shape ▸ known.1) cut

theorem separate_overridden (known : policy.WellFormed)
    (overridden : policy.overridden registry = .ok leaves) : leaves.Separate registry := by
  rcases overridden_cases overridden with ⟨_, rfl⟩ | ⟨members, keepEmpty, shape, cut⟩
  · exact ⟨List.forall_mem_nil _, List.Pairwise.nil⟩
  · exact Leaves.separate_of_ofMembers (known.2 _ shape) cut

end ScopedPolicy

namespace InheritanceSettings

variable {settings : InheritanceSettings} {policy : ScopedPolicy} {isOverride : Bool}
  {conflict : PolicyConflict} {displaced : SortedMap FieldPath MergedField} {leaves : Leaves}
  {leaf : FieldPath × Json} {state final : MergeState}

/-! ## One declared field -/

/-- A conflict between a declared field and an inherited one. Either the declared field lies above
or below the other, or it gives the same field a different value. -/
inductive Opposes (settings : InheritanceSettings) (policy : ScopedPolicy) (isOverride : Bool)
    (leaf : FieldPath × Json) (other : FieldPath) (inherited : MergedField) :
    PolicyConflict → Prop where
  | displaces : leaf.1 ≠ other → overlaps leaf.1 other = true →
      Opposes settings policy isOverride leaf other inherited
        (settings.conflict policy other .incompatible inherited leaf.2)
  | changes {classification : ConflictClassification} : leaf.1 = other →
      settings.difference leaf.1 inherited.value
        (settings.comparedOf policy isOverride leaf.1 leaf.2 inherited) = some classification →
      Opposes settings policy isOverride leaf other inherited
        (settings.conflict policy leaf.1 classification inherited
          (settings.comparedOf policy isOverride leaf.1 leaf.2 inherited))

namespace Opposes

variable {other : FieldPath} {inherited : MergedField}

theorem parent_eq (opposes : settings.Opposes policy isOverride leaf other inherited conflict) :
    conflict.parent = inherited.source.key := by
  cases opposes <;> rfl

theorem child_eq (opposes : settings.Opposes policy isOverride leaf other inherited conflict) :
    conflict.child = policy.key := by
  cases opposes <;> rfl

theorem overlaps_eq (opposes : settings.Opposes policy isOverride leaf other inherited conflict) :
    overlaps leaf.1 other = true := by
  cases opposes with
  | displaces _ overlap => exact overlap
  | changes same => rw [← same, overlaps_self]

end Opposes

theorem mem_clearedBy_iff :
    conflict ∈ settings.clearedBy policy leaf.1 leaf.2 state ↔ ∃ other merged, leaf.1 ≠ other ∧
      overlaps leaf.1 other = true ∧ state.fields.find? other = some merged ∧
      conflict = settings.conflict policy other .incompatible merged leaf.2 := by
  have listed : ∀ other merged,
      (other, merged) ∈ ((state.fields.erase leaf.1).filter fun other _ =>
        overlaps leaf.1 other).entries ↔
      leaf.1 ≠ other ∧ overlaps leaf.1 other = true ∧ state.fields.find? other = some merged := by
    intro other merged
    rw [← SortedMap.find?_eq_some_iff, SortedMap.find?_filter, SortedMap.find?_erase,
      Option.filter_eq_some_iff]
    by_cases same : leaf.1 = other
    · simp [same]
    · simp only [same, if_false, ne_eq, not_false_eq_true, true_and]
      exact and_comm
  rw [clearedBy, List.mem_map]
  constructor
  · intro given
    obtain ⟨⟨other, merged⟩, present, rfl⟩ := given
    obtain ⟨different, overlap, found⟩ := (listed other merged).mp present
    exact ⟨other, merged, different, overlap, found, rfl⟩
  · intro given
    obtain ⟨other, merged, different, overlap, found, rfl⟩ := given
    exact ⟨(other, merged), (listed other merged).mpr ⟨different, overlap, found⟩, rfl⟩

theorem mem_foundBy_iff {inherited : Option MergedField} :
    conflict ∈ settings.foundBy policy isOverride leaf.1 leaf.2 inherited ↔
      ∃ merged classification, inherited = some merged ∧
        settings.difference leaf.1 merged.value
          (settings.comparedOf policy isOverride leaf.1 leaf.2 merged) = some classification ∧
        conflict = settings.conflict policy leaf.1 classification merged
          (settings.comparedOf policy isOverride leaf.1 leaf.2 merged) := by
  cases inherited with
  | none => simp [foundBy]
  | some merged =>
      rw [foundBy]
      cases difference : settings.difference leaf.1 merged.value
          (settings.comparedOf policy isOverride leaf.1 leaf.2 merged) with
      | none => simp [difference]
      | some classification => simp [difference]

/-- A declared field is in conflict with what it inherits and with the fields it overlaps with. -/
theorem mem_conflicts_applyLeaf_iff {inherited : Option MergedField} :
    conflict ∈ (settings.applyLeaf policy isOverride leaf.1 leaf.2 inherited state).conflicts ↔
      conflict ∈ state.conflicts ∨ ∃ other merged,
        (if leaf.1 = other then inherited else state.fields.find? other) = some merged ∧
        settings.Opposes policy isOverride leaf other merged conflict := by
  rw [conflicts_applyLeaf, List.mem_append, List.mem_append, mem_clearedBy_iff, mem_foundBy_iff,
    or_assoc]
  refine or_congr_right ⟨fun new => ?_, fun new => ?_⟩
  · rcases new with ⟨other, merged, different, overlap, found, rfl⟩ |
      ⟨merged, classification, found, difference, rfl⟩
    · exact ⟨other, merged, by rwa [if_neg different], .displaces different overlap⟩
    · exact ⟨leaf.1, merged, by rwa [if_pos rfl], .changes rfl difference⟩
  · obtain ⟨other, merged, found, opposes⟩ := new
    cases opposes with
    | displaces different overlap =>
        rw [if_neg different] at found
        exact .inl ⟨other, merged, different, overlap, found, rfl⟩
    | changes same difference =>
        rw [if_pos same] at found
        exact .inr ⟨merged, _, found, difference, rfl⟩

/-! ## One document -/

theorem declareAll_cons :
    settings.declareAll policy isOverride displaced (leaf :: leaves) state =
      settings.declareAll policy isOverride displaced leaves
        (settings.applyLeaf policy isOverride leaf.1 leaf.2
          ((state.fields.find? leaf.1).or (displaced.find? leaf.1)) state) := rfl

theorem find?_declareAll_of_apart {field : FieldPath}
    (apart : ∀ leaf ∈ leaves, overlaps leaf.1 field = false) :
    (settings.declareAll policy isOverride displaced leaves state).fields.find? field
      = state.fields.find? field := by
  induction leaves generalizing state with
  | nil => rfl
  | cons leaf rest ih =>
      obtain ⟨beside, apart⟩ := List.forall_mem_cons.mp apart
      rw [declareAll_cons, ih apart, find?_applyLeaf, if_neg (ne_of_overlaps beside), beside,
        if_neg Bool.false_ne_true]

theorem find?_declareAll_of_mem
    (apart : leaves.Pairwise fun leaf other => overlaps leaf.1 other.1 = false)
    (listed : leaf ∈ leaves) :
    (settings.declareAll policy isOverride displaced leaves state).fields.find? leaf.1 =
      some ⟨settings.resultOf policy isOverride leaf.1 leaf.2
        ((state.fields.find? leaf.1).or (displaced.find? leaf.1)), policy.source isOverride⟩ := by
  induction leaves generalizing state with
  | nil => cases listed
  | cons first rest ih =>
      obtain ⟨beside, apart⟩ := List.pairwise_cons.mp apart
      rw [declareAll_cons]
      rcases List.mem_cons.mp listed with rfl | later
      · have untouched : ∀ other ∈ rest, overlaps other.1 leaf.1 = false := fun other listed =>
          overlaps_comm leaf.1 other.1 ▸ beside other listed
        rw [find?_declareAll_of_apart untouched, find?_applyLeaf, if_pos rfl]
        rfl
      · have beside := beside leaf later
        rw [ih apart later, find?_applyLeaf, if_neg (ne_of_overlaps beside), beside,
          if_neg Bool.false_ne_true]

theorem find?_declareAll_cases {field : FieldPath} {merged : MergedField}
    (found : (settings.declareAll policy isOverride displaced leaves state).fields.find? field
      = some merged) :
    state.fields.find? field = some merged ∨
      merged.source.key = policy.key ∧ ∃ leaf ∈ leaves, leaf.1 = field := by
  induction leaves generalizing state with
  | nil => exact .inl found
  | cons first rest ih =>
      rw [declareAll_cons] at found
      rcases ih found with before | ⟨own, leaf, listed, same⟩
      · rw [find?_applyLeaf] at before
        split at before
        · rename_i same
          cases before
          exact .inr ⟨rfl, first, List.mem_cons_self, same⟩
        · split at before
          · cases before
          · exact .inl before
      · exact .inr ⟨own, leaf, List.mem_cons_of_mem _ listed, same⟩

/-- The fields of a document are in conflict only with what was there before them. -/
theorem opposes_of_mem_declareAll
    (apart : leaves.Pairwise fun leaf other => overlaps leaf.1 other.1 = false)
    (recorded : conflict ∈
      (settings.declareAll policy isOverride displaced leaves state).conflicts) :
    conflict ∈ state.conflicts ∨ ∃ leaf ∈ leaves, ∃ other merged,
      (state.fields.find? other = some merged ∨ displaced.find? other = some merged) ∧
      settings.Opposes policy isOverride leaf other merged conflict := by
  induction leaves generalizing state with
  | nil => exact .inl recorded
  | cons first rest ih =>
      obtain ⟨beside, apart⟩ := List.pairwise_cons.mp apart
      rcases ih apart recorded with earlier | ⟨leaf, listed, other, merged, found, opposes⟩
      · rcases mem_conflicts_applyLeaf_iff.mp earlier with old | ⟨other, merged, found, opposes⟩
        · exact .inl old
        · refine .inr ⟨first, List.mem_cons_self, other, merged, ?_, opposes⟩
          split at found
          · rename_i same
            rw [same] at found
            exact (Option.or_eq_some_iff.mp found).imp_right And.right
          · exact .inl found
      · refine .inr ⟨leaf, List.mem_cons_of_mem _ listed, other, merged, ?_, opposes⟩
        refine found.imp_left fun found => ?_
        rw [find?_applyLeaf] at found
        split at found
        · -- the two fields of the document would overlap
          rename_i same
          have overlap := opposes.overlaps_eq
          rw [← same, overlaps_comm, beside leaf listed] at overlap
          cases overlap
        · split at found
          · cases found
          · exact found

/-- Every inherited field that a field of the document opposes is in some conflict with one of
them, if only because an earlier field of the document has displaced it. -/
theorem exists_mem_declareAll_of_opposes
    (apart : leaves.Pairwise fun leaf other => overlaps leaf.1 other.1 = false)
    (listed : leaf ∈ leaves) {other : FieldPath} {merged : MergedField}
    (found : state.fields.find? other = some merged)
    (opposes : settings.Opposes policy isOverride leaf other merged conflict) :
    ∃ conflict' ∈ (settings.declareAll policy isOverride displaced leaves state).conflicts,
      ∃ leaf' ∈ leaves, settings.Opposes policy isOverride leaf' other merged conflict' := by
  induction leaves generalizing state with
  | nil => cases listed
  | cons first rest ih =>
      obtain ⟨beside, apart⟩ := List.pairwise_cons.mp apart
      have grows := (@conflicts_prefix_declareAll settings policy isOverride displaced rest
        (settings.applyLeaf policy isOverride first.1 first.2
          ((state.fields.find? first.1).or (displaced.find? first.1)) state)).subset
      have here : ∀ {conflict}, settings.Opposes policy isOverride first other merged conflict →
          conflict ∈ (settings.declareAll policy isOverride displaced (first :: rest)
            state).conflicts := by
        intro conflict opposes
        refine grows (mem_conflicts_applyLeaf_iff.mpr (.inr ⟨other, merged, ?_, opposes⟩))
        split
        · rename_i same
          rw [same, found, Option.some_or]
        · exact found
      -- the first field that overlaps with the inherited one meets it, the others no longer do
      rcases List.mem_cons.mp listed with rfl | later
      · exact ⟨conflict, here opposes, leaf, List.mem_cons_self, opposes⟩
      · have different : first.1 ≠ other := by
          intro same
          have overlap := opposes.overlaps_eq
          rw [← same, overlaps_comm, beside leaf later] at overlap
          cases overlap
        cases overlap : overlaps first.1 other with
        | true =>
            have opposes : settings.Opposes policy isOverride first other merged _ :=
              .displaces different overlap
            exact ⟨_, here opposes, first, List.mem_cons_self, opposes⟩
        | false =>
            have kept : (settings.applyLeaf policy isOverride first.1 first.2
                ((state.fields.find? first.1).or (displaced.find? first.1))
                  state).fields.find? other = some merged := by
              rw [find?_applyLeaf, if_neg different, overlap, if_neg Bool.false_ne_true, found]
            obtain ⟨conflict', recorded, leaf', listed', opposes'⟩ := ih apart later kept
            exact ⟨conflict', recorded, leaf', List.mem_cons_of_mem _ listed', opposes'⟩

/-! ## The rules -/

theorem find?_applyRules_of_mem
    (apart : leaves.Pairwise fun leaf other => overlaps leaf.1 other.1 = false)
    (listed : leaf ∈ leaves) :
    (settings.applyRules policy leaves state).fields.find? leaf.1 =
      some ⟨settings.resultOf policy false leaf.1 leaf.2 (state.fields.find? leaf.1),
        policy.source false⟩ := by
  by_cases replacing : policy.mode = .replace
  · rw [applyRules_of_replace replacing]
    refine (find?_declareAll_of_mem apart listed).trans ?_
    rw [find?_or_displacedBy]
  · rw [applyRules_of_not_replace replacing]
    refine (find?_declareAll_of_mem apart listed).trans ?_
    change some (MergedField.mk (settings.resultOf policy false leaf.1 leaf.2
      ((state.fields.find? leaf.1).or none)) _) = _
    rw [Option.or_none]

theorem find?_applyRules_cases {field : FieldPath} {merged : MergedField}
    (found : (settings.applyRules policy leaves state).fields.find? field = some merged) :
    state.fields.find? field = some merged ∨
      merged.source.key = policy.key ∧ ∃ leaf ∈ leaves, leaf.1 = field := by
  by_cases replacing : policy.mode = .replace
  · rw [applyRules_of_replace replacing] at found
    refine (find?_declareAll_cases found).imp_left fun kept => ?_
    rw [SortedMap.find?_filter] at kept
    exact (Option.filter_eq_some_iff.mp kept).1
  · rw [applyRules_of_not_replace replacing] at found
    exact find?_declareAll_cases found

theorem parties_applyRules
    (apart : leaves.Pairwise fun leaf other => overlaps leaf.1 other.1 = false)
    (recorded : conflict ∈ (settings.applyRules policy leaves state).conflicts) :
    conflict ∈ state.conflicts ∨ conflict.child = policy.key ∧ ∃ field merged,
      state.fields.find? field = some merged ∧ conflict.parent = merged.source.key := by
  by_cases replacing : policy.mode = .replace
  · have within : ∀ {field merged} {keep : FieldPath → MergedField → Bool},
        (state.fields.filter keep).find? field = some merged →
          state.fields.find? field = some merged := by
      intro field merged keep found
      rw [SortedMap.find?_filter] at found
      exact (Option.filter_eq_some_iff.mp found).1
    rw [applyRules_of_replace replacing] at recorded
    rcases List.mem_append.mp recorded with declared | dropped
    · rw [replaced, applyDeclared_eq_declareAll] at declared
      rcases opposes_of_mem_declareAll apart declared with
        old | ⟨_, _, field, merged, found, opposes⟩
      · exact .inl old
      · exact .inr ⟨opposes.child_eq, field, merged, found.elim within within, opposes.parent_eq⟩
    · obtain ⟨⟨field, merged⟩, present, rfl⟩ := List.mem_map.mp dropped
      have lost := (List.mem_filter.mp present).1
      exact .inr ⟨rfl, field, merged, within (SortedMap.find?_eq_some_iff.mpr lost), rfl⟩
  · rw [applyRules_of_not_replace replacing, applyDeclared_eq_declareAll] at recorded
    rcases opposes_of_mem_declareAll apart recorded with old | ⟨_, _, field, merged, found, opposes⟩
    · exact .inl old
    · rcases found with found | absent
      · exact .inr ⟨opposes.child_eq, field, merged, found, opposes.parent_eq⟩
      · cases absent

end InheritanceSettings

/-! ## Policies in conflict with themselves -/

/-- Whether the overrides of a policy go against its own rules: an override lies above or below a
field of the rules, or differs from the value that the rules give to the same field. -/
def ScopedPolicy.ContradictsItself (settings : InheritanceSettings)
    (inherited : SortedMap FieldPath MergedField) (policy : ScopedPolicy) : Prop :=
  ∃ declared overridden, policy.declared settings.registry = .ok declared ∧
    policy.overridden settings.registry = .ok overridden ∧
    ∃ rule ∈ declared, ∃ override ∈ overridden,
      if override.1 = rule.1 then
        settings.difference rule.1 (settings.resultOf policy false rule.1 rule.2
          (inherited.find? rule.1)) override.2 ≠ none
      else InheritanceSettings.overlaps override.1 rule.1 = true

namespace InheritanceSettings

variable {settings : InheritanceSettings} {policy : ScopedPolicy} {conflict : PolicyConflict}
  {state final : MergeState}

theorem comparedOf_override {leaf : FieldPath × Json} {inherited : MergedField} :
    settings.comparedOf policy true leaf.1 leaf.2 inherited = leaf.2 := by
  rw [comparedOf, ite_eq_right_iff]
  intro _
  rfl

theorem exists_opposes_iff {rule override : FieldPath × Json} {value : Json}
    {source : FieldProvenance} :
    (∃ conflict, settings.Opposes policy true override rule.1 ⟨value, source⟩ conflict) ↔
      if override.1 = rule.1 then settings.difference rule.1 value override.2 ≠ none
      else overlaps override.1 rule.1 = true := by
  constructor
  · intro given
    obtain ⟨conflict, opposes⟩ := given
    cases opposes with
    | displaces different overlap => rwa [if_neg different]
    | changes same difference =>
        rw [comparedOf_override, same] at difference
        rw [if_pos same, difference]
        exact Option.some_ne_none _
  · intro given
    split at given
    · rename_i same
      obtain ⟨classification, difference⟩ := Option.ne_none_iff_exists'.mp given
      have found : settings.difference override.1 value
          (settings.comparedOf policy true override.1 override.2 ⟨value, source⟩)
            = some classification := by
        rw [comparedOf_override, same]
        exact difference
      exact ⟨_, .changes same found⟩
    · rename_i different
      exact ⟨_, .displaces different given⟩

/-- A policy is in conflict with fields that it inherits, or with itself. -/
theorem parties_applyPolicy (known : policy.WellFormed)
    (applied : settings.applyPolicy policy state = .ok final)
    (recorded : conflict ∈ final.conflicts) :
    conflict ∈ state.conflicts ∨ conflict.child = policy.key ∧
      ((∃ field merged, state.fields.find? field = some merged ∧
          conflict.parent = merged.source.key) ∨
        conflict.parent = policy.key ∧ policy.ContradictsItself settings state.fields) := by
  obtain ⟨declared, overridden, rules, overrides, rfl⟩ := applyPolicy_eq_ok applied
  have apart := (ScopedPolicy.separate_declared known rules).apart
  have apart' := (ScopedPolicy.separate_overridden known overrides).apart
  rw [applyOverridden_eq_declareAll] at recorded
  rcases opposes_of_mem_declareAll apart' recorded with
    byRules | ⟨override, listed, field, merged, found, opposes⟩
  · exact (parties_applyRules apart byRules).imp_right fun parties => parties.imp_right .inl
  · refine .inr ⟨opposes.child_eq, ?_⟩
    rcases found with found | absent
    · rcases find?_applyRules_cases found with inherited | ⟨_, rule, listed', rfl⟩
      · exact .inl ⟨field, merged, inherited, opposes.parent_eq⟩
      · -- the override meets a field of the rules
        rw [find?_applyRules_of_mem apart listed'] at found
        cases found
        exact .inr ⟨opposes.parent_eq, declared, overridden, rules, overrides, rule, listed',
          override, listed, exists_opposes_iff.mp ⟨conflict, opposes⟩⟩
    · cases absent

theorem exists_of_contradictsItself (known : policy.WellFormed)
    (applied : settings.applyPolicy policy state = .ok final)
    (contradicts : policy.ContradictsItself settings state.fields) :
    ∃ conflict ∈ final.conflicts, conflict.parent = policy.key ∧ conflict.child = policy.key := by
  obtain ⟨declared, overridden, rules, overrides, rule, listed, override, listed', against⟩ :=
    contradicts
  obtain ⟨declared', overridden', rules', overrides', rfl⟩ := applyPolicy_eq_ok applied
  rw [rules] at rules'
  rw [overrides] at overrides'
  cases rules'
  cases overrides'
  have apart := (ScopedPolicy.separate_declared known rules).apart
  have apart' := (ScopedPolicy.separate_overridden known overrides).apart
  have found := @find?_applyRules_of_mem settings policy _ _ state apart listed
  obtain ⟨conflict, opposes⟩ := (@exists_opposes_iff settings policy rule override _
    (policy.source false)).mpr against
  obtain ⟨conflict', recorded, override', _, opposes'⟩ :=
    @exists_mem_declareAll_of_opposes settings policy true conflict ∅ overridden override _
      apart' listed' _ _ found opposes
  rw [applyOverridden_eq_declareAll]
  exact ⟨conflict', recorded, opposes'.parent_eq, opposes'.child_eq⟩

/-! ## Runs -/

theorem source_of_applyPolicy (applied : settings.applyPolicy policy state = .ok final)
    {field : FieldPath} {merged : MergedField} (found : final.fields.find? field = some merged) :
    state.fields.find? field = some merged ∨ merged.source.key = policy.key := by
  obtain ⟨declared, overridden, _, _, rfl⟩ := applyPolicy_eq_ok applied
  rw [applyOverridden_eq_declareAll] at found
  rcases find?_declareAll_cases found with middle | ⟨own, _⟩
  · exact (find?_applyRules_cases middle).imp_right And.left
  · exact .inr own

theorem source_of_applyAll {ordered : List ScopedPolicy}
    (applied : settings.applyAll ordered {} = .ok final) {field : FieldPath} {merged : MergedField}
    (found : final.fields.find? field = some merged) :
    ∃ policy ∈ ordered, merged.source.key = policy.key := by
  induction ordered using List.reverseRecOn generalizing final with
  | nil =>
      cases applied
      cases found
  | append_singleton front last ih =>
      obtain ⟨middle, earlier, later⟩ := applyAll_append_eq_ok applied
      obtain ⟨next, step, done⟩ := applyAll_cons_eq_ok later
      cases done
      rcases source_of_applyPolicy step found with old | own
      · obtain ⟨policy, listed, same⟩ := ih earlier old
        exact ⟨policy, List.mem_append_left _ listed, same⟩
      · exact ⟨last, List.mem_append_right _ List.mem_cons_self, own⟩

/-- Every conflict of a run was found when some policy was applied, between that policy and an
earlier one or within the policy. -/
theorem parties_applyAll {ordered : List ScopedPolicy}
    (known : ∀ policy ∈ ordered, policy.WellFormed)
    (applied : settings.applyAll ordered {} = .ok final) (recorded : conflict ∈ final.conflicts) :
    ∃ front child back, ordered = front ++ child :: back ∧ conflict.child = child.key ∧
      ((∃ parent ∈ front, conflict.parent = parent.key) ∨
        conflict.parent = child.key ∧ ∃ inherited, settings.applyAll front {} = .ok inherited ∧
          child.ContradictsItself settings inherited.fields) := by
  induction ordered using List.reverseRecOn generalizing final with
  | nil =>
      cases applied
      cases recorded
  | append_singleton front last ih =>
      obtain ⟨known, known_last⟩ := List.forall_mem_append.mp known
      obtain ⟨middle, earlier, later⟩ := applyAll_append_eq_ok applied
      obtain ⟨next, step, done⟩ := applyAll_cons_eq_ok later
      cases done
      rcases parties_applyPolicy (known_last last List.mem_cons_self) step recorded with
        old | ⟨named, parent⟩
      · obtain ⟨before, child, back, rfl, parties⟩ := ih known earlier old
        exact ⟨before, child, back ++ [last], by simp, parties⟩
      · refine ⟨front, last, [], rfl, named, parent.imp (fun inherits => ?_) fun own => ?_⟩
        · obtain ⟨field, merged, found, same⟩ := inherits
          obtain ⟨policy, listed, key⟩ := source_of_applyAll earlier found
          exact ⟨policy, listed, same.trans key⟩
        · exact ⟨own.1, middle, earlier, own.2⟩

theorem exists_of_split {front back : List ScopedPolicy} {child : ScopedPolicy}
    {inherited : MergeState} (known : child.WellFormed)
    (earlier : settings.applyAll front {} = .ok inherited)
    (applied : settings.applyAll (front ++ child :: back) {} = .ok final)
    (contradicts : child.ContradictsItself settings inherited.fields) :
    ∃ conflict ∈ final.conflicts, conflict.parent = child.key ∧ conflict.child = child.key := by
  rw [applyAll_append_of_ok earlier] at applied
  obtain ⟨next, step, later⟩ := applyAll_cons_eq_ok applied
  obtain ⟨conflict, recorded, named⟩ := exists_of_contradictsItself known step contradicts
  exact ⟨conflict, (conflicts_prefix_applyAll later).subset recorded, named⟩

/-! ## Reported conflicts -/

inductive Reports : Except InheritanceError EffectiveOutcome → List PolicyConflict → Prop where
  | outcome (outcome : EffectiveOutcome) : Reports (.ok outcome) outcome.conflicts
  | refused {scope : ScopeId} {policy : PolicyId} {conflicts : List PolicyConflict} :
      Reports (.error (.conflict scope policy conflicts)) conflicts

variable {target : ScopeId} {chain : List Scope} {policies : List ScopedPolicy}
  {conflicts : List PolicyConflict}

theorem merged_of_reports (reported : Reports (settings.compute target chain policies) conflicts) :
    ∃ final, settings.mergeChain target chain policies = .ok final ∧
      final.conflicts = conflicts := by
  generalize computed : settings.compute target chain policies = result at reported
  cases reported with
  | outcome outcome =>
      obtain ⟨final, merged, _, _, _, same⟩ := compute_eq_ok computed
      exact ⟨final, merged, same.symm⟩
  | refused =>
      obtain ⟨final, _, merged, _, _, _, same⟩ := compute_eq_conflict computed
      exact ⟨final, merged, same⟩

/-- Every reported conflict is between a policy and one that is applied before it, or within one
policy, and policies in conflict with themselves are those whose overrides go against their own
rules. -/
theorem compute_parties (settings : InheritanceSettings) (target : ScopeId) (chain : List Scope)
    (policies : List ScopedPolicy) (conflicts : List PolicyConflict)
    (known : ∀ policy ∈ policies, policy.WellFormed)
    (distinct : (policies.map fun policy => (policy.scope, policy.id)).Nodup)
    (reported : Reports (settings.compute target chain policies) conflicts) :
    ∃ ordered, ScopedPolicy.applicationOrder chain policies = .ok ordered ∧
      (∀ conflict ∈ conflicts, ∃ parent ∈ policies, ∃ child ∈ policies,
        conflict.parent = parent.key ∧ conflict.child = child.key ∧
          (parent.Before chain child ∨ parent = child)) ∧
      ∀ child ∈ policies,
        (∃ conflict ∈ conflicts, conflict.parent = child.key ∧ conflict.child = child.key) ↔
          ∃ front back inherited, ordered = front ++ child :: back ∧
            settings.applyAll front {} = .ok inherited ∧
            child.ContradictsItself settings inherited.fields := by
  obtain ⟨final, merged, rfl⟩ := merged_of_reports reported
  obtain ⟨_, ordered, placed, applied⟩ := mergeChain_eq_ok merged
  have perm := (ScopedPolicy.applicationOrder_eq_ok placed).1
  have sorted := ScopedPolicy.pairwise_before distinct placed
  have distinct' : (ordered.map ScopedPolicy.key).Nodup := (perm.map _).nodup_iff.mpr distinct
  have known' : ∀ policy ∈ ordered, policy.WellFormed := fun policy listed =>
    known policy (perm.mem_iff.mp listed)
  have apart : ∀ policy ∈ ordered, ∀ other ∈ ordered, policy.key = other.key → policy = other :=
    fun policy listed other listed' => List.inj_on_of_nodup_map distinct' listed listed'
  refine ⟨ordered, placed, fun conflict recorded => ?_, fun child listed => ⟨fun own => ?_, ?_⟩⟩
  · obtain ⟨front, child, back, rfl, named, parties⟩ := parties_applyAll known' applied recorded
    have later : child ∈ policies := perm.mem_iff.mp (List.mem_append_right _ List.mem_cons_self)
    rcases parties with ⟨parent, above, named'⟩ | ⟨own, _⟩
    · have before := (List.pairwise_append.mp sorted).2.2 parent above child List.mem_cons_self
      exact ⟨parent, perm.mem_iff.mp (List.mem_append_left _ above), child, later, named', named,
        .inl before⟩
    · exact ⟨child, later, child, later, own, named, .inr rfl⟩
  · obtain ⟨conflict, recorded, named', named⟩ := own
    obtain ⟨front, child', back, rfl, named'', parties⟩ := parties_applyAll known' applied recorded
    have listed' := perm.mem_iff.mpr listed
    obtain rfl : child = child' := apart child listed' child'
      (List.mem_append_right _ List.mem_cons_self) (named.symm.trans named'')
    rcases parties with ⟨parent, above, same⟩ | ⟨_, inherited, earlier, contradicts⟩
    · -- the parent would be the policy itself, and come before it
      obtain rfl := apart child listed' parent (List.mem_append_left _ above)
        (named'.symm.trans same)
      have before := (List.pairwise_append.mp sorted).2.2 child above child List.mem_cons_self
      exact (before.asymm before).elim
    · exact ⟨front, back, inherited, rfl, earlier, contradicts⟩
  · intro given
    obtain ⟨front, back, inherited, rfl, earlier, contradicts⟩ := given
    exact exists_of_split (known child listed) earlier applied contradicts

/-! ### A policy that overrides its own rule -/

def companyOverride : ScopedPolicy :=
  { companyApprovals with overrides := some (.obj [("min_approvals", .int 1)]) }

theorem wellFormed_companyOverride : companyOverride.WellFormed := by
  refine ⟨by decide, fun overrides given => ?_⟩
  cases given
  decide

theorem compute_companyOverride : ∃ outcome,
    compute {} companyScope.id [companyScope] [companyOverride] = .ok outcome ∧
      ∃ conflict ∈ outcome.conflicts,
        conflict.parent = companyOverride.key ∧ conflict.child = companyOverride.key := by
  obtain ⟨state, applied, settled, free, recorded⟩ : ∃ state,
      InheritanceSettings.applyAll {} [companyOverride] {} = .ok state ∧
        state.incompatible? = none ∧ state.document.floatFree = true ∧
        ∃ conflict ∈ state.conflicts,
          conflict.parent = companyOverride.key ∧ conflict.child = companyOverride.key :=
    ⟨_, rfl, by decide, by decide, by decide⟩
  obtain ⟨outcome, computed, _, _, same⟩ := @compute_of_applyAll {} companyScope.id [companyScope]
    [companyOverride] _ _ (by decide) (applicationOrder_companyScope rfl) applied settled free
  exact ⟨outcome, computed, same ▸ recorded⟩

theorem compute_parties_companyOverride : ∃ outcome inherited,
    compute {} companyScope.id [companyScope] [companyOverride] = .ok outcome ∧
      applyAll {} [] {} = .ok inherited ∧
      companyOverride.ContradictsItself {} inherited.fields := by
  obtain ⟨outcome, computed, recorded⟩ := compute_companyOverride
  obtain ⟨ordered, placed, _, own⟩ := compute_parties {} companyScope.id [companyScope]
    [companyOverride] outcome.conflicts (List.forall_mem_singleton.mpr wellFormed_companyOverride)
    (by decide) (computed ▸ .outcome outcome)
  rw [applicationOrder_companyScope rfl] at placed
  cases placed
  obtain ⟨front, back, inherited, shape, applied, contradicts⟩ :=
    (own companyOverride List.mem_cons_self).mp recorded
  cases front with
  | nil => exact ⟨outcome, inherited, computed, applied, contradicts⟩
  | cons policy front =>
      cases front <;> cases shape

/-- The parent of a conflict need not have been applied before the child: it may be the child. -/
theorem conflict_within_policy : ¬ ∀ (target : ScopeId) (chain : List Scope)
    (policies : List ScopedPolicy) (conflicts : List PolicyConflict),
    (∀ policy ∈ policies, policy.WellFormed) →
    (policies.map fun policy => (policy.scope, policy.id)).Nodup →
    Reports (compute {} target chain policies) conflicts →
    ∀ conflict ∈ conflicts, ∃ parent ∈ policies, ∃ child ∈ policies,
      conflict.parent = parent.key ∧ conflict.child = child.key ∧ parent.Before chain child := by
  intro bound
  obtain ⟨outcome, computed, conflict, recorded, _⟩ := compute_companyOverride
  have reported : Reports (compute {} companyScope.id [companyScope] [companyOverride])
      outcome.conflicts := computed ▸ .outcome outcome
  have known := List.forall_mem_singleton.mpr wellFormed_companyOverride
  obtain ⟨parent, listed, child, listed', _, _, before⟩ :=
    bound _ _ _ _ known (by decide) reported conflict recorded
  rw [List.mem_singleton.mp listed, List.mem_singleton.mp listed'] at before
  exact before.asymm before

end InheritanceSettings

end Governance
