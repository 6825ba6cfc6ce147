import Governance.Proofs.Canonical.Arranged
import Governance.Proofs.Conflict.Strictness
import Governance.Proofs.Effective.Fields

/-!
# Differences that are recorded

What is compared when a field is declared over an inherited value. Where the difference is neither
looser nor incompatible, the field is at least as strict afterwards as it was before.
-/

set_option autoImplicit false

namespace Governance

namespace Canonical

variable {registry : FieldRegistry} {keys : List String}

/-! ## Values that are arranged as they stand -/

theorem arranged_eq_self {value : Json}
    (ordered : ∀ more, registry.isOrderless (keys ++ more) = false) :
    arranged registry keys value = value := by
  induction value using Json.induct generalizing keys with
  | null | bool | int | float | str => rfl
  | arr items ih =>
      have here := ordered []
      rw [List.append_nil] at here
      have same := List.map_congr_left fun item listed => ih item listed ordered
      rw [arranged, here, arrangedItems_eq_map, same, List.map_id']
      rfl
  | obj members ih =>
      have same : ∀ member ∈ members,
          (member.1, arranged registry (keys ++ [member.1]) member.2) = member := by
        intro member listed
        refine Prod.ext rfl (ih member listed fun more => ?_)
        rw [List.append_assoc]
        exact ordered _
      rw [arranged, arrangedMembers_eq_map, List.map_congr_left same, List.map_id']

theorem arranged_element {item : Json}
    (ordered : ∀ name more, registry.isOrderless (keys ++ name :: more) = false)
    (element : item.isText = true ∨ item.isObject = true) : arranged registry keys item = item := by
  cases item with
  | str => rfl
  | obj members =>
      have same : ∀ member ∈ members,
          (member.1, arranged registry (keys ++ [member.1]) member.2) = member := by
        intro member _
        refine Prod.ext rfl (arranged_eq_self fun more => ?_)
        rw [List.append_assoc]
        exact ordered member.1 more
      rw [arranged, arrangedMembers_eq_map, List.map_congr_left same, List.map_id']
  | null | bool | int | float | arr => simp [Json.isText, Json.text?, Json.isObject] at element

end Canonical

theorem ValueKind.element_of_accepts {kind : ValueKind} {items : List Json}
    (accepted : kind.accepts (.arr items) = true) :
    ∀ item ∈ items, item.isText = true ∨ item.isObject = true := by
  cases kind with
  | boolean | number => cases accepted
  | stringArray => exact fun item listed => .inl (List.all_eq_true.mp accepted item listed)
  | objectArray => exact fun item listed => .inr (List.all_eq_true.mp accepted item listed)

/-! ## Strictness of fields -/

namespace FieldRegistry

variable {registry : FieldRegistry} {field : FieldPath}

/-- Whether a later value of a field restricts at least as much as an earlier one. Where nothing is
known about the field, only the same canonical form does. -/
def AtLeastAsStrict (registry : FieldRegistry) (field : FieldPath) (earlier later : Json) : Prop :=
  match registry.directive? field with
  | none => Canonical.valueAt registry field earlier = Canonical.valueAt registry field later
  | some directive => directive.AtLeastAsStrict earlier later

/-- Whether a value of a field restricts nothing: a flag that is not set, or an empty list of
restrictions. -/
def ImposesNothing (registry : FieldRegistry) (field : FieldPath) (value : Json) : Prop :=
  ∃ directive, registry.directive? field = some directive ∧
    (directive.strictness = .trueIsStricter ∧ value = .bool false ∨
      directive.strictness = .moreIsStricter ∧ value = .arr [])

theorem atLeastAsStrict_self (orderly : registry.Orderly) {value : Json}
    (fits : registry.Fits field value) : registry.AtLeastAsStrict field value value := by
  unfold AtLeastAsStrict
  split
  · rfl
  · rename_i directive found
    exact FieldDirective.atLeastAsStrict_self (orderly.coherent _ _ found) fits.1
      (fits.2 directive found)

theorem atLeastAsStrict_trans {first second third : Json}
    (earlier : registry.AtLeastAsStrict field first second)
    (later : registry.AtLeastAsStrict field second third) :
    registry.AtLeastAsStrict field first third := by
  unfold AtLeastAsStrict at *
  split at earlier
  · rename_i unregistered
    rw [unregistered] at later
    exact earlier.trans later
  · rename_i directive found
    rw [found] at later
    exact FieldDirective.atLeastAsStrict_trans earlier later

theorem atLeastAsStrict_of_imposesNothing (orderly : registry.Orderly) {earlier later : Json}
    (nothing : registry.ImposesNothing field earlier) (fits : registry.Fits field later) :
    registry.AtLeastAsStrict field earlier later := by
  obtain ⟨directive, found, nothing⟩ := nothing
  have self := FieldDirective.atLeastAsStrict_self (orderly.coherent _ _ found) fits.1
    (fits.2 directive found)
  rw [AtLeastAsStrict, found]
  rcases nothing with ⟨direction, rfl⟩ | ⟨direction, rfl⟩
  · cases self with
    | flags => exact .flags direction fun set => nomatch set
    | numbers moved => simp [FieldDirective.NumbersAtLeast, direction] at moved
    | items moved => simp [FieldDirective.ItemsAtLeast, direction] at moved
  · cases self with
    | flags direction' =>
        rw [direction] at direction'
        cases direction'
    | numbers moved => simp [FieldDirective.NumbersAtLeast, direction] at moved
    | items moved =>
        refine .items ?_
        rw [FieldDirective.ItemsAtLeast, direction]
        cases directive.isOrderless
        · exact List.nil_prefix
        · exact List.nil_subset _

theorem imposesNothing_of_atLeastAsStrict {earlier later : Json}
    (strict : registry.AtLeastAsStrict field earlier later)
    (nothing : registry.ImposesNothing field later) : registry.ImposesNothing field earlier := by
  obtain ⟨directive, found, nothing⟩ := nothing
  refine ⟨directive, found, ?_⟩
  rw [AtLeastAsStrict, found] at strict
  rcases nothing with ⟨direction, rfl⟩ | ⟨direction, rfl⟩
  · cases strict with
    | @flags earlier _ _ kept =>
        cases earlier with
        | false => exact .inl ⟨direction, rfl⟩
        | true => cases kept rfl
  · cases strict with
    | items moved =>
        refine .inr ⟨direction, congrArg Json.arr ?_⟩
        rw [FieldDirective.ItemsAtLeast, direction] at moved
        cases order : directive.isOrderless with
        | false =>
            rw [order] at moved
            exact List.prefix_nil.mp moved
        | true =>
            rw [order] at moved
            exact List.subset_nil.mp moved

theorem losingLoosens_eq_false_iff {value : Json} :
    FieldDirective.losingLoosens (registry.directive? field) value = false ↔
      registry.ImposesNothing field value := by
  unfold FieldDirective.losingLoosens ImposesNothing
  cases registry.directive? field with
  | none => simp
  | some directive =>
      obtain ⟨kind, ordering, merge, strictness⟩ := directive
      cases strictness <;> cases value <;> simp

end FieldRegistry

/-! ## Recorded differences -/

namespace InheritanceSettings

variable {settings : InheritanceSettings} {field : FieldPath}

theorem sameCanonical_iff {earlier later : Json} (free : earlier.floatFree = true)
    (free' : later.floatFree = true) :
    settings.sameCanonical field earlier later = true ↔
      Canonical.arranged settings.registry field.keys earlier
        = Canonical.arranged settings.registry field.keys later := by
  rw [sameCanonical, Canonical.valueAt, Canonical.valueAt,
    Canonical.normalize_eq_arranged settings.registry free,
    Canonical.normalize_eq_arranged settings.registry free']
  exact Json.same_iff (Canonical.floatFree_arranged settings.registry free)

/-- Arrays of a registered field with the same canonical form have the same elements, and where the
order counts they are the same. -/
theorem items_of_arranged_eq (orderly : settings.registry.Orderly) {directive : FieldDirective}
    (found : settings.registry.directive? field = some directive) {earlier later : List Json}
    (accepted : directive.kind.accepts (.arr earlier) = true)
    (accepted' : directive.kind.accepts (.arr later) = true)
    (same : Canonical.arranged settings.registry field.keys (.arr earlier)
      = Canonical.arranged settings.registry field.keys (.arr later)) :
    if directive.isOrderless = true then earlier.Perm later else earlier = later := by
  have arranged_items : ∀ {items : List Json}, directive.kind.accepts (.arr items) = true →
      Canonical.arrangedItems settings.registry field.keys items = items := by
    intro items accepted
    have each := List.map_congr_left fun item listed =>
      Canonical.arranged_element (orderly.ordered_below field.keys directive found)
        (ValueKind.element_of_accepts accepted item listed)
    rw [Canonical.arrangedItems_eq_map, each, List.map_id']
  have order : settings.registry.isOrderless field.keys = directive.isOrderless := by
    rw [FieldRegistry.isOrderless, ← FieldRegistry.directive?, found]
    rfl
  rw [Canonical.arranged, Canonical.arranged, arranged_items accepted, arranged_items accepted',
    order, Json.arr.injEq] at same
  cases known : directive.isOrderless with
  | false => simpa [known] using same
  | true =>
      simp only [known, if_true] at same ⊢
      exact (Canonical.sortByText_perm earlier).symm.trans
        (same ▸ Canonical.sortByText_perm later)

theorem itemsAtLeast_of_same {directive : FieldDirective} {earlier later : List Json}
    (self : directive.ItemsAtLeast earlier earlier)
    (same : if directive.isOrderless = true then earlier.Perm later else earlier = later) :
    directive.ItemsAtLeast earlier later := by
  obtain ⟨kind, ordering, merge, strictness⟩ := directive
  cases ordering with
  | ordered => exact same ▸ self
  | orderless =>
      have perm : earlier.Perm later := same
      cases strictness with
      | moreIsStricter => exact perm.subset
      | fewerIsStricter => exact perm.symm.subset
      | anyChangeIsLooser => exact fun item => perm.mem_iff
      | trueIsStricter | lowerIsStricter | higherIsStricter => exact self

theorem atLeastAsStrict_of_sameCanonical (orderly : settings.registry.Orderly)
    {earlier later : Json} (fits : settings.registry.Fits field earlier)
    (fits' : settings.registry.Fits field later)
    (same : settings.sameCanonical field earlier later = true) :
    settings.registry.AtLeastAsStrict field earlier later := by
  rw [sameCanonical_iff fits.1 fits'.1] at same
  unfold FieldRegistry.AtLeastAsStrict
  split
  · rw [Canonical.valueAt, Canonical.valueAt,
      Canonical.normalize_eq_arranged settings.registry fits.1,
      Canonical.normalize_eq_arranged settings.registry fits'.1, same]
  · rename_i directive found
    have coherent := orderly.coherent _ _ found
    have accepted := fits.2 directive found
    have accepted' := fits'.2 directive found
    have self := FieldDirective.atLeastAsStrict_self coherent fits.1 accepted
    have self' := FieldDirective.atLeastAsStrict_self coherent fits'.1 accepted'
    cases id self with
    | @flags earlier =>
        cases self' with
        | @flags later =>
            have equal : Json.bool earlier = .bool later := same
            exact equal ▸ self
        | numbers | items => simp [Canonical.arranged] at same
    | @numbers earlier =>
        cases self' with
        | @numbers later =>
            have equal : Json.int earlier = .int later := same
            exact equal ▸ self
        | flags | items => simp [Canonical.arranged] at same
    | items moved =>
        cases self' with
        | flags | numbers => simp [Canonical.arranged] at same
        | items =>
            exact .items (itemsAtLeast_of_same moved
              (items_of_arranged_eq orderly found accepted accepted' same))

/-- A difference that is recorded neither as looser nor as incompatible is none, or goes in the
stricter direction. -/
theorem atLeastAsStrict_of_difference (orderly : settings.registry.Orderly) {earlier later : Json}
    (fits : settings.registry.Fits field earlier) (fits' : settings.registry.Fits field later)
    (notLooser : settings.difference field earlier later ≠ some .looser)
    (compatible : settings.difference field earlier later ≠ some .incompatible) :
    settings.registry.AtLeastAsStrict field earlier later := by
  cases same : settings.sameCanonical field earlier later with
  | true => exact atLeastAsStrict_of_sameCanonical orderly fits fits' same
  | false =>
      simp only [difference, same, Bool.false_eq_true, if_false] at notLooser compatible
      cases found : settings.registry.directive? field with
      | none =>
          -- without a directive every other difference is looser or incompatible
          rw [found, ConflictClassification.classify] at notLooser compatible
          cases shape : earlier.sameShape later with
          | false => simp [shape] at compatible
          | true =>
              cases equal : earlier.same later with
              | false => simp [shape, equal] at notLooser
              | true =>
                  rw [(Json.same_iff fits.1).mp equal]
                  exact FieldRegistry.atLeastAsStrict_self orderly fits'
      | some directive =>
          have coherent := orderly.coherent _ _ found
          have accepted := fits.2 directive found
          have accepted' := fits'.2 directive found
          simp only [found, ConflictClassification.classify, accepted, accepted', Bool.and_self,
            Bool.not_true, Bool.false_eq_true, if_false] at notLooser
          rw [FieldRegistry.AtLeastAsStrict, found]
          have grades := FieldDirective.grades_ofKind coherent fits.1 fits'.1 accepted accepted'
          exact grades.of_ne_looser notLooser

end InheritanceSettings

end Governance
