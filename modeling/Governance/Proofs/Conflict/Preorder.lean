import Governance.Proofs.Conflict.Strictness

/-!
# Classification as an order

To classify a change is to compare two values of a field by strictness. Whatever the directive, the
comparison is a preorder on the values that it accepts: a change goes unnoticed if each value is at
least as strict as the other, and is stricter if only the later one is. So changes compose, and a
change taken back is classified by the same order.
-/

set_option autoImplicit false

namespace Governance

/-- Whether a later value of a field restricts at least as much as an earlier one. Without a
directive only the same value does, and a direction without a meaning for the kind of the values
tells none of them apart. -/
inductive Restricts : Option FieldDirective → Json → Json → Prop where
  | unregistered {value : Json} : Restricts none value value
  | undirected {directive : FieldDirective} {earlier later : Json} :
      directive.isCoherent = false → directive.kind.accepts earlier = true →
      directive.kind.accepts later = true → Restricts (some directive) earlier later
  | directed {directive : FieldDirective} {earlier later : Json} :
      directive.isCoherent = true → directive.kind.accepts earlier = true →
      directive.kind.accepts later = true → directive.AtLeastAsStrict earlier later →
      Restricts (some directive) earlier later

namespace Restricts

variable {directive : FieldDirective} {registered : Option FieldDirective}
  {earlier later first second third : Json}

theorem accepts (restricts : Restricts (some directive) earlier later) :
    directive.kind.accepts earlier = true ∧ directive.kind.accepts later = true := by
  cases restricts with
  | undirected _ accepted accepted' | directed _ accepted accepted' _ =>
      exact ⟨accepted, accepted'⟩

theorem trans (step : Restricts registered first second)
    (step' : Restricts registered second third) : Restricts registered first third := by
  cases step with
  | unregistered => exact step'
  | undirected incoherent accepted _ => exact .undirected incoherent accepted step'.accepts.2
  | directed coherent accepted _ strict =>
      cases step' with
      | undirected incoherent => cases incoherent.symm.trans coherent
      | directed _ _ accepted' strict' =>
          exact .directed coherent accepted accepted'
            (FieldDirective.atLeastAsStrict_trans strict strict')

theorem refl (free : first.floatFree = true)
    (accepted : ∀ directive, registered = some directive → directive.kind.accepts first = true) :
    Restricts registered first first := by
  cases registered with
  | none => exact .unregistered
  | some directive =>
      have fits := accepted directive rfl
      cases coherent : directive.isCoherent with
      | false => exact .undirected coherent fits fits
      | true =>
          exact .directed coherent fits fits
            (FieldDirective.atLeastAsStrict_self coherent free fits)

theorem iff_atLeastAsStrict (coherent : directive.isCoherent = true)
    (accepted : directive.kind.accepts earlier = true)
    (accepted' : directive.kind.accepts later = true) :
    Restricts (some directive) earlier later ↔ directive.AtLeastAsStrict earlier later := by
  refine ⟨fun restricts => ?_, .directed coherent accepted accepted'⟩
  cases restricts with
  | undirected incoherent => cases incoherent.symm.trans coherent
  | directed _ _ _ strict => exact strict

end Restricts

namespace ConflictClassification

variable {directive : FieldDirective} {registered : Option FieldDirective}
  {earlier later first second third : Json}

theorem ofKind_of_incoherent (incoherent : directive.isCoherent = false)
    (free : earlier.floatFree = true) (free' : later.floatFree = true)
    (accepted : directive.kind.accepts earlier = true)
    (accepted' : directive.kind.accepts later = true) : ofKind directive earlier later = none := by
  obtain ⟨kind, ordering, merge, strictness⟩ := directive
  cases kind with
  | boolean =>
      obtain ⟨flag, rfl⟩ := ValueKind.exists_flag_of_accepts accepted
      obtain ⟨flag', rfl⟩ := ValueKind.exists_flag_of_accepts accepted'
      cases strictness with
      | trueIsStricter => cases incoherent
      | lowerIsStricter | higherIsStricter | moreIsStricter | fewerIsStricter
      | anyChangeIsLooser => rfl
  | number =>
      obtain ⟨number, rfl⟩ := ValueKind.exists_number_of_accepts free accepted
      obtain ⟨number', rfl⟩ := ValueKind.exists_number_of_accepts free' accepted'
      cases strictness with
      | lowerIsStricter | higherIsStricter => cases incoherent
      | trueIsStricter | moreIsStricter | fewerIsStricter | anyChangeIsLooser => rfl
  | stringArray | objectArray =>
      obtain ⟨items, rfl⟩ := ValueKind.exists_items_of_accepts rfl accepted
      obtain ⟨items', rfl⟩ := ValueKind.exists_items_of_accepts rfl accepted'
      cases strictness with
      | moreIsStricter | fewerIsStricter | anyChangeIsLooser => cases incoherent
      | trueIsStricter | lowerIsStricter | higherIsStricter => rfl

theorem grades_of_accepts (free : earlier.floatFree = true) (free' : later.floatFree = true)
    (accepted : directive.kind.accepts earlier = true)
    (accepted' : directive.kind.accepts later = true) :
    Grades (Restricts (some directive) earlier later) (Restricts (some directive) later earlier)
      (classify (some directive) earlier later) := by
  simp only [classify, accepted, accepted', Bool.and_self, Bool.not_true, Bool.false_eq_true,
    if_false]
  cases coherent : directive.isCoherent with
  | false =>
      rw [ofKind_of_incoherent coherent free free' accepted accepted']
      exact .unchanged (.undirected coherent accepted accepted')
        (.undirected coherent accepted' accepted)
  | true =>
      rw [Restricts.iff_atLeastAsStrict coherent accepted accepted',
        Restricts.iff_atLeastAsStrict coherent accepted' accepted]
      exact FieldDirective.grades_ofKind coherent free free' accepted accepted'

/-- Every change is classified by the order, or else its values cannot be compared in it. -/
theorem grades_or_incompatible (registered : Option FieldDirective)
    (free : earlier.floatFree = true) (free' : later.floatFree = true) :
    Grades (Restricts registered earlier later) (Restricts registered later earlier)
        (classify registered earlier later) ∨
      classify registered earlier later = some .incompatible ∧
        ¬ Restricts registered earlier later ∧ ¬ Restricts registered later earlier := by
  cases registered with
  | some directive =>
      by_cases fits : directive.kind.accepts earlier = true ∧ directive.kind.accepts later = true
      · exact .inl (grades_of_accepts free free' fits.1 fits.2)
      · refine .inr ⟨?_, fun restricts => fits restricts.accepts, fun restricts =>
          fits restricts.accepts.symm⟩
        rw [← Bool.and_eq_true, Bool.not_eq_true] at fits
        rw [classify, fits]
        rfl
  | none =>
      rw [classify]
      cases shape : earlier.sameShape later with
      | true =>
          cases same : earlier.same later with
          | true =>
              obtain rfl := (Json.same_iff free).mp same
              exact .inl (.unchanged .unregistered .unregistered)
          | false =>
              refine .inl (.looser fun restricts => ?_)
              cases restricts
              cases same.symm.trans ((Json.same_iff free).mpr rfl)
      | false =>
          have different : earlier ≠ later := by
            rintro rfl
            cases earlier <;> cases shape
          refine .inr ⟨rfl, fun restricts => ?_, fun restricts => ?_⟩
          · cases restricts
            exact different rfl
          · cases restricts
            exact different rfl

theorem classify_eq_none_iff (free : earlier.floatFree = true) (free' : later.floatFree = true) :
    classify registered earlier later = none ↔
      Restricts registered earlier later ∧ Restricts registered later earlier := by
  rcases grades_or_incompatible registered free free' with grades | ⟨refused, notKept, _⟩
  · exact grades.eq_none_iff
  · exact iff_of_false (fun unchanged => nomatch refused.symm.trans unchanged)
      fun both => notKept both.1

theorem classify_eq_stricter_iff (free : earlier.floatFree = true)
    (free' : later.floatFree = true) :
    classify registered earlier later = some .stricter ↔
      Restricts registered earlier later ∧ ¬ Restricts registered later earlier := by
  rcases grades_or_incompatible registered free free' with grades | ⟨refused, notKept, _⟩
  · exact grades.eq_stricter_iff
  · exact iff_of_false (fun stricter => nomatch refused.symm.trans stricter)
      fun both => notKept both.1

theorem restricts_iff_classify (free : earlier.floatFree = true)
    (free' : later.floatFree = true) :
    Restricts registered earlier later ↔ classify registered earlier later = none ∨
      classify registered earlier later = some .stricter := by
  rw [classify_eq_none_iff free free', classify_eq_stricter_iff free free', ← and_or_left]
  exact (and_iff_left (Classical.em _)).symm

theorem classify_eq_looser (free : earlier.floatFree = true) (free' : later.floatFree = true)
    (back : Restricts registered later earlier) (notKept : ¬ Restricts registered earlier later) :
    classify registered earlier later = some .looser := by
  rcases grades_or_incompatible registered free free' with grades | ⟨_, _, notBack⟩
  · exact grades.eq_looser_iff.mpr notKept
  · exact absurd back notBack

theorem classify_self {value : Json} (free : value.floatFree = true)
    (accepted : ∀ directive, registered = some directive → directive.kind.accepts value = true) :
    classify registered value value = none := by
  have self := Restricts.refl free accepted
  exact (classify_eq_none_iff free free).mpr ⟨self, self⟩

/-- Under every directive, and without one, a stricter change taken back is looser, changes that do
not loosen compose to such a change, a change goes unnoticed in both directions or in none, and a
value of the right kind does not differ from itself. -/
theorem classify_preorder (registered : Option FieldDirective) (first second third : Json)
    (free : first.floatFree = true) (free' : second.floatFree = true)
    (free'' : third.floatFree = true) :
    (classify registered first second = some .stricter →
      classify registered second first = some .looser) ∧
    (classify registered first second = none ∨ classify registered first second = some .stricter →
      classify registered second third = none ∨ classify registered second third = some .stricter →
      classify registered first third = none ∨ classify registered first third = some .stricter) ∧
    (classify registered first second = none ↔ classify registered second first = none) ∧
    ((∀ directive, registered = some directive → directive.kind.accepts first = true) →
      classify registered first first = none) := by
  refine ⟨fun stricter => ?_, fun step step' => ?_, ?_, classify_self free⟩
  · obtain ⟨kept, notBack⟩ := (classify_eq_stricter_iff free free').mp stricter
    exact classify_eq_looser free' free kept notBack
  · rw [← restricts_iff_classify free free'] at step
    rw [← restricts_iff_classify free' free''] at step'
    rw [← restricts_iff_classify free free'']
    exact step.trans step'
  · rw [classify_eq_none_iff free free', classify_eq_none_iff free' free, and_comm]

/-! ### Blocked actions -/

def blockList : FieldDirective := .set .stringArray .moreIsStricter

def actions (names : List String) : Json := .arr (names.map .str)

theorem classify_preorder_actions :
    classify blockList (actions ["export", "export"]) (actions ["export"]) = none ∧
      classify blockList (actions ["export"]) (actions ["share", "export"]) = some .stricter ∧
      (classify blockList (actions ["export", "export"]) (actions ["share", "export"]) = none ∨
        classify blockList (actions ["export", "export"]) (actions ["share", "export"])
          = some .stricter) ∧
      classify blockList (actions ["share", "export"]) (actions ["export"]) = some .looser ∧
      classify blockList (actions ["export", "export"]) (actions ["export", "export"]) = none := by
  have repeated : classify blockList (actions ["export", "export"]) (actions ["export"])
      = none := by
    decide
  have grown : classify blockList (actions ["export"]) (actions ["share", "export"])
      = some .stricter := by
    decide
  obtain ⟨_, composed, _, self⟩ := classify_preorder (some blockList)
    (actions ["export", "export"]) (actions ["export"]) (actions ["share", "export"]) (by decide)
    (by decide) (by decide)
  obtain ⟨takenBack, _⟩ := classify_preorder (some blockList) (actions ["export"])
    (actions ["share", "export"]) (actions ["export"]) (by decide) (by decide) (by decide)
  refine ⟨repeated, grown, composed (.inl repeated) (.inr grown), takenBack grown, self ?_⟩
  intro directive same
  cases same
  decide

end ConflictClassification

end Governance
