import Governance.Version.Basic
import Mathlib.Order.Defs.LinearOrder
import Mathlib.Order.Defs.Unbundled

/-!
# Precedence is an order

Precedence compares versions by one component after the other. Every component is ordered, so
precedence is; versions that differ only in their build metadata rank equal.
-/

set_option autoImplicit false

namespace Governance

namespace Version

open Std

/-- What parts of a pre-release are compared by: whether it is a label, its value and its text. -/
def PreReleasePart.rank : PreReleasePart → Bool × Nat × String
  | .numeric value => (false, value, "")
  | .label text _ => (true, 0, text)

theorem PreReleasePart.compare_eq : PreReleasePart.compare =
    compareLex (compareOn fun part => part.rank.1)
      (compareLex (compareOn fun part => part.rank.2.1) (compareOn fun part => part.rank.2.2)) := by
  funext left right
  cases left with
  | numeric value =>
      cases right with
      | numeric other => exact Ordering.then_eq.symm
      | label text valid => rfl
  | label text valid =>
      cases right with
      | numeric value => rfl
      | label other valid => rfl

instance : TransCmp PreReleasePart.compare := by
  rw [PreReleasePart.compare_eq]
  infer_instance

theorem compareParts_eq : compareParts = List.compareLex PreReleasePart.compare := by
  funext left right
  induction left generalizing right with
  | nil => cases right <;> rfl
  | cons part parts ih =>
      cases right with
      | nil => rfl
      | cons other others =>
          rw [compareParts, ih, List.compareLex]
          cases part.compare other <;> rfl

instance : TransCmp compareParts := by
  rw [compareParts_eq]
  infer_instance

theorem comparePreReleases_eq : comparePreReleases =
    compareLex (compareOn List.isEmpty) compareParts := by
  funext left right
  cases left <;> cases right <;> rfl

instance : TransCmp comparePreReleases := by
  rw [comparePreReleases_eq]
  infer_instance

instance : TransCmp fun left right : Version =>
    comparePreReleases left.preRelease right.preRelease where
  eq_swap {left right} :=
    @OrientedCmp.eq_swap _ comparePreReleases _ left.preRelease right.preRelease
  isLE_trans {first second third} := @TransCmp.isLE_trans _ comparePreReleases _
    first.preRelease second.preRelease third.preRelease

instance : TransCmp precedence :=
  inferInstanceAs (TransCmp (compareLex (compareOn fun version : Version => version.major.toNat)
    (compareLex (compareOn fun version : Version => version.minor.toNat)
      (compareLex (compareOn fun version : Version => version.patch.toNat)
        fun left right : Version =>
          comparePreReleases left.preRelease right.preRelease))))

theorem precedence_eq_of_incomparable {left right : Version}
    (below : left.precedence right ≠ .lt) (above : right.precedence left ≠ .lt) :
    left.precedence right = .eq := by
  cases compared : left.precedence right with
  | lt => exact absurd compared below
  | eq => rfl
  | gt => exact absurd (OrientedCmp.gt_iff_lt.mp compared) above

/-- Versions of equal rank are interchangeable in precedence. -/
theorem isStrictWeakOrder_precedence :
    IsStrictWeakOrder Version fun left right => left.precedence right = .lt where
  irrefl version below := by
    have equal : version.precedence version = .eq := ReflCmp.compare_self
    rw [equal] at below
    cases below
  trans _ _ _ := TransCmp.lt_trans
  incomp_trans first second third := by
    rintro ⟨below, above⟩ ⟨below', above'⟩
    have equal := TransCmp.eq_trans (precedence_eq_of_incomparable below above)
      (precedence_eq_of_incomparable below' above')
    have equal' := OrientedCmp.eq_symm equal
    rw [equal, equal']
    constructor <;> intro other <;> cases other

end Version

end Governance
