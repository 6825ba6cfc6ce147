import Governance.Condition.Evaluate
import Governance.Proofs.Version.Precedence
import Governance.Proofs.Version.Range
import Governance.Proofs.Version.Respelling
import Mathlib.Order.Defs.Unbundled

/-!
# The operators on versions

The operators on versions follow one order. It is precedence on the texts that are accepted, texts
that are alike stand for each other, and a range bounded by a version agrees with the comparison.
-/

set_option autoImplicit false

namespace Governance

namespace Version

open Std

/-! ## The operators on texts -/

def Accepted (text : String) : Prop := (parseLenient? text).isSome = true

def lessThan (field value : String) : Bool :=
  Operator.versionLessThan.holds (.str field) (.str value)

def greaterThan (field value : String) : Bool :=
  Operator.versionGreaterThan.holds (.str field) (.str value)

def inRange (field range : String) : Bool :=
  Operator.versionSatisfiesRange.holds (.str field) (.str range)

theorem version?_str (text : String) : Operator.version? (.str text) = parseLenient? text := by
  rw [Operator.version?, Json.text?, Option.bind_some]

theorem precedence_withBuild (build build' : List BuildPart) (left right : Version) :
    (withBuild build left).precedence (withBuild build' right) = left.precedence right := by
  unfold precedence withBuild
  rfl

theorem precedence?_eq (field value : String) :
    Operator.precedence? (.str field) (.str value) =
      (ranked? field).bind fun left => (ranked? value).map left.precedence := by
  simp only [Operator.precedence?, version?_str, ranked?, Option.bind_eq_bind]
  generalize parseLenient? field = left, parseLenient? value = right
  cases left with
  | none => rfl
  | some left =>
      cases right with
      | none => rfl
      | some right => simp only [Option.bind_some, Option.map_some, precedence_withBuild]

theorem precedence?_of_accepted {field value : String} {left right : Version}
    (read : parseLenient? field = some left) (read' : parseLenient? value = some right) :
    Operator.precedence? (.str field) (.str value) = some (left.precedence right) := by
  rw [precedence?_eq, ranked?, ranked?, read, read']
  rfl

theorem precedence?_of_not_accepted {field value : String}
    (refused : ¬ (Accepted field ∧ Accepted value)) :
    Operator.precedence? (.str field) (.str value) = none := by
  rw [precedence?_eq, ranked?, ranked?]
  unfold Accepted at refused
  cases left : parseLenient? field with
  | none => rfl
  | some version =>
      cases right : parseLenient? value with
      | none => rfl
      | some other =>
          rw [left, right] at refused
          exact absurd ⟨rfl, rfl⟩ refused

/-! ## One order -/

theorem lessThan_iff {field value : String} {left right : Version}
    (read : parseLenient? field = some left) (read' : parseLenient? value = some right) :
    lessThan field value = true ↔ left.precedence right = .lt := by
  change (Operator.precedence? _ _ == some .lt) = true ↔ _
  rw [precedence?_of_accepted read read', beq_iff_eq, Option.some.injEq]

theorem isStrictWeakOrder_lessThan : IsStrictWeakOrder {text : String // Accepted text}
    fun left right => lessThan left.1 right.1 = true := by
  let rank (text : {text : String // Accepted text}) : Version := (parseLenient? text.1).get text.2
  have ranks : ∀ left right : {text : String // Accepted text},
      lessThan left.1 right.1 = true ↔ (rank left).precedence (rank right) = .lt := fun _ _ =>
    lessThan_iff (Option.some_get _).symm (Option.some_get _).symm
  have order := isStrictWeakOrder_precedence
  simp only [ranks]
  exact
    { irrefl := fun text => order.irrefl (rank text)
      trans := fun first second third => order.trans (rank first) (rank second) (rank third)
      incomp_trans := fun first second third =>
        order.incomp_trans (rank first) (rank second) (rank third) }

/-- Lower and greater are each other's converse. -/
theorem greaterThan_eq_lessThan (field value : String) :
    greaterThan field value = lessThan value field := by
  by_cases accepted : Accepted field ∧ Accepted value
  · obtain ⟨left, read⟩ := Option.isSome_iff_exists.mp accepted.1
    obtain ⟨right, read'⟩ := Option.isSome_iff_exists.mp accepted.2
    apply Bool.eq_iff_iff.mpr
    rw [lessThan_iff read' read]
    change (Operator.precedence? _ _ == some .gt) = true ↔ _
    rw [precedence?_of_accepted read read', beq_iff_eq, Option.some.injEq]
    exact OrientedCmp.gt_iff_lt
  · change (Operator.precedence? _ _ == some .gt) = (Operator.precedence? _ _ == some .lt)
    rw [precedence?_of_not_accepted accepted,
      precedence?_of_not_accepted fun both => accepted both.symm]
    rfl

/-! ## Alike texts -/

theorem inRange_eq (field range : String) :
    inRange field range = (ranked? field).any fun version =>
      (Requirement.parse? range).any fun requirement => requirement.isSatisfiedBy version := by
  have bound : Operator.requirement? (.str range) = Requirement.parse? range := by
    rw [Operator.requirement?, Json.text?, Option.bind_some]
  unfold inRange Operator.holds
  simp only [version?_str, bound, ranked?, Option.any_map]
  cases parseLenient? field with
  | none => rfl
  | some version =>
      cases Requirement.parse? range with
      | none => rfl
      | some requirement => rfl

theorem accepted_iff_of_alike {text other : String} (alike : Alike text other) :
    Accepted text ↔ Accepted other := by
  have ranked := ranked?_of_alike alike
  have same := congrArg Option.isSome ranked
  rw [ranked?, ranked?, Option.isSome_map, Option.isSome_map] at same
  rw [Accepted, Accepted, same]

theorem comparisons_of_alike {text other : String} (alike : Alike text other) :
    (∀ value, lessThan text value = lessThan other value ∧
        greaterThan text value = greaterThan other value) ∧
      ∀ field, lessThan field text = lessThan field other ∧
        greaterThan field text = greaterThan field other := by
  unfold lessThan greaterThan Operator.holds
  simp only [precedence?_eq, ranked?_of_alike alike, and_self, implies_true]

/-! ## Ranges -/

theorem inRange_of_compares {bound : Bound} {sign : Char} {ordering : Ordering}
    (compares : bound.Compares sign ordering) {field : String} {version : Version}
    (read : parseLenient? field = some version) (release : version.preRelease = [])
    (limit : Version) :
    inRange field (String.singleton sign ++ limit.display) =
      (Operator.precedence? (.str field) (.str limit.display) == some ordering) := by
  rw [precedence?_of_accepted read (parseLenient?_display limit),
    ← Requirement.isSatisfiedBy_atVersion compares limit release, inRange_eq, ranked?, read,
    Requirement.parse?_of_compares compares]
  rfl

/-- The operators on versions follow one order. Lower is a strict weak order of the accepted texts and
greater is its converse; with any other text neither holds. Alike texts stand for each other on either
side. Of a text without a pre-release, a range with one version as its bound says what the comparison
with that version says. -/
theorem operators_coherent :
    IsStrictWeakOrder {text : String // Accepted text}
        (fun left right => lessThan left.1 right.1 = true) ∧
      (∀ field value : String, greaterThan field value = lessThan value field) ∧
      (∀ field value : String, ¬ (Accepted field ∧ Accepted value) →
        lessThan field value = false ∧ greaterThan field value = false) ∧
      (∀ text other : String, Alike text other →
        (Accepted text ↔ Accepted other) ∧
          (∀ value, lessThan text value = lessThan other value ∧
            greaterThan text value = greaterThan other value) ∧
          (∀ field, lessThan field text = lessThan field other ∧
            greaterThan field text = greaterThan field other) ∧
          ∀ range, inRange text range = inRange other range) ∧
      ∀ (field : String) (version release : Version),
        parseLenient? field = some version → version.preRelease = [] →
          inRange field ("<" ++ release.display) = lessThan field release.display ∧
            inRange field (">" ++ release.display) = greaterThan field release.display := by
  refine ⟨isStrictWeakOrder_lessThan, greaterThan_eq_lessThan, ?_, ?_, ?_⟩
  · intro field value refused
    unfold lessThan greaterThan Operator.holds
    dsimp only
    rw [precedence?_of_not_accepted refused]
    exact ⟨rfl, rfl⟩
  · intro text other alike
    obtain ⟨left, right⟩ := comparisons_of_alike alike
    refine ⟨accepted_iff_of_alike alike, left, right, fun range => ?_⟩
    rw [inRange_eq, inRange_eq, ranked?_of_alike alike]
  · intro field version release read bare
    exact ⟨inRange_of_compares .less read bare release,
      inRange_of_compares .greater read bare release⟩

/-- A letter in front, blanks, a missing zero and build metadata make no difference. -/
theorem operators_coherent_linux :
    Alike "v1.2" " 1.2.0+linux" ∧ parseLenient? "v1.2" = some ⟨1, 2, 0, [], []⟩ ∧
      lessThan " 1.2.0+linux" "1.10.0" = true ∧ greaterThan "1.10.0" " 1.2.0+linux" = true ∧
      ¬ Accepted "latest" ∧ lessThan "v1.2" "latest" = false ∧
      inRange "v1.2" "<1.10.0" = true ∧ inRange "v1.2" ">1.10.0" = false := by
  have read : parseLenient? "v1.2" = some ⟨1, 2, 0, [], []⟩ := by decide
  have alike : Alike "v1.2" " 1.2.0+linux" :=
    (alike_iff (by rw [read]; rfl) (by decide)).mpr (by decide)
  have below : lessThan "v1.2" "1.10.0" = true := by decide
  have notAbove : greaterThan "v1.2" "1.10.0" = false := by decide
  have refused : ¬ Accepted "latest" := by
    unfold Accepted
    decide
  obtain ⟨_, converse, closed, stand, ranges⟩ := operators_coherent
  obtain ⟨_, lower, _, _⟩ := stand _ _ alike
  have below' : lessThan " 1.2.0+linux" "1.10.0" = true := by rw [← (lower "1.10.0").1, below]
  obtain ⟨inside, outside⟩ := ranges "v1.2" _ ⟨1, 10, 0, [], []⟩ read rfl
  refine ⟨alike, read, below', by rw [converse, below'], refused,
    (closed _ _ fun both => refused both.2).1, inside.trans below, outside.trans notAbove⟩

end Version

end Governance
