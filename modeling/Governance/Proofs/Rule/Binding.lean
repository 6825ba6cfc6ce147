import Governance.Proofs.Canonical.Equivalence
import Governance.Proofs.Field.Orderly
import Governance.Proofs.Rule.Order

/-!
# What a digest says about a verdict

The rules of an effective policy are a set, so policies with the same canonical text may list them
in different orders. A rule that is recorded by the names of its fields is the same on both sides.
The array of a rule that is recorded by position is itself taken for a set, and only what it is
read as ties it to the other side.
-/

set_option autoImplicit false

namespace Governance

namespace EffectivePolicy

/-! ## The records of the rules -/

/-- The records of the decision rules. There are none where the field is absent; where it is
something other than an array there is no answer. -/
def ruleRecords? (policy : EffectivePolicy) : Option (List Json) :=
  match policy.values.member? decisionRulesField with
  | none => some []
  | some .null => some []
  | some (.arr items) => some items
  | some _ => none

def reading (record : Json) : Option PolicyRule := (PolicyRule.ofJson record).toOption

def readings (policy : EffectivePolicy) : List (Option PolicyRule) :=
  (policy.ruleRecords?.getD []).map reading

def positionalReadings (policy : EffectivePolicy) : List (Option PolicyRule) :=
  ((policy.ruleRecords?.getD []).filter Json.isArray).map reading

theorem map_ofJson_eq_ok_iff {items : List Json} {rules : List PolicyRule} :
    items.map PolicyRule.ofJson = rules.map .ok ↔ items.map reading = rules.map some := by
  induction items generalizing rules with
  | nil => cases rules <;> simp
  | cons item items ih =>
      cases rules with
      | nil => simp
      | cons rule rules =>
          rw [List.map_cons, List.map_cons, List.map_cons, List.map_cons, List.cons.injEq,
            List.cons.injEq, ih, reading]
          refine and_congr_left fun _ => ?_
          cases PolicyRule.ofJson item <;> simp [Except.toOption]

theorem decisionRules_eq_ok_iff {policy : EffectivePolicy} {rules : List PolicyRule} :
    policy.decisionRules = .ok rules ↔
      policy.ruleRecords?.isSome = true ∧ policy.readings = rules.map some ∧
        (rules.map PolicyRule.id).Nodup := by
  unfold decisionRules readings ruleRecords?
  cases policy.values.member? decisionRulesField with
  | none => cases rules <;> simp
  | some records =>
      cases records with
      | null => cases rules <;> simp
      | arr items =>
          simp only [Option.getD_some, Option.isSome_some, true_and]
          rw [← map_ofJson_eq_ok_iff, ← @PolicyRule.readFrom_eq_ok_iff 0]
          cases PolicyRule.readFrom 0 items with
          | error problem => simp
          | ok listed =>
              have fresh := @PolicyRule.firstRepeated?_eq_none_iff [] listed
              cases repeated : PolicyRule.firstRepeated? [] listed with
              | none =>
                  rw [repeated] at fresh
                  have distinct := (fresh.mp rfl).2
                  simp only [repeated, Except.ok.injEq]
                  exact ⟨fun same => ⟨same, same ▸ distinct⟩, fun both => both.1⟩
              | some id =>
                  rw [repeated] at fresh
                  simp only [repeated, reduceCtorEq, Except.ok.injEq, false_iff]
                  intro both
                  obtain ⟨rfl, distinct⟩ := both
                  exact absurd (fresh.mpr ⟨fun _ _ => List.not_mem_nil, distinct⟩) (by simp)
      | bool | int | float | str | obj => simp

/-- Policies whose rules are read alike, in any order, have the same verdicts. -/
theorem resolve_of_readings_perm {left right : EffectivePolicy} {event : UsageEvent}
    {verdict : Verdict} (sameShape : left.ruleRecords?.isSome = right.ruleRecords?.isSome)
    (perm : left.readings.Perm right.readings) (resolved : left.resolve event = .ok verdict) :
    right.resolve event = .ok verdict := by
  rw [resolve] at resolved ⊢
  cases read : left.decisionRules with
  | error problem => simp [read, Except.map] at resolved
  | ok rules =>
      obtain ⟨present, readAs, distinct⟩ := decisionRules_eq_ok_iff.mp read
      -- the readings on the other side are those of a rearrangement of the rules
      obtain ⟨others, rulesPerm, readAs'⟩ : ∃ others : List PolicyRule,
          rules.Perm others ∧ right.readings = others.map some := by
        have rearranged : right.readings.Perm (rules.map some) := readAs ▸ perm.symm
        have composed := congrFun (congrFun (List.eq_map_comp_perm some) right.readings) rules
        obtain ⟨others, same, perm⟩ := composed.mpr rearranged
        exact ⟨others, perm.symm, same⟩
      have read' : right.decisionRules = .ok others :=
        decisionRules_eq_ok_iff.mpr ⟨sameShape ▸ present, readAs',
          (rulesPerm.map PolicyRule.id).nodup_iff.mp distinct⟩
      rw [read, Except.map] at resolved
      rw [read', Except.map, ← UsageEvent.resolve_eq_of_perm event rulesPerm distinct]
      exact resolved

/-! ## Records of policies with the same canonical text -/

theorem isOrderless_below_decisionRules (name : String) (more : List String) :
    FieldRegistry.standard.isOrderless (decisionRulesField :: name :: more) = false :=
  FieldRegistry.standard_orderly.ordered_below [decisionRulesField]
    (.set .objectArray .anyChangeIsLooser) (by decide) name more

/-- Records of rules that are the same to the registry are of one form, and equal unless they list
the fields of the rule by position. -/
theorem record_of_equivalent {record other : Json} (known : record.WellFormed)
    (known' : other.WellFormed)
    (equivalent : Canonical.Equivalent .standard [decisionRulesField] record other) :
    record.isArray = other.isArray ∧ (record.isArray = false → record = other) := by
  cases equivalent with
  | scalar => exact ⟨rfl, fun _ => rfl⟩
  | object sameKeys sameValues =>
      refine ⟨rfl, fun _ => congrArg _ (Canonical.members_eq_of_find? known known' sameKeys ?_)⟩
      intro key value other found found'
      exact Canonical.eq_of_equivalent (sameValues key value other found found')
        (fun more => isOrderless_below_decisionRules key more)
        ((Json.wellFormed_obj.mp known).2 _ (Entries.mem_of_find? found))
        ((Json.wellFormed_obj.mp known').2 _ (Entries.mem_of_find? found'))
  | set | sequence => exact ⟨rfl, fun named => nomatch named⟩

/-- Without the records by position, lists of records that are the same one by one are equal. -/
theorem filter_records_eq {records others : List Json}
    (related : List.Forall₂ (fun record other =>
      record.isArray = other.isArray ∧ (record.isArray = false → record = other)) records others) :
    records.filter (!·.isArray) = others.filter (!·.isArray) := by
  induction related with
  | nil => rfl
  | @cons record other records others both _ ih =>
      obtain ⟨sameForm, sameNamed⟩ := both
      cases form : record.isArray with
      | true => simp [form, ← sameForm, ih]
      | false => simp [← sameNamed form, form, ih]

theorem ruleRecords_of_equivalent {left right : EffectivePolicy} (known : left.values.WellFormed)
    (known' : right.values.WellFormed)
    (equivalent : Canonical.Equivalent .standard [] left.values right.values) :
    left.ruleRecords?.isSome = right.ruleRecords?.isSome ∧
      ((left.ruleRecords?.getD []).filter (!·.isArray)).Perm
        ((right.ruleRecords?.getD []).filter (!·.isArray)) := by
  rw [ruleRecords?, ruleRecords?]
  rcases equivalent.member? decisionRulesField with ⟨absent, absent'⟩ | ⟨field, field', found, found', same⟩
  · rw [absent, absent']
    exact ⟨rfl, .nil⟩
  · rw [found, found']
    cases same with
    | scalar => exact ⟨rfl, .refl _⟩
    | object => exact ⟨rfl, .nil⟩
    | sequence ordered => cases ordered
    | @set _ items others paired _ perm sameLength pairs =>
        have known_items := Json.wellFormed_arr.mp (Json.wellFormed_member? known found)
        have known_others := Json.wellFormed_arr.mp (Json.wellFormed_member? known' found')
        have related := List.forall₂_iff_zip.mpr ⟨sameLength, fun {record other} listed =>
          record_of_equivalent (known_items record (List.of_mem_zip listed).1)
            (known_others other (perm.mem_iff.mp (List.of_mem_zip listed).2))
            (pairs (record, other) listed)⟩
        refine ⟨rfl, ?_⟩
        rw [Option.getD_some, Option.getD_some, filter_records_eq related]
        exact perm.filter _

/-! ## Verdicts under one digest -/

theorem readings_perm (policy : EffectivePolicy) :
    policy.readings.Perm (policy.positionalReadings ++
      ((policy.ruleRecords?.getD []).filter (!·.isArray)).map reading) := by
  rw [readings, positionalReadings, ← List.map_append]
  exact ((List.filter_append_perm _ _).map _).symm

/-- Policies with the same canonical text carry the same rules exactly if their records by position
are read as the same rules, and then they have the same verdict on every event, or none. -/
theorem verdict_of_documentText_eq (left right : EffectivePolicy) (written : String)
    (known : left.values.WellFormed) (known' : right.values.WellFormed)
    (text : Canonical.documentText .standard left.values = .ok written)
    (text' : Canonical.documentText .standard right.values = .ok written) :
    (left.readings.Perm right.readings ↔ left.positionalReadings.Perm right.positionalReadings) ∧
      (left.positionalReadings.Perm right.positionalReadings → ∀ event : UsageEvent,
        (left.resolve event).toOption = (right.resolve event).toOption) := by
  have free := Canonical.floatFree_of_textAt text
  have free' := Canonical.floatFree_of_textAt text'
  have equivalent : Canonical.Equivalent .standard [] left.values right.values := by
    rw [Canonical.documentText, Canonical.textAt_eq free, Except.ok.injEq] at text
    rw [Canonical.documentText, Canonical.textAt_eq free', Except.ok.injEq] at text'
    exact (Canonical.text_arranged_eq_iff known known' free free').mp (text.trans text'.symm)
  obtain ⟨sameShape, namedPerm⟩ := ruleRecords_of_equivalent known known' equivalent
  have readings_iff :
      left.readings.Perm right.readings ↔ left.positionalReadings.Perm right.positionalReadings := by
    have rightPerm := right.readings_perm.trans ((namedPerm.map reading).symm.append_left _)
    rw [left.readings_perm.congr_left, rightPerm.congr_right, List.perm_append_right_iff]
  refine ⟨readings_iff, fun positionalPerm event => Option.ext fun verdict => ?_⟩
  have perm := readings_iff.mpr positionalPerm
  have resolved : ∀ {policy : EffectivePolicy},
      (policy.resolve event).toOption = some verdict ↔ policy.resolve event = .ok verdict := by
    intro policy
    cases policy.resolve event <;> simp [Except.toOption]
  rw [resolved, resolved]
  exact ⟨resolve_of_readings_perm sameShape perm, resolve_of_readings_perm sameShape.symm perm.symm⟩

/-! ### Two policies with one digest -/

def withRules (records : List Json) : EffectivePolicy :=
  let values := Json.obj [(decisionRulesField, .arr records)]
  { scope := ⟨"global", by decide⟩
    values
    provenance := {}
    contentHash :=
      .ofText (Canonical.text (Canonical.arranged .standard FieldPath.root.keys values))
    version := 1 }

def namedRecord (id reason : String) : Json :=
  .obj [("condition", .obj [("children", .arr []), ("type", .str "and")]),
    ("decision", .obj [("reason", .str reason), ("status", .str "block")]),
    ("id", .str id), ("priority", .int 1)]

def positionalRecord (decision : List Json) : Json :=
  .arr [.str "first", .int 1, .bool true, .obj [("children", .arr []), ("type", .str "and")],
    .arr decision]

theorem documentText_withRules {records others : List Json}
    (known : (withRules records).values.WellFormed) (known' : (withRules others).values.WellFormed)
    (free : (withRules records).values.floatFree = true)
    (free' : (withRules others).values.floatFree = true)
    (same : Canonical.Equivalent .standard [decisionRulesField] (.arr records) (.arr others)) :
    ∃ written, Canonical.documentText .standard (withRules records).values = .ok written ∧
      Canonical.documentText .standard (withRules others).values = .ok written := by
  refine ⟨_, Canonical.textAt_eq free, ?_⟩
  have sameText := (Canonical.text_arranged_eq_iff known known' free free').mpr
    (@Canonical.Equivalent.singleton _ FieldPath.root.keys _ _ _ same)
  rw [sameText]
  exact Canonical.textAt_eq free'

theorem verdict_of_listed_order : ∃ written,
    Canonical.documentText .standard
      (withRules [namedRecord "a" "first", namedRecord "b" "second"]).values = .ok written ∧
    Canonical.documentText .standard
      (withRules [namedRecord "b" "second", namedRecord "a" "first"]).values = .ok written ∧
    ∀ event : UsageEvent,
      ((withRules [namedRecord "a" "first", namedRecord "b" "second"]).resolve event).toOption
        = ((withRules [namedRecord "b" "second", namedRecord "a" "first"]).resolve event).toOption := by
  have same : Canonical.Equivalent .standard [decisionRulesField]
      (.arr [namedRecord "a" "first", namedRecord "b" "second"])
      (.arr [namedRecord "b" "second", namedRecord "a" "first"]) := by
    refine .set (by decide) (.swap (namedRecord "b" "second") (namedRecord "a" "first") []) rfl ?_
    simp only [List.zip_cons_cons, List.zip_nil_right, List.forall_mem_cons, List.not_mem_nil,
      false_implies, implies_true, and_true]
    exact ⟨.refl (by decide) rfl, .refl (by decide) rfl⟩
  obtain ⟨written, text, text'⟩ := documentText_withRules (by decide) (by decide) rfl rfl same
  exact ⟨written, text, text',
    (verdict_of_documentText_eq _ _ written (by decide) (by decide) text text').2 (.refl [])⟩

theorem resolve_positionalRecord (event : UsageEvent) {decision : List Json}
    {status : DecisionStatus} {reason : String}
    (read : (withRules [positionalRecord decision]).decisionRules = .ok
      [⟨⟨"first", by decide⟩, 1, true, .all [], ⟨status, reason⟩⟩]) :
    (withRules [positionalRecord decision]).resolve event
      = .ok ⟨status, reason, some ⟨"first", by decide⟩, event.context.snapshot⟩ := by
  rw [resolve, read, Except.map, UsageEvent.resolve, PolicyRule.inOrder]
  simp only [List.filter_cons_of_pos, List.filter_nil, List.mergeSort_singleton]
  rfl

/-- The digest alone does not decide the verdict: the parts of a decision that is recorded by
position are sorted in the canonical text but read as they stand. -/
theorem verdict_not_of_documentText_eq : ¬ ∀ (left right : EffectivePolicy) (written : String),
    left.values.WellFormed → right.values.WellFormed →
    Canonical.documentText .standard left.values = .ok written →
    Canonical.documentText .standard right.values = .ok written →
    ∀ event : UsageEvent, (left.resolve event).toOption = (right.resolve event).toOption := by
  intro bound
  have sameDecision : Canonical.Equivalent .standard [decisionRulesField]
      (.arr [.str "allow", .str "block"]) (.arr [.str "block", .str "allow"]) := by
    refine .set (by decide) (.swap (Json.str "block") (Json.str "allow") []) rfl ?_
    simp only [List.zip_cons_cons, List.zip_nil_right, List.forall_mem_cons, List.not_mem_nil,
      false_implies, implies_true, and_true]
    exact ⟨.scalar rfl, .scalar rfl⟩
  have sameRecord : Canonical.Equivalent .standard [decisionRulesField]
      (positionalRecord [.str "allow", .str "block"])
      (positionalRecord [.str "block", .str "allow"]) := by
    refine .set (by decide) (.refl _) rfl ?_
    simp only [List.zip_cons_cons, List.zip_nil_right, List.forall_mem_cons, List.not_mem_nil,
      false_implies, implies_true, and_true]
    exact ⟨.scalar rfl, .scalar rfl, .scalar rfl, .refl (by decide) rfl, sameDecision⟩
  have same : Canonical.Equivalent .standard [decisionRulesField]
      (.arr [positionalRecord [.str "allow", .str "block"]])
      (.arr [positionalRecord [.str "block", .str "allow"]]) := by
    refine .set (by decide) (.refl _) rfl ?_
    simpa using sameRecord
  obtain ⟨written, text, text'⟩ := documentText_withRules (by decide) (by decide) rfl rfl same
  have agree := bound _ _ written (by decide) (by decide) text text' .publication
  have allowed := @resolve_positionalRecord .publication [.str "allow", .str "block"] .allow "block"
    rfl
  have blocked := @resolve_positionalRecord .publication [.str "block", .str "allow"] .block "allow"
    rfl
  rw [allowed, blocked] at agree
  simp [Except.toOption] at agree

end EffectivePolicy

end Governance
