import Governance.Policy.Basic
import Governance.Proofs.Condition.Record
import Governance.Proofs.Evidence.BundleId
import Governance.Rule.Basic
import Governance.Scope.Basic

/-!
# Records that have been read

Every value that is read as a record is read again, as the same record, from what is written for it.
This holds for values in any accepted shape, and for what is written both as it stands and with its
members in order.
-/

set_option autoImplicit false

namespace Governance

namespace Wire

variable {α : Type}

/-- Whether everything that is read is read again from what is written for it, as it is written and
put in order. -/
def ReadsBack (read : Json → Decoded α) (write : α → Json) : Prop :=
  ∀ found value, read found = .ok value →
    read (write value) = .ok value ∧ read (write value).normalized = .ok value

theorem Unordered.readsBack {read : Json → Decoded α} {write : α → Json}
    (unordered : Unordered read)
    (back : ∀ found value, read found = .ok value → read (write value) = .ok value) :
    ReadsBack read write :=
  fun found value done =>
    ⟨back found value done, unordered (write value) value (back found value done)⟩

theorem text_str (value : String) : text (.str value) = .ok value := rfl

theorem flag_bool (value : Bool) : flag (.bool value) = .ok value := rfl

theorem int64_toInt (value : Int64) : int64 (.int value.toInt) = .ok value := by
  have bounded : Int64.minValue.toInt ≤ value.toInt ∧ value.toInt ≤ Int64.maxValue.toInt :=
    ⟨value.minValue_le_toInt, value.toInt_le⟩
  rw [int64, if_pos bounded, Int64.ofInt_toInt]

theorem bundleId_uuidText (id : BundleId) : BundleId.ofJson (.str id.uuidText) = .ok id := by
  rw [BundleId.ofJson, BundleId.parse?_uuidText]

theorem list_arr {read : Json → Decoded α} {write : α → Json} {values : List α}
    (each : ∀ value ∈ values, read (write value) = .ok value) :
    list read (.arr (values.map write)) = .ok values :=
  items_of_forall₂ (List.forall₂_map_left_iff.mpr (List.forall₂_same.mpr each))

theorem list_texts (texts : List String) : list text (.arr (texts.map .str)) = .ok texts :=
  list_arr fun _ _ => rfl

end Wire

open Wire

/-! ## Decisions, rules and verdicts -/

namespace DecisionStatus

theorem named_name (status : DecisionStatus) : named (.str (Named.name status)) = .ok status :=
  Wire.named_name (by cases status <;> decide)

end DecisionStatus

namespace Decision

theorem unordered_ofJson : Unordered ofJson :=
  unordered_record (.seq (.map (unordered_named.fieldOr none 0 "status") Decision.mk)
    (unordered_text.fieldOr none 1 "reason"))

theorem ofJson_toJson (decision : Decision) : ofJson decision.toJson = .ok decision := by
  refine record_of_result (result_seq (result_map ?_) ?_)
  · exact Given.fieldOr_of_valuesAt (by simp) decision.status.named_name
  · exact Given.fieldOr_of_valuesAt (by simp) (text_str decision.reason)

end Decision

namespace PolicyRule

theorem unordered_ofJson : Unordered ofJson :=
  unordered_record (.seq (.seq (.seq (.seq (.map
    ((unordered_identifier .rule).fieldOr none 0 "id") PolicyRule.mk)
    (unordered_int64.fieldOr none 1 "priority"))
    (unordered_flag.fieldOr (some true) 2 "active"))
    (Condition.unordered_ofJson.fieldOr none 3 "condition"))
    (Decision.unordered_ofJson.fieldOr none 4 "decision"))

theorem ofJson_toJson {rule : PolicyRule} (legible : rule.condition.Legible) :
    ofJson rule.toJson = .ok rule := by
  refine record_of_result
    (result_seq (result_seq (result_seq (result_seq (result_map ?_) ?_) ?_) ?_) ?_)
  · exact Given.fieldOr_of_valuesAt (by simp) (identifier_text rule.id)
  · exact Given.fieldOr_of_valuesAt (by simp) (int64_toInt rule.priority)
  · exact Given.fieldOr_of_valuesAt (by simp) (flag_bool rule.active)
  · exact Given.fieldOr_of_valuesAt (by simp) (Condition.ofJson_toJson_of_legible legible)
  · exact Given.fieldOr_of_valuesAt (by simp) rule.decision.ofJson_toJson

theorem legible_of_ofJson {found : Json} {rule : PolicyRule} (done : ofJson found = .ok rule) :
    rule.condition.Legible := by
  obtain ⟨given, fields⟩ := record_eq_ok done
  obtain ⟨_, decision, toCondition, _, rfl⟩ := result_seq_eq_ok fields
  obtain ⟨_, condition, toActive, read, rfl⟩ := result_seq_eq_ok toCondition
  obtain ⟨_, active, toPriority, _, rfl⟩ := result_seq_eq_ok toActive
  obtain ⟨_, priority, toId, _, rfl⟩ := result_seq_eq_ok toPriority
  obtain ⟨id, _, rfl⟩ := result_map_eq_ok toId
  exact Given.holds_of_fieldOr read nofun fun _ _ _ => Condition.legible_of_ofJson

theorem readsBack : ReadsBack ofJson toJson :=
  unordered_ofJson.readsBack fun _ _ done => ofJson_toJson (legible_of_ofJson done)

end PolicyRule

namespace Verdict

theorem unordered_ofJson : Unordered ofJson :=
  unordered_record (.seq (.seq (.seq (.map
    (unordered_named.fieldOr none 0 "status") Verdict.mk)
    (unordered_text.fieldOr none 1 "reason"))
    ((unordered_optional (unordered_identifier .rule)).fieldOr (some none) 2 "rule_id"))
    ((unordered_identifier .policySnapshot).fieldOr none 3 "policy_snapshot_id"))

theorem ofJson_toJson (verdict : Verdict) : ofJson verdict.toJson = .ok verdict := by
  refine record_of_result (result_seq (result_seq (result_seq (result_map ?_) ?_) ?_) ?_)
  · exact Given.fieldOr_of_valuesAt (by simp) verdict.status.named_name
  · exact Given.fieldOr_of_valuesAt (by simp) (text_str verdict.reason)
  · exact Given.optionalField_of_valuesAt (fun id => .str id.text) (by simp) fun id _ =>
      ⟨by simp, identifier_text id⟩
  · exact Given.fieldOr_of_valuesAt (by simp) (identifier_text verdict.snapshot)

end Verdict

/-! ## Events -/

namespace Actor

theorem unordered_ofJson : Unordered ofJson :=
  unordered_record (.map (unordered_text.fieldOr none 0 "role") Actor.mk)

theorem ofJson_toJson (actor : Actor) : ofJson actor.toJson = .ok actor := by
  refine record_of_result (result_map ?_)
  exact Given.fieldOr_of_valuesAt (by simp) (text_str actor.role)

end Actor

namespace Tool

theorem unordered_ofJson : Unordered ofJson :=
  unordered_record (.seq (.seq (.map
    (unordered_text.fieldOr none 0 "id") Tool.mk)
    (unordered_text.fieldOr none 1 "name"))
    (unordered_text.fieldOr none 2 "version"))

theorem ofJson_toJson (tool : Tool) : ofJson tool.toJson = .ok tool := by
  refine record_of_result (result_seq (result_seq (result_map ?_) ?_) ?_)
  · exact Given.fieldOr_of_valuesAt (by simp) (text_str tool.id)
  · exact Given.fieldOr_of_valuesAt (by simp) (text_str tool.name)
  · exact Given.fieldOr_of_valuesAt (by simp) (text_str tool.version)

end Tool

namespace Action

theorem unordered_ofJson : Unordered ofJson :=
  unordered_record (.map (unordered_named.fieldOr none 0 "kind") Action.mk)

theorem ofJson_toJson (action : Action) : ofJson action.toJson = .ok action := by
  have kind : named (.str (Named.name action.kind)) = .ok action.kind :=
    named_name (by cases action.kind <;> decide)
  refine record_of_result (result_map ?_)
  exact Given.fieldOr_of_valuesAt (by simp) kind

end Action

namespace UsageContext

theorem unordered_ofJson : Unordered ofJson :=
  unordered_record (.seq (.seq (.seq (.seq (.seq (.map
    ((unordered_identifier .tenant).fieldOr none 0 "tenant_id") UsageContext.mk)
    ((unordered_identifier .enterprise).fieldOr none 1 "enterprise_id"))
    ((unordered_optional unordered_text).fieldOr (some none) 2 "brand"))
    ((unordered_optional unordered_text).fieldOr (some none) 3 "region"))
    ((unordered_optional unordered_text).fieldOr (some none) 4 "channel"))
    ((unordered_identifier .policySnapshot).fieldOr none 5 "policy_snapshot_id"))

theorem ofJson_toJson (context : UsageContext) : ofJson context.toJson = .ok context := by
  refine record_of_result
    (result_seq (result_seq (result_seq (result_seq (result_seq (result_map ?_) ?_) ?_) ?_) ?_) ?_)
  · exact Given.fieldOr_of_valuesAt (by simp) (identifier_text context.tenant)
  · exact Given.fieldOr_of_valuesAt (by simp) (identifier_text context.enterprise)
  · exact Given.optionalField_of_valuesAt .str (by simp) fun text _ => ⟨by simp, text_str text⟩
  · exact Given.optionalField_of_valuesAt .str (by simp) fun text _ => ⟨by simp, text_str text⟩
  · exact Given.optionalField_of_valuesAt .str (by simp) fun text _ => ⟨by simp, text_str text⟩
  · exact Given.fieldOr_of_valuesAt (by simp) (identifier_text context.snapshot)

end UsageContext

namespace UsageContent

theorem unordered_ofJson : Unordered ofJson :=
  unordered_record (.seq (.seq (.map
    ((unordered_optional unordered_text).fieldOr (some none) 0 "prompt") UsageContent.mk)
    ((unordered_optional unordered_text).fieldOr (some none) 1 "output_text"))
    ((unordered_list unordered_text).fieldOr (some []) 2 "asset_uris"))

theorem ofJson_toJson (content : UsageContent) : ofJson content.toJson = .ok content := by
  refine record_of_result (result_seq (result_seq (result_map ?_) ?_) ?_)
  · exact Given.optionalField_of_valuesAt .str (by simp) fun text _ => ⟨by simp, text_str text⟩
  · exact Given.optionalField_of_valuesAt .str (by simp) fun text _ => ⟨by simp, text_str text⟩
  · by_cases noAssets : content.assets = []
    · exact Given.fieldOr_eq_ok_iff.mpr (.inl ⟨by simp [noAssets], by rw [noAssets]⟩)
    · exact Given.fieldOr_of_valuesAt (by simp [noAssets]) (list_texts content.assets)

end UsageContent

namespace UsageEvent

theorem unordered_ofJson : Unordered ofJson :=
  unordered_record (.seq (.seq (.seq (.seq (.map
    (Actor.unordered_ofJson.fieldOr none 0 "actor") UsageEvent.mk)
    (Tool.unordered_ofJson.fieldOr none 1 "tool"))
    (Action.unordered_ofJson.fieldOr none 2 "action"))
    (UsageContext.unordered_ofJson.fieldOr none 3 "context"))
    ((unordered_optional UsageContent.unordered_ofJson).fieldOr (some none) 4 "content"))

theorem ofJson_toJson (event : UsageEvent) : ofJson event.toJson = .ok event := by
  refine record_of_result
    (result_seq (result_seq (result_seq (result_seq (result_map ?_) ?_) ?_) ?_) ?_)
  · exact Given.fieldOr_of_valuesAt (by simp) event.actor.ofJson_toJson
  · exact Given.fieldOr_of_valuesAt (by simp) event.tool.ofJson_toJson
  · exact Given.fieldOr_of_valuesAt (by simp) event.action.ofJson_toJson
  · exact Given.fieldOr_of_valuesAt (by simp) event.context.ofJson_toJson
  · exact Given.optionalField_of_valuesAt UsageContent.toJson (by simp) fun content _ =>
      ⟨by simp [UsageContent.toJson], content.ofJson_toJson⟩

end UsageEvent

/-! ## Scopes and policies -/

namespace Scope

theorem unordered_ofJson : Unordered ofJson :=
  unordered_record (.seq (.seq (.seq (.map
    ((unordered_identifier .scope).fieldOr none 0 "id") Scope.mk)
    (unordered_named.fieldOr none 1 "scope_type"))
    ((unordered_optional (unordered_identifier .scope)).fieldOr (some none) 2 "parent_id"))
    (unordered_text.fieldOr (some "") 3 "path"))

theorem ofJson_toJson (scope : Scope) : ofJson scope.toJson = .ok scope := by
  have type : named (.str (Named.name scope.type)) = .ok scope.type :=
    named_name (by cases scope.type <;> decide)
  refine record_of_result (result_seq (result_seq (result_seq (result_map ?_) ?_) ?_) ?_)
  · exact Given.fieldOr_of_valuesAt (by simp) (identifier_text scope.id)
  · exact Given.fieldOr_of_valuesAt (by simp) type
  · exact Given.optionalField_of_valuesAt (fun id => .str id.text) (by simp) fun id _ =>
      ⟨by simp, identifier_text id⟩
  · exact Given.fieldOr_of_valuesAt (by simp) (text_str scope.location)

end Scope

namespace ScopedPolicy

theorem unordered_ofJson : Unordered ofJson :=
  unordered_record (.seq (.seq (.seq (.seq (.seq (.map
    ((unordered_identifier .policy).fieldOr none 0 "policy_id") ScopedPolicy.mk)
    ((unordered_identifier .scope).fieldOr none 1 "scope_id"))
    (unordered_named.fieldOr (some InheritanceMode.merge) 2 "inheritance_mode"))
    (unordered_value.fieldOr none 3 "rules"))
    ((unordered_optional unordered_value).fieldOr (some none) 4 "override_rules"))
    ((unordered_optional (unordered_identifier .policy)).fieldOr (some none) 5 "parent_policy_id"))

theorem ofJson_toJson {policy : ScopedPolicy} (rules : policy.rules.IsOrdered)
    (overrides : ∀ value, policy.overrides = some value → value ≠ .null ∧ value.IsOrdered) :
    ofJson policy.toJson = .ok policy := by
  have mode : named (.str (Named.name policy.mode)) = .ok policy.mode :=
    named_name (by cases policy.mode <;> decide)
  refine record_of_result
    (result_seq (result_seq (result_seq (result_seq (result_seq (result_map ?_) ?_) ?_) ?_) ?_) ?_)
  · exact Given.fieldOr_of_valuesAt (by simp) (identifier_text policy.id)
  · exact Given.fieldOr_of_valuesAt (by simp) (identifier_text policy.scope)
  · exact Given.fieldOr_of_valuesAt (by simp) mode
  · exact Given.fieldOr_of_valuesAt (by simp) (congrArg Except.ok rules)
  · refine Given.optionalField_of_valuesAt (fun value => value) (by simp) fun value set => ?_
    exact ⟨(overrides value set).1, congrArg Except.ok (overrides value set).2⟩
  · exact Given.optionalField_of_valuesAt (fun id => .str id.text) (by simp) fun id _ =>
      ⟨by simp, identifier_text id⟩

theorem isOrdered_of_ofJson {found : Json} {policy : ScopedPolicy}
    (done : ofJson found = .ok policy) :
    policy.rules.IsOrdered ∧
      ∀ value, policy.overrides = some value → value ≠ .null ∧ value.IsOrdered := by
  obtain ⟨given, fields⟩ := record_eq_ok done
  obtain ⟨_, derivedFrom, toOverrides, _, rfl⟩ := result_seq_eq_ok fields
  obtain ⟨_, overrides, toRules, overridesRead, rfl⟩ := result_seq_eq_ok toOverrides
  obtain ⟨_, rules, toMode, rulesRead, rfl⟩ := result_seq_eq_ok toRules
  obtain ⟨_, mode, toScope, _, rfl⟩ := result_seq_eq_ok toMode
  obtain ⟨_, scope, toId, _, rfl⟩ := result_seq_eq_ok toScope
  obtain ⟨id, _, rfl⟩ := result_map_eq_ok toId
  have rulesOrdered : rules.IsOrdered :=
    Given.holds_of_fieldOr rulesRead nofun fun _ _ _ => isOrdered_of_value
  refine ⟨rulesOrdered, fun value set => ?_⟩
  cases set
  rcases Given.fieldOr_eq_ok_iff.mp overridesRead with ⟨_, absent⟩ | ⟨written, _, result⟩
  · cases absent
  · obtain ⟨proper, read⟩ := optional_eq_ok result
    cases read
    exact ⟨fun null => proper (Json.normalized_eq_null_iff.mp null), written.isOrdered_normalized⟩

theorem readsBack : ReadsBack ofJson toJson :=
  unordered_ofJson.readsBack fun _ _ done =>
    ofJson_toJson (isOrdered_of_ofJson done).1 (isOrdered_of_ofJson done).2

end ScopedPolicy

/-! ## Bundles -/

namespace EvidenceItem

theorem unordered_ofJson : Unordered ofJson :=
  unordered_record (.seq (.map
    (unordered_text.fieldOr none 0 "key") EvidenceItem.mk)
    (unordered_value.fieldOr none 1 "value"))

theorem ofJson_toJson {item : EvidenceItem} (ordered : item.value.IsOrdered) :
    ofJson item.toJson = .ok item := by
  refine record_of_result (result_seq (result_map ?_) ?_)
  · exact Given.fieldOr_of_valuesAt (by simp) (text_str item.key)
  · exact Given.fieldOr_of_valuesAt (by simp) (congrArg Except.ok ordered)

theorem isOrdered_of_ofJson {found : Json} {item : EvidenceItem} (done : ofJson found = .ok item) :
    item.value.IsOrdered := by
  obtain ⟨given, fields⟩ := record_eq_ok done
  obtain ⟨_, value, toKey, read, rfl⟩ := result_seq_eq_ok fields
  obtain ⟨key, _, rfl⟩ := result_map_eq_ok toKey
  exact Given.holds_of_fieldOr read nofun fun _ _ _ => isOrdered_of_value

end EvidenceItem

namespace ProofBundle

theorem unordered_ofJson : Unordered ofJson :=
  unordered_record (.seq (.seq (.seq (.seq (.map
    (unordered_bundleId.fieldOr none 0 "bundle_id") ProofBundle.mk)
    ((unordered_identifier .tenant).fieldOr none 1 "tenant_id"))
    ((unordered_identifier .policySnapshot).fieldOr none 2 "policy_snapshot_id"))
    ((unordered_list EvidenceItem.unordered_ofJson).fieldOr none 3 "items"))
    (unordered_digest.fieldOr none 4 "integrity_hash"))

theorem ofJson_toJson {bundle : ProofBundle}
    (ordered : ∀ item ∈ bundle.items, item.value.IsOrdered) :
    ofJson bundle.toJson = .ok bundle := by
  refine record_of_result
    (result_seq (result_seq (result_seq (result_seq (result_map ?_) ?_) ?_) ?_) ?_)
  · exact Given.fieldOr_of_valuesAt (by simp) (bundleId_uuidText bundle.id)
  · exact Given.fieldOr_of_valuesAt (by simp) (identifier_text bundle.tenant)
  · exact Given.fieldOr_of_valuesAt (by simp) (identifier_text bundle.snapshot)
  · exact Given.fieldOr_of_valuesAt (by simp)
      (list_arr fun item listed => EvidenceItem.ofJson_toJson (ordered item listed))
  · exact Given.fieldOr_of_valuesAt (by simp) (digest_display bundle.integrityHash)

theorem isOrdered_of_ofJson {found : Json} {bundle : ProofBundle}
    (done : ofJson found = .ok bundle) : ∀ item ∈ bundle.items, item.value.IsOrdered := by
  obtain ⟨given, fields⟩ := record_eq_ok done
  obtain ⟨_, hash, toItems, _, rfl⟩ := result_seq_eq_ok fields
  obtain ⟨_, items, toSnapshot, read, rfl⟩ := result_seq_eq_ok toItems
  obtain ⟨_, snapshot, toTenant, _, rfl⟩ := result_seq_eq_ok toSnapshot
  obtain ⟨_, tenant, toId, _, rfl⟩ := result_seq_eq_ok toTenant
  obtain ⟨id, _, rfl⟩ := result_map_eq_ok toId
  intro item listed
  rcases Given.fieldOr_eq_ok_iff.mp read with ⟨_, absent⟩ | ⟨written, _, result⟩
  · cases absent
  · obtain ⟨source, read⟩ := exists_of_list_eq_ok result listed
    exact EvidenceItem.isOrdered_of_ofJson read

theorem readsBack : ReadsBack ofJson toJson :=
  unordered_ofJson.readsBack fun _ _ done => ofJson_toJson (isOrdered_of_ofJson done)

end ProofBundle

/-! ## All records -/

/-- Rules, events, verdicts, scopes, policies and bundles that have been read, in any accepted
shape, are read again from what is written for them. -/
theorem records_readBack :
    ReadsBack PolicyRule.ofJson PolicyRule.toJson ∧
      ReadsBack UsageEvent.ofJson UsageEvent.toJson ∧
      ReadsBack Verdict.ofJson Verdict.toJson ∧
      ReadsBack Scope.ofJson Scope.toJson ∧
      ReadsBack ScopedPolicy.ofJson ScopedPolicy.toJson ∧
      ReadsBack ProofBundle.ofJson ProofBundle.toJson :=
  ⟨PolicyRule.readsBack,
    UsageEvent.unordered_ofJson.readsBack fun _ event _ => event.ofJson_toJson,
    Verdict.unordered_ofJson.readsBack fun _ verdict _ => verdict.ofJson_toJson,
    Scope.unordered_ofJson.readsBack fun _ scope _ => scope.ofJson_toJson,
    ScopedPolicy.readsBack, ProofBundle.readsBack⟩

/-- A rule as an array of its fields. Its comparison has its tag by place, a position between dots,
an operator that is not known and an operand that is not in order. -/
def listedRule : Json :=
  .arr [.str "assets", .int 10, .bool true,
    .arr [.str "and", .arr [.arr [.int 0, .str "content.asset_uris.007",
      .obj [("starts_with", .obj [])], .obj [("b", .int 1), ("a", .int 2)]]]],
    .arr [.str "requires_review", .str "assets are reviewed"]]

def assetRule : PolicyRule where
  id := ⟨"assets", by decide⟩
  priority := 10
  active := true
  condition := .all [.leaf ⟨[.key "content", .key "asset_uris", .index 7]⟩ .unsupported
    (.obj [("a", .int 2), ("b", .int 1)])]
  decision := ⟨.requiresReview, "assets are reviewed"⟩

theorem records_readBack_listedRule :
    PolicyRule.ofJson listedRule = .ok assetRule ∧ assetRule.toJson ≠ listedRule ∧
      PolicyRule.ofJson assetRule.toJson = .ok assetRule := by
  have read : PolicyRule.ofJson listedRule = .ok assetRule := by decide +kernel
  exact ⟨read, by decide +kernel, (records_readBack.1 listedRule assetRule read).1⟩

end Governance
