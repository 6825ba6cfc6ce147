import Mathlib.Data.List.Find
import Governance.Proofs.Condition.Fields
import Governance.Proofs.Event.Document
import Governance.Proofs.Rule.Decision

/-!
# What the content of an event can decide

Conditions look into the whole record of an event, of which the free text and the assets are a
part. So a rule can decide by them, but only if it compares the content or something in it, or the
record as a whole. To all other rules, events that differ in their content are the same.
-/

set_option autoImplicit false

namespace Governance

namespace FieldPath

/-- Whether a field leads to the content of an event, to something in it, or to the whole event. -/
inductive ReadsContent : FieldPath → Prop where
  | event : ReadsContent .root
  | content : ReadsContent (.ofKeys ["content"])
  | prompt : ReadsContent (.ofKeys ["content", "prompt"])
  | output : ReadsContent (.ofKeys ["content", "output_text"])
  | assets : ReadsContent (.ofKeys ["content", "asset_uris"])
  | asset {position : UInt64} :
      ReadsContent ((FieldPath.ofKeys ["content", "asset_uris"]).index position)

theorem follow?_text (segment : Segment) (rest : List Segment) (text : String) :
    follow? (segment :: rest) (.str text) = none := by
  cases segment <;> rfl

theorem follow?_assets {rest : List Segment} (texts : List String)
    (blind : ¬ ReadsContent ⟨.key "content" :: .key "asset_uris" :: rest⟩) :
    follow? rest (.arr (texts.map .str)) = none := by
  cases rest with
  | nil => exact absurd .assets blind
  | cons segment rest =>
      cases segment with
      | key => rfl
      | index position =>
          cases rest with
          | nil => exact absurd .asset blind
          | cons next rest =>
              rw [follow?, List.getElem?_map]
              cases texts[position.toNat]? with
              | none => rfl
              | some text => exact follow?_text next rest text

/-- Only the fields of a content lead anywhere in it. -/
theorem follow?_content {rest : List Segment} (content : UsageContent)
    (blind : ¬ ReadsContent ⟨.key "content" :: rest⟩) :
    follow? rest content.toJson.normalized = none := by
  cases rest with
  | nil => exact absurd .content blind
  | cons segment rest =>
      cases segment with
      | index => rfl
      | key name =>
          have text : ∀ given : Option String, rest ≠ [] →
              (given.map Json.str).bind (follow? rest) = none := by
            intro given proper
            obtain ⟨next, rest, rfl⟩ := List.exists_cons_of_ne_nil proper
            cases given with
            | none => rfl
            | some text => exact follow?_text next rest text
          rw [follow?_key, UsageContent.member?_normalized]
          by_cases assets : "asset_uris" = name
          · subst assets
            cases content.assets.isEmpty with
            | true => rfl
            | false => exact follow?_assets content.assets blind
          · by_cases output : "output_text" = name
            · subst output
              have found := text content.outputText fun last => blind (last ▸ .output)
              cases given : content.outputText with
              | none => rfl
              | some written =>
                  rw [given] at found
                  exact found
            · by_cases prompt : "prompt" = name
              · subst prompt
                exact text content.prompt fun last => blind (last ▸ .prompt)
              · rw [if_neg assets, if_neg output, if_neg prompt]
                rfl

/-- No other field tells events apart that differ in their content. -/
theorem present?_eq_of_blind {field : FieldPath} (blind : ¬ field.ReadsContent) (event : UsageEvent)
    (content : Option UsageContent) :
    field.present? { event with content }.document = field.present? event.document := by
  have same : field.lookup? { event with content }.document = field.lookup? event.document := by
    obtain ⟨segments⟩ := field
    cases segments with
    | nil => exact absurd .event blind
    | cons segment rest =>
        cases segment with
        | index => rfl
        | key name =>
            rw [lookup?, lookup?, follow?_key, follow?_key]
            by_cases inside : name = "content"
            · subst inside
              have nothing : ∀ given : Option UsageContent,
                  (given.map fun content => content.toJson.normalized).bind (follow? rest) = none := by
                intro given
                cases given with
                | none => rfl
                | some content => exact follow?_content content blind
              rw [UsageEvent.member?_document_content, UsageEvent.member?_document_content,
                nothing, nothing]
            · rw [UsageEvent.member?_document_of_ne event content inside]
  rw [present?, present?, same]

end FieldPath

namespace UsageEvent

/-! ## Rules that read the content -/

def publicationWith (position : UInt64) : UsageEvent :=
  { publication with
    content := some ⟨some "text", some "text", List.replicate (position.toNat + 1) "text"⟩ }

theorem present?_publication {rest : List Segment} :
    FieldPath.present? ⟨.key "content" :: rest⟩ publication.document = none := by
  rw [FieldPath.present?, FieldPath.lookup?, FieldPath.follow?_key, member?_document_content]
  rfl

theorem present?_asset (position : UInt64) :
    ((FieldPath.ofKeys ["content", "asset_uris"]).index position).present?
      (publicationWith position).document = some (.str "text") := by
  have found : ((FieldPath.ofKeys ["content", "asset_uris"]).index position).lookup?
      (publicationWith position).document = some (.str "text") := by
    change FieldPath.follow? [.key "content", .key "asset_uris", .index position] _ = _
    rw [FieldPath.follow?_key, member?_document_content, publicationWith, Option.map_some,
      Option.bind_some, FieldPath.follow?_key, UsageContent.member?_normalized]
    simp [FieldPath.follow?]
  rw [FieldPath.present?, found]

def comparing (field : FieldPath) (value : Json) : PolicyRule :=
  ⟨⟨"rule", by decide⟩, 1, true, .leaf field .equals value, ⟨.block, "compared"⟩⟩

theorem applies_comparing (field : FieldPath) (value document : Json) :
    (comparing field value).applies document = (field.present? document).any (·.same value) := by
  rfl

/-- A rule on a field that reads the content holds on an event but not on the event without its
content. -/
theorem exists_comparing_of_readsContent {field : FieldPath} (reads : field.ReadsContent) :
    ∃ position value, (comparing field value).applies (publicationWith position).document = true ∧
      (comparing field value).applies publication.document = false := by
  have inside : ∀ (position : UInt64) (value : Json) {rest : List Segment}, value.floatFree = true →
      FieldPath.present? ⟨.key "content" :: rest⟩ (publicationWith position).document = some value →
      ∃ position value,
        (comparing ⟨.key "content" :: rest⟩ value).applies (publicationWith position).document = true ∧
          (comparing ⟨.key "content" :: rest⟩ value).applies publication.document = false := by
    intro position value rest free found
    refine ⟨position, value, ?_, ?_⟩
    · rw [applies_comparing, found]
      exact (Json.same_iff free).mpr rfl
    · rw [applies_comparing, present?_publication]
      rfl
  cases reads with
  | event => exact ⟨0, (publicationWith 0).document, by decide, by decide⟩
  | content =>
      refine inside 0 _ ?_ rfl
      decide
  | prompt => exact inside 0 (.str "text") rfl (by decide)
  | output => exact inside 0 (.str "text") rfl (by decide)
  | assets => exact inside 0 (.arr [.str "text"]) rfl (by decide)
  | @asset position => exact inside position (.str "text") rfl (present?_asset position)

/-! ## Verdicts and traces -/

theorem applies_eq_of_blind {rule : PolicyRule} (event : UsageEvent) (content : Option UsageContent)
    (blind : ∀ field, rule.condition.Compares field → ¬ field.ReadsContent) :
    rule.applies { event with content }.document = rule.applies event.document :=
  Condition.evaluate_eq_of_present? fun field compared =>
    FieldPath.present?_eq_of_blind (blind field compared) event content

/-- Rules of which no active one compares a field that reads the content do not look at it. -/
theorem resolve_eq_of_blind {rules : List PolicyRule} (event : UsageEvent)
    (content : Option UsageContent)
    (blind : ∀ rule ∈ rules, rule.active = true → ∀ field, rule.condition.Compares field →
      ¬ field.ReadsContent) :
    { event with content }.resolve rules = event.resolve rules ∧
      { event with content }.explain rules = event.explain rules := by
  have same : ∀ rule ∈ PolicyRule.inOrder rules,
      rule.applies { event with content }.document = rule.applies event.document := by
    intro rule tried
    obtain ⟨listed, active⟩ := PolicyRule.mem_inOrder.mp tried
    exact applies_eq_of_blind event content (blind rule listed active)
  constructor
  · rw [resolve, resolve, List.find?_congr same]
    rfl
  · rw [explain, explain]
    exact List.map_congr_left fun rule tried => by rw [same rule tried]

theorem inOrder_singleton {rule : PolicyRule} (active : rule.active = true) :
    PolicyRule.inOrder [rule] = [rule] := by
  rw [PolicyRule.inOrder, List.filter_cons_of_pos active, List.filter_nil, List.mergeSort_singleton]

theorem explain_singleton {rule : PolicyRule} (event : UsageEvent) (active : rule.active = true) :
    event.explain [rule] = [⟨rule.id, rule.priority, rule.applies event.document⟩] := by
  rw [explain, inOrder_singleton active]
  rfl

/-- Rules that compare no other fields than the allowed ones give events that differ in their content
one verdict and one trace exactly if no allowed field reads the content. -/
theorem resolve_ignores_content_iff (allowed : FieldPath → Prop) :
    (∀ (event : UsageEvent) (content : Option UsageContent) (rules : List PolicyRule),
      (∀ rule ∈ rules, rule.active = true → ∀ field, rule.condition.Compares field → allowed field) →
      { event with content }.resolve rules = event.resolve rules ∧
        { event with content }.explain rules = event.explain rules) ↔
      ∀ field, allowed field → ¬ field.ReadsContent := by
  constructor
  · intro ignores field given reads
    obtain ⟨position, value, holds, fails⟩ := exists_comparing_of_readsContent reads
    have within : ∀ rule ∈ [comparing field value], rule.active = true →
        ∀ other, rule.condition.Compares other → allowed other := by
      intro rule listed _ other compares
      cases List.mem_singleton.mp listed
      cases compares
      exact given
    obtain ⟨_, traced⟩ := ignores publication (publicationWith position).content _ within
    rw [explain_singleton publication rfl, explain_singleton _ rfl, fails] at traced
    change [RuleEvaluation.mk _ _
      ((comparing field value).applies (publicationWith position).document)] = _ at traced
    rw [holds] at traced
    cases traced
  · intro blind event content rules within
    refine resolve_eq_of_blind event content fun rule listed active field compares => ?_
    exact blind field (within rule listed active field compares)

/-! ### A prompt that decides -/

/-- An event and the same event with a prompt may get different verdicts: the prompt is a field like
any other to a rule. -/
theorem verdict_depends_on_prompt : ¬ ∀ (rules : List PolicyRule) (event : UsageEvent)
    (content : Option UsageContent), { event with content }.resolve rules = event.resolve rules ∧
      { event with content }.explain rules = event.explain rules := by
  intro ignores
  obtain ⟨same, _⟩ := ignores [comparing (.ofKeys ["content", "prompt"]) (.str "text")] publication
    (some ⟨some "text", none, []⟩)
  have blocked : { publication with content := some ⟨some "text", none, []⟩ }.resolve
      [comparing (.ofKeys ["content", "prompt"]) (.str "text")]
        = ⟨.block, "compared", some ⟨"rule", by decide⟩, publication.context.snapshot⟩ := by
    rw [resolve, inOrder_singleton rfl]
    rfl
  have undecided : publication.resolve [comparing (.ofKeys ["content", "prompt"]) (.str "text")]
      = publication.unmatched := by
    rw [resolve, inOrder_singleton rfl]
    rfl
  rw [blocked, undecided] at same
  cases same

end UsageEvent

end Governance
