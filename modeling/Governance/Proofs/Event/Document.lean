import Governance.Event
import Governance.Proofs.FieldPath.Access
import Governance.Proofs.Json.Normal

/-!
# Looking into events

The members of the document of an event: its content stands under one key, and no other member
depends on it.
-/

set_option autoImplicit false

namespace Governance

theorem FieldPath.lookup?_topLevel (name : String) (document : Json) :
    (ofKeys [name]).lookup? document = document.member? name := by
  refine (follow?_key name [] document).trans ?_
  cases document.member? name <;> rfl

/-! ## Members of events -/

theorem UsageContent.member?_normalized (content : UsageContent) (key : String) :
    content.toJson.normalized.member? key =
      (if "asset_uris" = key then
          if content.assets.isEmpty then none else some (.arr (content.assets.map .str))
        else none).or
      ((if "output_text" = key then content.outputText.map .str else none).or
        (if "prompt" = key then content.prompt.map .str else none)) := by
  have assets : (if content.assets.isEmpty then none else some (Json.arr (content.assets.map .str))).map
      Json.normalized
        = if content.assets.isEmpty then none else some (.arr (content.assets.map .str)) := by
    cases content.assets.isEmpty with
    | true => rfl
    | false => exact congrArg some (Json.normalized_texts content.assets)
  change (Json.normalizedMembers _).find? key = _
  rw [Json.find?_normalizedMembers_append, Json.find?_normalizedMembers_append,
    Json.find?_normalizedMembers_present, Json.find?_normalizedMembers_present,
    Json.find?_normalizedMembers_present, Json.map_normalized_text, Json.map_normalized_text, assets]

namespace UsageEvent

theorem member?_document_content (event : UsageEvent) :
    event.document.member? "content" = event.content.map fun content => content.toJson.normalized := by
  change (Json.normalizedMembers _).find? "content" = _
  rw [Json.find?_normalizedMembers_append, Json.find?_normalizedMembers_present, if_pos rfl,
    Option.map_map]
  simp only [Json.find?_normalizedMembers_cons]
  cases event.content <;> rfl

/-- No other member of an event depends on its content. -/
theorem member?_document_of_ne (event : UsageEvent) (content : Option UsageContent) {key : String}
    (other : key ≠ "content") :
    { event with content }.document.member? key = event.document.member? key := by
  change (Json.normalizedMembers _).find? key = (Json.normalizedMembers _).find? key
  rw [Json.find?_normalizedMembers_append, Json.find?_normalizedMembers_append,
    Json.find?_normalizedMembers_present, Json.find?_normalizedMembers_present,
    if_neg other.symm, if_neg other.symm]

end UsageEvent

end Governance
