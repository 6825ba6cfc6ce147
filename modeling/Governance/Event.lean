import Governance.Wire.Decode

/-!
# Usage events

An event records one attempted use of a tool: who acted, with which tool, doing what, and under
which tenant, enterprise and policy snapshot. Conditions look into the document of an event.
-/

set_option autoImplicit false

namespace Governance

structure Actor where
  role : String
  deriving DecidableEq, Repr

structure Tool where
  id : String
  name : String
  version : String
  deriving DecidableEq, Repr

inductive ActionKind where
  | generate
  | edit
  | summarize
  | translate
  | analyze
  | publish
  | export
  | share
  deriving DecidableEq, Repr

instance : Wire.Named ActionKind where
  all := [.generate, .edit, .summarize, .translate, .analyze, .publish, .export, .share]
  name
    | .generate => "generate"
    | .edit => "edit"
    | .summarize => "summarize"
    | .translate => "translate"
    | .analyze => "analyze"
    | .publish => "publish"
    | .export => "export"
    | .share => "share"

structure Action where
  kind : ActionKind
  deriving DecidableEq, Repr

structure UsageContext where
  tenant : TenantId
  enterprise : EnterpriseId
  brand : Option String
  region : Option String
  channel : Option String
  snapshot : PolicySnapshotId
  deriving DecidableEq, Repr

structure UsageContent where
  prompt : Option String
  outputText : Option String
  assets : List String
  deriving DecidableEq, Repr

structure UsageEvent where
  actor : Actor
  tool : Tool
  action : Action
  context : UsageContext
  content : Option UsageContent
  deriving DecidableEq, Repr

/-! ## Records -/

def Actor.toJson (actor : Actor) : Json := .obj [("role", .str actor.role)]

def Actor.ofJson : Json → Wire.Decoded Actor :=
  Wire.record "struct Actor" 1 fun given => Actor.mk <$> given.field 0 "role" Wire.text

def Tool.toJson (tool : Tool) : Json :=
  .obj [("id", .str tool.id), ("name", .str tool.name), ("version", .str tool.version)]

def Tool.ofJson : Json → Wire.Decoded Tool :=
  Wire.record "struct Tool" 3 fun given =>
    Tool.mk <$> given.field 0 "id" Wire.text
      <*> given.field 1 "name" Wire.text
      <*> given.field 2 "version" Wire.text

def Action.toJson (action : Action) : Json :=
  .obj [("kind", .str (Wire.Named.name action.kind))]

def Action.ofJson : Json → Wire.Decoded Action :=
  Wire.record "struct Action" 1 fun given => Action.mk <$> given.field 0 "kind" Wire.named

def UsageContext.toJson (context : UsageContext) : Json :=
  .obj ([("tenant_id", .str context.tenant.text), ("enterprise_id", .str context.enterprise.text)]
    ++ Wire.present "brand" (context.brand.map .str)
    ++ Wire.present "region" (context.region.map .str)
    ++ Wire.present "channel" (context.channel.map .str)
    ++ [("policy_snapshot_id", .str context.snapshot.text)])

def UsageContext.ofJson : Json → Wire.Decoded UsageContext :=
  Wire.record "struct UsageContext" 6 fun given =>
    UsageContext.mk <$> given.field 0 "tenant_id" (Wire.identifier .tenant)
      <*> given.field 1 "enterprise_id" (Wire.identifier .enterprise)
      <*> given.optionalField 2 "brand" Wire.text
      <*> given.optionalField 3 "region" Wire.text
      <*> given.optionalField 4 "channel" Wire.text
      <*> given.field 5 "policy_snapshot_id" (Wire.identifier .policySnapshot)

def UsageContent.toJson (content : UsageContent) : Json :=
  .obj (Wire.present "prompt" (content.prompt.map .str)
    ++ Wire.present "output_text" (content.outputText.map .str)
    ++ Wire.present "asset_uris"
      (if content.assets.isEmpty then none else some (.arr (content.assets.map .str))))

def UsageContent.ofJson : Json → Wire.Decoded UsageContent :=
  Wire.record "struct UsageContent" 3 fun given =>
    UsageContent.mk <$> given.optionalField 0 "prompt" Wire.text
      <*> given.optionalField 1 "output_text" Wire.text
      <*> given.fieldOr (some []) 2 "asset_uris" (Wire.list Wire.text)

namespace UsageEvent

def toJson (event : UsageEvent) : Json :=
  .obj ([("actor", event.actor.toJson), ("tool", event.tool.toJson),
      ("action", event.action.toJson), ("context", event.context.toJson)]
    ++ Wire.present "content" (event.content.map UsageContent.toJson))

def ofJson : Json → Wire.Decoded UsageEvent :=
  Wire.record "struct UsageEvent" 5 fun given =>
    UsageEvent.mk <$> given.field 0 "actor" Actor.ofJson
      <*> given.field 1 "tool" Tool.ofJson
      <*> given.field 2 "action" Action.ofJson
      <*> given.field 3 "context" UsageContext.ofJson
      <*> given.optionalField 4 "content" UsageContent.ofJson

def document (event : UsageEvent) : Json := event.toJson.normalized

end UsageEvent

end Governance
