import Governance.Proofs.Evidence.Outcome

/-!
# What a bundle commits to

The bytes that are digested determine everything that a bundle discloses and are determined by it:
the tool, the actor's role, the action, the context, the verdict, and what the caller adds. What is
absent is told apart from everything that could stand in its place, because no caller can add a
fact under a key of the schema. The identifier of the bundle and the content of the event have no
part in the facts or in the digest.
-/

set_option autoImplicit false

namespace Governance

/-- Names that are read as the values that have them are not shared. -/
theorem Wire.eq_of_name_eq {α : Type} [Wire.Named α]
    (read : ∀ value : α, Wire.ofName? α (Wire.Named.name value) = some value) {value other : α}
    (same : Wire.Named.name value = Wire.Named.name other) : value = other := by
  have read' := read other
  rw [← same, read value] at read'
  exact Option.some.inj read'

theorem ActionKind.ofName?_name (kind : ActionKind) :
    Wire.ofName? ActionKind (Wire.Named.name kind) = some kind := by
  cases kind <;> rfl

theorem DecisionStatus.ofName?_name (status : DecisionStatus) :
    Wire.ofName? DecisionStatus (Wire.Named.name status) = some status := by
  cases status <;> rfl

theorem Identifier.eq_of_text_eq {kind : IdentifierKind} {id other : Identifier kind}
    (same : id.text = other.text) : id = other := by
  cases id
  cases other
  cases same
  rfl

namespace ProofBundle

variable {id id' : BundleId} {event event' : UsageEvent} {verdict verdict' : Verdict}
  {extras extras' : SortedMap String Json} {bundle bundle' : ProofBundle}

/-- Whether two decisions agree on everything that their bundles disclose. What a caller adds is
compared as a map. -/
structure DiscloseSame (event : UsageEvent) (verdict : Verdict) (extras : SortedMap String Json)
    (event' : UsageEvent) (verdict' : Verdict) (extras' : SortedMap String Json) : Prop where
  toolId : event.tool.id = event'.tool.id
  toolName : event.tool.name = event'.tool.name
  toolVersion : event.tool.version = event'.tool.version
  role : event.actor.role = event'.actor.role
  action : event.action.kind = event'.action.kind
  tenant : event.context.tenant = event'.context.tenant
  enterprise : event.context.enterprise = event'.context.enterprise
  brand : event.context.brand = event'.context.brand
  region : event.context.region = event'.context.region
  channel : event.context.channel = event'.context.channel
  snapshot : event.context.snapshot = event'.context.snapshot
  status : verdict.status = verdict'.status
  reason : verdict.reason = verdict'.reason
  rule : verdict.rule = verdict'.rule
  extras : ∀ key, extras.find? key = extras'.find? key

/-! ## From the facts to the decision -/

/-- The facts of a bundle determine the values of the schema, absent ones included. -/
theorem schemaValues_eq_of_compiledItems_eq (unreserved : reservedKey? extras = none)
    (unreserved' : reservedKey? extras' = none)
    (same : compiledItems event verdict extras = compiledItems event' verdict' extras') :
    schemaValues event verdict = schemaValues event' verdict' := by
  have sameKeys : (schemaValues event verdict).map Prod.fst
      = (schemaValues event' verdict').map Prod.fst := rfl
  obtain ⟨lengths, keys⟩ := Canonical.map_eq_map_iff_zip.mp sameKeys
  -- entry by entry: both values are what is found under their common key in the same facts
  have sameValues : (schemaValues event verdict).map Prod.snd
      = (schemaValues event' verdict').map Prod.snd := by
    refine Canonical.map_eq_map_iff_zip.mpr ⟨lengths, fun pair zipped => ?_⟩
    obtain ⟨⟨key, value⟩, key', value'⟩ := pair
    obtain rfl : key = key' := keys _ zipped
    obtain ⟨listed, listed'⟩ := List.of_mem_zip zipped
    have found := find?_compiledItems unreserved listed
    rw [same, find?_compiledItems unreserved' listed'] at found
    exact (Option.map_injective (fun _ _ text => by simpa using text) found).symm
  exact (List.zip_of_prod sameKeys sameValues).trans (List.zip_of_prod rfl rfl).symm

theorem discloseSame_of_compiledItems_eq (unreserved : reservedKey? extras = none)
    (unreserved' : reservedKey? extras' = none)
    (same : compiledItems event verdict extras = compiledItems event' verdict' extras') :
    DiscloseSame event verdict extras event' verdict' extras' := by
  have values := schemaValues_eq_of_compiledItems_eq unreserved unreserved' same
  have added : extraItems extras = extraItems extras' := by
    have facts : schemaItems event verdict = schemaItems event' verdict' := by
      rw [schemaItems, values, ← schemaItems]
    rw [compiledItems, compiledItems, facts] at same
    exact List.append_cancel_left same
  simp only [schemaValues, List.cons.injEq, Prod.mk.injEq, Option.some.injEq, true_and,
    and_true] at values
  obtain ⟨toolId, toolName, toolVersion, role, action, tenant, enterprise, brand, region, channel,
    snapshot, status, reason, rule, _⟩ := values
  exact {
    toolId, toolName, toolVersion, role, brand, region, channel, reason
    action := Wire.eq_of_name_eq ActionKind.ofName?_name action
    tenant := Identifier.eq_of_text_eq tenant
    enterprise := Identifier.eq_of_text_eq enterprise
    snapshot := Identifier.eq_of_text_eq snapshot
    status := Wire.eq_of_name_eq DecisionStatus.ofName?_name status
    rule := Option.map_injective (fun _ _ => Identifier.eq_of_text_eq) rule
    extras := fun key => by rw [extraItems_injective added] }

/-! ## From the decision to the facts -/

/-- The snapshot of a verdict is disclosed as well, but it is that of the event. -/
theorem compiledItems_eq_of_discloseSame (bound : verdict.snapshot = event.context.snapshot)
    (bound' : verdict'.snapshot = event'.context.snapshot)
    (same : DiscloseSame event verdict extras event' verdict' extras') :
    compiledItems event verdict extras = compiledItems event' verdict' extras' := by
  have values : schemaValues event verdict = schemaValues event' verdict' := by
    simp only [schemaValues, bound, bound', same.toolId, same.toolName, same.toolVersion, same.role,
      same.action, same.tenant, same.enterprise, same.brand, same.region, same.channel,
      same.snapshot, same.status, same.reason, same.rule]
  rw [compiledItems, compiledItems, schemaItems, schemaItems, values,
    SortedMap.ext_find? same.extras]

theorem CompiledFrom.items_eq_iff (compiled : CompiledFrom event verdict extras bundle)
    (compiled' : CompiledFrom event' verdict' extras' bundle') :
    bundle.items = bundle'.items ↔ DiscloseSame event verdict extras event' verdict' extras' := by
  rw [compiled.items, compiled'.items]
  constructor
  · exact discloseSame_of_compiledItems_eq compiled.unreserved compiled'.unreserved
  · exact compiledItems_eq_of_discloseSame compiled.bound compiled'.bound

theorem CompiledFrom.wellFormed (compiled : CompiledFrom event verdict extras bundle)
    (known : ∀ value ∈ extras.values, value.WellFormed) :
    ∀ item ∈ bundle.items, item.value.WellFormed := by
  rw [compiled.items]
  exact forall_compiledItems (fun _ => rfl) known

/-- Compiling looks neither at its identifier nor at the content of the event. -/
theorem compile_with_content (other : BundleId) (content : Option UsageContent) :
    compile other { event with content } verdict extras
      = (compile id event verdict extras).map fun bundle => { bundle with id := other } := by
  have facts : schemaItems { event with content } verdict = schemaItems event verdict := rfl
  unfold compile
  by_cases bound : verdict.snapshot = event.context.snapshot
  · rw [if_neg (not_not_intro bound), if_neg (not_not_intro bound)]
    cases reservedKey? extras with
    | some key => rfl
    | none =>
        dsimp only
        rw [facts]
        cases EvidenceItem.hashAll (schemaItems event verdict ++ extraItems extras) with
        | error cause => rfl
        | ok digest => rfl
  · rw [if_pos bound, if_pos bound]
    rfl

/-- The bytes digested for two compiled bundles are the same exactly if the decisions agree on
everything that is disclosed. Another identifier and another content change nothing but the
identifier of the bundle. -/
theorem compile_commits (known : ∀ value ∈ extras.values, value.WellFormed)
    (known' : ∀ value ∈ extras'.values, value.WellFormed)
    (compiled : compile id event verdict extras = .ok bundle)
    (compiled' : compile id' event' verdict' extras' = .ok bundle') :
    (∃ written written',
      Canonical.documentText .empty (EvidenceItem.listing bundle.items) = .ok written ∧
      Canonical.documentText .empty (EvidenceItem.listing bundle'.items) = .ok written' ∧
      bundle.integrityHash = .ofText written ∧ bundle'.integrityHash = .ofText written' ∧
      (written.toUTF8 = written'.toUTF8 ↔
        DiscloseSame event verdict extras event' verdict' extras')) ∧
    ∀ other content,
      compile other { event with content } verdict extras = .ok { bundle with id := other } := by
  have made := compiledFrom_of_compile compiled
  have made' := compiledFrom_of_compile compiled'
  obtain ⟨written, done, hash⟩ := EvidenceItem.hashAll_eq_ok made.hashed
  obtain ⟨written', done', hash'⟩ := EvidenceItem.hashAll_eq_ok made'.hashed
  constructor
  · refine ⟨written, written', done, done', hash, hash', ?_⟩
    rw [EvidenceItem.listing_bytes_eq_iff (made.wellFormed known) (made'.wellFormed known') done done']
    exact made.items_eq_iff made'
  · intro other content
    rw [@compile_with_content id, compiled]
    rfl

def launch : SortedMap String Json := .ofList [("context.brand.name", .arr [.str "x", .null])]

theorem compile_commits_publications :
    ∃ bundle bundle',
      compile ⟨0⟩ UsageEvent.publication released campaign = .ok bundle ∧
      compile ⟨1⟩ UsageEvent.publication released launch = .ok bundle' ∧
      (∃ written written',
        Canonical.documentText .empty (EvidenceItem.listing bundle.items) = .ok written ∧
        Canonical.documentText .empty (EvidenceItem.listing bundle'.items) = .ok written' ∧
        bundle.integrityHash = .ofText written ∧ bundle'.integrityHash = .ofText written' ∧
        (written.toUTF8 = written'.toUTF8 ↔
          DiscloseSame UsageEvent.publication released campaign
            UsageEvent.publication released launch)) ∧
      ∀ other content,
        compile other { UsageEvent.publication with content } released campaign
          = .ok { bundle with id := other } := by
  obtain ⟨bundle, compiled⟩ := compile_publication
  obtain ⟨bundle', compiled'⟩ :=
    (endsByCause ⟨1⟩ UsageEvent.publication released launch).success.mpr ⟨rfl, by decide, by decide⟩
  exact ⟨bundle, bundle', compiled, compiled',
    compile_commits (by decide) (by decide) compiled compiled'⟩

end ProofBundle

end Governance
