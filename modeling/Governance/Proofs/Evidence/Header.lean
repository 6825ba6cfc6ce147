import Governance.Proofs.Evidence.Disclosure

/-!
# Edited bundles

What checking a bundle that was edited after it was compiled finds out. Every edit of the facts
shows, unless it gives a text with the same digest. The header repeats the tenant and the snapshot
of the facts, but checking compares it with nothing: an edit of the header does not show.
-/

set_option autoImplicit false

namespace Governance.ProofBundle

variable {id : BundleId} {event : UsageEvent} {verdict : Verdict} {extras : SortedMap String Json}
  {bundle edited : ProofBundle}

/-- Whether the header of a bundle names the tenant and the snapshot that its facts name. -/
structure HeaderAgrees (bundle : ProofBundle) : Prop where
  tenant : bundle.get? "context.tenant_id" = some (.str bundle.tenant.text)
  snapshot : bundle.get? "context.policy_snapshot_id" = some (.str bundle.snapshot.text)

def DigestsApart (bundle other : ProofBundle) : Prop :=
  ∀ written written',
    Canonical.documentText .empty (EvidenceItem.listing bundle.items) = .ok written →
    Canonical.documentText .empty (EvidenceItem.listing other.items) = .ok written' →
    ContentDigest.ofText written = .ofText written' → written.toUTF8 = written'.toUTF8

/-! ## The facts -/

theorem verify_eq_intact_iff :
    bundle.verify = .intact ↔ EvidenceItem.hashAll bundle.items = .ok bundle.integrityHash := by
  rw [verify]
  cases EvidenceItem.hashAll bundle.items with
  | error cause => simp
  | ok actual => simp

/-- An edited bundle that carries the digest of a compiled one is intact exactly if its facts are
those that were compiled. -/
theorem CompiledFrom.verify_edited_iff (compiled : CompiledFrom event verdict extras bundle)
    (known : ∀ value ∈ extras.values, value.WellFormed)
    (knownEdited : ∀ item ∈ edited.items, item.value.WellFormed)
    (carried : edited.integrityHash = bundle.integrityHash) (apart : DigestsApart bundle edited) :
    edited.verify = .intact ↔ edited.items = bundle.items := by
  rw [verify_eq_intact_iff, carried]
  constructor
  · intro hashed
    obtain ⟨written, done, hash⟩ := EvidenceItem.hashAll_eq_ok compiled.hashed
    obtain ⟨written', done', hash'⟩ := EvidenceItem.hashAll_eq_ok hashed
    have bytes := apart written written' done done' (hash.symm.trans hash')
    exact ((EvidenceItem.listing_bytes_eq_iff (compiled.wellFormed known) knownEdited done done').mp
      bytes).symm
  · intro same
    rw [same]
    exact compiled.hashed

/-! ## The header -/

theorem CompiledFrom.get? (compiled : CompiledFrom event verdict extras bundle) {key : String}
    {value : Option String} (listed : (key, value) ∈ schemaValues event verdict) :
    bundle.get? key = value.map .str := by
  rw [ProofBundle.get?, compiled.items, find?_compiledItems compiled.unreserved listed,
    Option.map_map]
  rfl

theorem CompiledFrom.headerAgrees (compiled : CompiledFrom event verdict extras bundle) :
    bundle.HeaderAgrees := by
  have tenant : ("context.tenant_id", some event.context.tenant.text) ∈ schemaValues event verdict := by
    simp [schemaValues]
  have snapshot : ("context.policy_snapshot_id", some event.context.snapshot.text) ∈
      schemaValues event verdict := by
    simp [schemaValues]
  constructor
  · rw [compiled.get? tenant, compiled.tenant, Option.map_some]
  · rw [compiled.get? snapshot, compiled.snapshot, Option.map_some]

/-- With the facts of a compiled bundle, only the header of that bundle agrees. -/
theorem CompiledFrom.headerAgrees_edited_iff (compiled : CompiledFrom event verdict extras bundle)
    (same : edited.items = bundle.items) :
    edited.HeaderAgrees ↔ edited.tenant = bundle.tenant ∧ edited.snapshot = bundle.snapshot := by
  have agreed := compiled.headerAgrees
  have found : ∀ key, edited.get? key = bundle.get? key := by
    intro key
    rw [ProofBundle.get?, same, ← ProofBundle.get?]
  constructor
  · intro agrees
    have tenant := agrees.tenant
    have snapshot := agrees.snapshot
    rw [found, agreed.tenant, Option.some.injEq, Json.str.injEq] at tenant
    rw [found, agreed.snapshot, Option.some.injEq, Json.str.injEq] at snapshot
    exact ⟨(Identifier.eq_of_text_eq tenant).symm, (Identifier.eq_of_text_eq snapshot).symm⟩
  · intro kept
    constructor
    · rw [found, kept.1, agreed.tenant]
    · rw [found, kept.2, agreed.snapshot]

/-- A bundle that carries the digest of a compiled one is intact exactly if it has the facts that
were compiled. Its header agrees with them exactly if nothing but the identifier was edited. -/
theorem verify_edited (known : ∀ value ∈ extras.values, value.WellFormed)
    (knownEdited : ∀ item ∈ edited.items, item.value.WellFormed)
    (compiled : compile id event verdict extras = .ok bundle)
    (carried : edited.integrityHash = bundle.integrityHash) (apart : DigestsApart bundle edited) :
    (edited.verify = .intact ↔ edited.items = bundle.items) ∧
      (edited.verify = .intact →
        (edited.HeaderAgrees ↔ edited = { bundle with id := edited.id })) := by
  have made := compiledFrom_of_compile compiled
  have unedited := made.verify_edited_iff known knownEdited carried apart
  refine ⟨unedited, fun intact => ?_⟩
  have same := unedited.mp intact
  rw [made.headerAgrees_edited_iff same]
  constructor
  · intro kept
    cases edited
    cases carried
    cases same
    cases kept.1
    cases kept.2
    rfl
  · intro kept
    rw [kept]
    exact ⟨rfl, rfl⟩

/-- A bundle is told apart from itself, whatever its identifier and its header. -/
theorem digestsApart_of_items_eq (same : edited.items = bundle.items) :
    DigestsApart bundle edited := by
  intro written written' done done' _
  rw [same] at done'
  rw [Except.ok.inj (done.symm.trans done')]

theorem verify_edited_identifier :
    ∃ bundle, compile ⟨0⟩ UsageEvent.publication released campaign = .ok bundle ∧
      { bundle with id := ⟨1⟩ }.verify = .intact ∧ { bundle with id := ⟨1⟩ }.HeaderAgrees := by
  obtain ⟨bundle, compiled⟩ := compile_publication
  obtain ⟨unedited, agrees⟩ := @verify_edited _ _ _ _ bundle { bundle with id := ⟨1⟩ } (by decide)
    ((compiledFrom_of_compile compiled).wellFormed (by decide)) compiled rfl
    (digestsApart_of_items_eq rfl)
  have intact := unedited.mpr rfl
  exact ⟨bundle, compiled, intact, (agrees intact).mpr rfl⟩

def otherTenant : TenantId := ⟨"other tenant", by decide⟩

/-- An intact bundle may name another tenant in its header than in its facts. -/
theorem not_headerAgrees_of_intact : ¬ ∀ (id : BundleId) (event : UsageEvent) (verdict : Verdict)
    (extras : SortedMap String Json) (bundle edited : ProofBundle),
    (∀ value ∈ extras.values, value.WellFormed) →
    (∀ item ∈ edited.items, item.value.WellFormed) →
    compile id event verdict extras = .ok bundle → edited.integrityHash = bundle.integrityHash →
    DigestsApart bundle edited → edited.verify = .intact → edited.HeaderAgrees := by
  intro covered
  obtain ⟨bundle, compiled⟩ := compile_publication
  have made := compiledFrom_of_compile compiled
  have intact : { bundle with tenant := otherTenant }.verify = .intact := made.verify_eq_intact
  have agrees := covered _ _ _ _ bundle { bundle with tenant := otherTenant } (by decide)
    (made.wellFormed (by decide)) compiled rfl (digestsApart_of_items_eq rfl) intact
  have kept : otherTenant = bundle.tenant :=
    ((@CompiledFrom.headerAgrees_edited_iff _ _ _ bundle { bundle with tenant := otherTenant } made
      rfl).mp agrees).1
  rw [made.tenant] at kept
  exact absurd kept (by decide)

end Governance.ProofBundle
