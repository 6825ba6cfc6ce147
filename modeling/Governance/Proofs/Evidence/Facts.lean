import Governance.Evidence.Compile
import Governance.Proofs.Canonical.Equivalence
import Governance.Proofs.Text.Bytes
import Mathlib.Data.List.Nodup

/-!
# The facts of a bundle

The facts of a compiled bundle are those of the schema that are present, in the order of the
schema, and after them what the caller adds. No two of them have the same key, so a fact is found
by its key, and an absent fact of the schema is not found at all. Digests cover the document of the
list of facts, which no two lists share.
-/

set_option autoImplicit false

namespace Governance

namespace EvidenceItem

variable {items others : List EvidenceItem}

/-! ## The document of a list of facts -/

def listing (items : List EvidenceItem) : Json := .arr (items.map toJson)

theorem toJson_injective {item other : EvidenceItem} (same : item.toJson = other.toJson) :
    item = other := by
  cases item
  cases other
  simpa [toJson] using same

theorem listing_injective (same : listing items = listing others) : items = others :=
  List.map_injective_iff.mpr (fun _ _ => toJson_injective) (Json.arr.inj same)

@[simp] theorem floatFree_toJson (item : EvidenceItem) :
    item.toJson.floatFree = item.value.floatFree := by
  simp [toJson, Json.floatFree, Json.floatFreeMembers]

theorem wellFormed_toJson {item : EvidenceItem} (known : item.value.WellFormed) :
    item.toJson.WellFormed := by
  have ordered : "key" < "value" := by decide
  rw [toJson, Json.wellFormed_obj]
  exact ⟨List.pairwise_pair.mpr ordered, by simpa [Json.WellFormed, Json.wellFormed] using known⟩

theorem floatFree_listing :
    (listing items).floatFree = true ↔ ∀ item ∈ items, item.value.floatFree = true := by
  simp [listing]

theorem wellFormed_listing (known : ∀ item ∈ items, item.value.WellFormed) :
    (listing items).WellFormed := by
  rw [listing, Json.wellFormed_arr]
  intro record listed
  obtain ⟨item, present, rfl⟩ := List.mem_map.mp listed
  exact wellFormed_toJson (known item present)

theorem hashAll_eq (items : List EvidenceItem) :
    hashAll items = (Canonical.documentText .empty (listing items)).map ContentDigest.ofText :=
  rfl

theorem hashAll_eq_ok {digest : ContentDigest} (hashed : hashAll items = .ok digest) :
    ∃ written, Canonical.documentText .empty (listing items) = .ok written ∧
      digest = .ofText written := by
  cases done : Canonical.documentText .empty (listing items) with
  | error problem => simp [hashAll_eq, done, Except.map] at hashed
  | ok written =>
      rw [hashAll_eq, done] at hashed
      exact ⟨written, rfl, (Except.ok.inj hashed).symm⟩

/-- A list of facts has a digest exactly if no fact has a float. -/
theorem hashAll_eq_ok_iff :
    (∃ digest, hashAll items = .ok digest) ↔ ∀ item ∈ items, item.value.floatFree = true := by
  rw [← floatFree_listing]
  constructor
  · intro hashed
    obtain ⟨digest, hashed⟩ := hashed
    obtain ⟨written, done, _⟩ := hashAll_eq_ok hashed
    exact Canonical.floatFree_of_textAt done
  · intro free
    exact ⟨_, by rw [hashAll_eq, Canonical.documentText, Canonical.textAt_eq free]; rfl⟩

/-- The bytes that are digested keep lists of facts apart. -/
theorem listing_bytes_eq_iff {written written' : String}
    (known : ∀ item ∈ items, item.value.WellFormed)
    (known' : ∀ item ∈ others, item.value.WellFormed)
    (done : Canonical.documentText .empty (listing items) = .ok written)
    (done' : Canonical.documentText .empty (listing others) = .ok written') :
    written.toUTF8 = written'.toUTF8 ↔ items = others := by
  have free := Canonical.floatFree_of_textAt done
  have free' := Canonical.floatFree_of_textAt done'
  obtain ⟨text, text', textDone, textDone', apart⟩ := Canonical.bytes_eq_iff_equivalent .empty .root
    (listing items) (listing others) (wellFormed_listing known) (wellFormed_listing known') free free'
  obtain rfl : text = written := Except.ok.inj (textDone.symm.trans done)
  obtain rfl : text' = written' := Except.ok.inj (textDone'.symm.trans done')
  rw [apart]
  constructor
  · intro equivalent
    exact listing_injective (Canonical.eq_of_equivalent equivalent (fun _ => rfl)
      (wellFormed_listing known) (wellFormed_listing known'))
  · intro same
    subst same
    exact Canonical.Equivalent.refl (wellFormed_listing known) free

/-- Where no two facts have the same key, the fact with a key is the one that is found. -/
theorem find?_eq_some_iff {item : EvidenceItem} {name : String}
    (distinct : (items.map key).Nodup) :
    items.find? (fun item => item.key == name) = some item ↔ item ∈ items ∧ item.key = name := by
  constructor
  · intro found
    exact ⟨List.mem_of_find?_eq_some found, by simpa using List.find?_some found⟩
  · intro given
    obtain ⟨present, named⟩ := given
    cases found : items.find? fun item => item.key == name with
    | none => exact absurd named (by simpa using List.find?_eq_none.mp found item present)
    | some first =>
        have firstNamed : first.key = name := by simpa using List.find?_some found
        have same := List.inj_on_of_nodup_map distinct (List.mem_of_find?_eq_some found) present
          (firstNamed.trans named.symm)
        rw [same]

end EvidenceItem

namespace ProofBundle

variable {id : BundleId} {event : UsageEvent} {verdict : Verdict} {extras : SortedMap String Json}
  {bundle : ProofBundle}

/-! ## The facts of the schema -/

def optionalKeys : List String :=
  ["context.brand", "context.region", "context.channel", "verdict.rule_id"]

theorem keys_schemaValues (event : UsageEvent) (verdict : Verdict) :
    (schemaValues event verdict).map Prod.fst = schemaKeys := rfl

theorem schemaKeys_nodup : schemaKeys.Nodup := by decide

theorem eq_of_mem_schemaValues {key : String} {value value' : Option String}
    (listed : (key, value) ∈ schemaValues event verdict)
    (listed' : (key, value') ∈ schemaValues event verdict) : value = value' := by
  have distinct : ((schemaValues event verdict).map Prod.fst).Nodup := schemaKeys_nodup
  exact congrArg Prod.snd (List.inj_on_of_nodup_map distinct listed listed' rfl)

theorem mem_schemaItems_iff {item : EvidenceItem} :
    item ∈ schemaItems event verdict ↔
      ∃ text, (item.key, some text) ∈ schemaValues event verdict ∧ item.value = .str text := by
  rw [schemaItems, List.mem_filterMap]
  constructor
  · intro given
    obtain ⟨⟨key, value⟩, listed, present⟩ := given
    obtain ⟨text, rfl, rfl⟩ := Option.map_eq_some_iff.mp present
    exact ⟨text, listed, rfl⟩
  · intro given
    obtain ⟨text, listed, valued⟩ := given
    refine ⟨(item.key, some text), listed, ?_⟩
    cases item
    cases valued
    rfl

theorem keys_present_sublist (values : List (String × Option String)) :
    ((values.filterMap fun (key, value) => value.map fun text => EvidenceItem.mk key (.str text)).map
      EvidenceItem.key).Sublist (values.map Prod.fst) := by
  induction values with
  | nil => exact List.Sublist.slnil
  | cons entry rest ih =>
      obtain ⟨key, value⟩ := entry
      cases value with
      | none => exact ih.cons key
      | some text => exact ih.cons_cons key

theorem keys_schemaItems_sublist (event : UsageEvent) (verdict : Verdict) :
    ((schemaItems event verdict).map EvidenceItem.key).Sublist schemaKeys :=
  keys_present_sublist (schemaValues event verdict)

theorem present_of_not_optional {key : String} {value : Option String}
    (listed : (key, value) ∈ schemaValues event verdict) (required : key ∉ optionalKeys) :
    ∃ text, value = some text := by
  simp only [schemaValues, List.mem_cons, Prod.mk.injEq, List.not_mem_nil, or_false] at listed
  simp only [optionalKeys, List.mem_cons, List.not_mem_nil, or_false, not_or] at required
  grind

/-! ## The keys that a caller adds -/

theorem keys_extraItems (extras : SortedMap String Json) :
    (extraItems extras).map EvidenceItem.key = extras.keys := by
  rw [extraItems, List.map_map]
  rfl

theorem mem_extraItems_iff {item : EvidenceItem} :
    item ∈ extraItems extras ↔ extras.find? item.key = some item.value := by
  rw [SortedMap.find?_eq_some_iff, extraItems, List.mem_map]
  constructor
  · intro given
    obtain ⟨entry, listed, rfl⟩ := given
    exact listed
  · intro listed
    exact ⟨(item.key, item.value), listed, rfl⟩

theorem extraItems_injective {others : SortedMap String Json}
    (same : extraItems extras = extraItems others) : extras = others := by
  refine SortedMap.ext_entries (List.map_injective_iff.mpr ?_ same)
  intro entry other equal
  exact Prod.ext (congrArg EvidenceItem.key equal) (congrArg EvidenceItem.value equal)

theorem reservedKey?_eq_none_iff :
    reservedKey? extras = none ↔ ∀ key ∈ extras.keys, key ∉ schemaKeys := by
  simp [reservedKey?]

/-! ## The facts of a compiled bundle -/

def compiledItems (event : UsageEvent) (verdict : Verdict) (extras : SortedMap String Json) :
    List EvidenceItem :=
  schemaItems event verdict ++ extraItems extras

theorem keys_compiledItems_nodup (unreserved : reservedKey? extras = none) :
    ((compiledItems event verdict extras).map EvidenceItem.key).Nodup := by
  have sublist := keys_schemaItems_sublist event verdict
  rw [compiledItems, List.map_append, keys_extraItems, List.nodup_append]
  refine ⟨schemaKeys_nodup.sublist sublist, ?_, ?_⟩
  · exact Entries.nodup_keys extras.ascending
  · intro key listed other added equal
    subst equal
    exact reservedKey?_eq_none_iff.mp unreserved key added (sublist.subset listed)

theorem find?_compiledItems (unreserved : reservedKey? extras = none) {key : String}
    {value : Option String} (listed : (key, value) ∈ schemaValues event verdict) :
    (compiledItems event verdict extras).find? (fun item => item.key == key)
      = value.map fun text => ⟨key, .str text⟩ := by
  cases value with
  | some text =>
      rw [Option.map_some, EvidenceItem.find?_eq_some_iff (keys_compiledItems_nodup unreserved)]
      exact ⟨List.mem_append_left _ (mem_schemaItems_iff.mpr ⟨text, listed, rfl⟩), rfl⟩
  | none =>
      -- nothing stands in for an absent fact: its key is in the schema once, and is no caller's key
      rw [Option.map_none, List.find?_eq_none]
      intro item present
      rw [beq_iff_eq]
      intro named
      subst named
      rcases List.mem_append.mp present with fact | added
      · obtain ⟨text, listed', _⟩ := mem_schemaItems_iff.mp fact
        cases eq_of_mem_schemaValues listed listed'
      · have given : item.key ∈ extras.keys := by
          rw [SortedMap.mem_keys_iff, mem_extraItems_iff.mp added]
          rfl
        exact reservedKey?_eq_none_iff.mp unreserved item.key given
          (List.mem_map_of_mem (f := Prod.fst) listed)

/-- What holds of texts and of the values that a caller adds holds of the values of all facts. -/
theorem forall_compiledItems {motive : Json → Prop} (texts : ∀ text, motive (.str text))
    (added : ∀ value ∈ extras.values, motive value) :
    ∀ item ∈ compiledItems event verdict extras, motive item.value := by
  intro item present
  rcases List.mem_append.mp present with fact | extra
  · obtain ⟨text, _, valued⟩ := mem_schemaItems_iff.mp fact
    exact valued ▸ texts text
  · have listed := SortedMap.find?_eq_some_iff.mp (mem_extraItems_iff.mp extra)
    exact added item.value (List.mem_map_of_mem (f := Prod.snd) listed)

theorem floatFree_compiledItems_iff :
    (∀ item ∈ compiledItems event verdict extras, item.value.floatFree = true) ↔
      ∀ value ∈ extras.values, value.floatFree = true := by
  constructor
  · intro free value given
    obtain ⟨entry, listed, rfl⟩ := List.mem_map.mp given
    exact free ⟨entry.1, entry.2⟩ (List.mem_append_right _ (List.mem_map_of_mem listed))
  · exact forall_compiledItems fun _ => rfl

/-! ## What compiling does -/

/-- The four outcomes of compiling, each with what leads to it. -/
theorem compile_cases (id : BundleId) (event : UsageEvent) (verdict : Verdict)
    (extras : SortedMap String Json) :
    (verdict.snapshot ≠ event.context.snapshot ∧
        compile id event verdict extras
          = .error (.snapshotMismatch event.context.snapshot verdict.snapshot)) ∨
      (verdict.snapshot = event.context.snapshot ∧
        ∃ key, reservedKey? extras = some key ∧
          compile id event verdict extras = .error (.reservedKey key)) ∨
      (verdict.snapshot = event.context.snapshot ∧ reservedKey? extras = none ∧
        ∃ cause, EvidenceItem.hashAll (compiledItems event verdict extras) = .error cause ∧
          compile id event verdict extras = .error (.canonicalization cause)) ∨
      (verdict.snapshot = event.context.snapshot ∧ reservedKey? extras = none ∧
        ∃ digest, EvidenceItem.hashAll (compiledItems event verdict extras) = .ok digest ∧
          compile id event verdict extras
            = .ok ⟨id, event.context.tenant, event.context.snapshot,
                compiledItems event verdict extras, digest⟩) := by
  unfold compile
  by_cases bound : verdict.snapshot = event.context.snapshot
  · rw [if_neg (not_not_intro bound)]
    cases reserved : reservedKey? extras with
    | some key => exact .inr (.inl ⟨bound, key, rfl, rfl⟩)
    | none =>
        dsimp only
        rw [← compiledItems]
        cases hashed : EvidenceItem.hashAll (compiledItems event verdict extras) with
        | error cause => exact .inr (.inr (.inl ⟨bound, rfl, cause, rfl, rfl⟩))
        | ok digest => exact .inr (.inr (.inr ⟨bound, rfl, digest, rfl, rfl⟩))
  · rw [if_pos bound]
    exact .inl ⟨bound, rfl⟩

structure CompiledFrom (event : UsageEvent) (verdict : Verdict) (extras : SortedMap String Json)
    (bundle : ProofBundle) : Prop where
  bound : verdict.snapshot = event.context.snapshot
  unreserved : reservedKey? extras = none
  items : bundle.items = compiledItems event verdict extras
  hashed : EvidenceItem.hashAll bundle.items = .ok bundle.integrityHash
  tenant : bundle.tenant = event.context.tenant
  snapshot : bundle.snapshot = event.context.snapshot

theorem compiledFrom_of_compile (compiled : compile id event verdict extras = .ok bundle) :
    CompiledFrom event verdict extras bundle := by
  rcases compile_cases id event verdict extras with
    ⟨_, outcome⟩ | ⟨_, _, _, outcome⟩ | ⟨_, _, _, _, outcome⟩ |
      ⟨bound, unreserved, _, hashed, outcome⟩
  · cases outcome.symm.trans compiled
  · cases outcome.symm.trans compiled
  · cases outcome.symm.trans compiled
  · cases outcome.symm.trans compiled
    exact ⟨bound, unreserved, rfl, hashed, rfl, rfl⟩

end ProofBundle

end Governance
