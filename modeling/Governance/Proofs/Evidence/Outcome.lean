import Governance.Evidence.Integrity
import Governance.Proofs.Evidence.Facts
import Governance.Proofs.Rule.Decision

/-!
# How compiling and checking a bundle end

Compiling fails for one of three causes, and the first that applies is reported: the snapshots
differ, a key of the caller is reserved, a value of the caller has a float. Otherwise there is a
bundle, with its facts in order and intact. The two ways of checking a bundle agree on every
bundle, compiled or not.
-/

set_option autoImplicit false

namespace Governance

namespace ProofBundle

variable {id : BundleId} {event : UsageEvent} {verdict : Verdict} {extras : SortedMap String Json}
  {bundle : ProofBundle}

/-! ## Causes -/

/-- Whether a key is the least of those that a caller gives and the schema reserves. Keys compare
by their bytes. -/
structure LeastReserved (extras : SortedMap String Json) (key : String) : Prop where
  given : key ∈ extras.keys
  reserved : key ∈ schemaKeys
  least : ∀ other ∈ extras.keys, other ∈ schemaKeys → ¬ Text.bytes other < Text.bytes key

structure EndsByCause (id : BundleId) (event : UsageEvent) (verdict : Verdict)
    (extras : SortedMap String Json) : Prop where
  snapshotMismatch : ∀ given decided,
    compile id event verdict extras = .error (.snapshotMismatch given decided) ↔
      verdict.snapshot ≠ event.context.snapshot ∧
        given = event.context.snapshot ∧ decided = verdict.snapshot
  reservedKey : ∀ key,
    compile id event verdict extras = .error (.reservedKey key) ↔
      verdict.snapshot = event.context.snapshot ∧ LeastReserved extras key
  canonicalization :
    (∃ cause, compile id event verdict extras = .error (.canonicalization cause)) ↔
      verdict.snapshot = event.context.snapshot ∧ (∀ key ∈ extras.keys, key ∉ schemaKeys) ∧
        ∃ value ∈ extras.values, value.floatFree = false
  success :
    (∃ bundle, compile id event verdict extras = .ok bundle) ↔
      verdict.snapshot = event.context.snapshot ∧ (∀ key ∈ extras.keys, key ∉ schemaKeys) ∧
        ∀ value ∈ extras.values, value.floatFree = true

/-- In an ascending list, the first key with a property is the least one with it. -/
theorem find?_eq_some_iff_least {keys : List String} {property : String → Bool} {key : String}
    (ascending : keys.Pairwise (· < ·)) :
    keys.find? property = some key ↔
      key ∈ keys ∧ property key = true ∧
        ∀ other ∈ keys, property other = true → ¬ other < key := by
  induction keys with
  | nil => simp
  | cons first rest ih =>
      obtain ⟨above, ascending⟩ := List.pairwise_cons.mp ascending
      rw [List.find?_cons]
      cases holds : property first with
      | true =>
          dsimp only
          rw [Option.some.injEq]
          constructor
          · intro same
            subst same
            refine ⟨List.mem_cons_self, holds, fun other listed _ => ?_⟩
            rcases List.mem_cons.mp listed with same | later
            · exact same ▸ String.lt_irrefl _
            · exact String.lt_asymm (above other later)
          · intro leastOne
            obtain ⟨listed, _, least⟩ := leastOne
            rcases List.mem_cons.mp listed with same | later
            · exact same.symm
            · exact absurd (above key later) (least first List.mem_cons_self holds)
      | false =>
          dsimp only
          rw [ih ascending]
          constructor
          · intro leastOne
            obtain ⟨listed, holds', least⟩ := leastOne
            refine ⟨List.mem_cons_of_mem _ listed, holds', ?_⟩
            rw [List.forall_mem_cons]
            exact ⟨fun both => absurd both (by simp [holds]), least⟩
          · intro leastOne
            obtain ⟨listed, holds', least⟩ := leastOne
            rw [List.forall_mem_cons] at least
            refine ⟨(List.mem_cons.mp listed).resolve_left ?_, holds', least.2⟩
            intro same
            rw [same, holds] at holds'
            cases holds'

theorem reservedKey?_eq_some_iff {key : String} :
    reservedKey? extras = some key ↔ LeastReserved extras key := by
  have ascending : extras.keys.Pairwise (· < ·) := Entries.ascending_keys extras.ascending
  rw [reservedKey?, find?_eq_some_iff_least ascending]
  simp only [List.contains_eq_mem, decide_eq_true_eq, Text.lt_iff_bytes_lt]
  constructor
  · intro leastOne
    exact ⟨leastOne.1, leastOne.2.1, leastOne.2.2⟩
  · intro leastOne
    exact ⟨leastOne.given, leastOne.reserved, leastOne.least⟩

/-- The facts of a bundle have no digest exactly if a value of the caller has a float. -/
theorem exists_float_iff :
    (∃ value ∈ extras.values, value.floatFree = false) ↔
      ¬ ∃ digest, EvidenceItem.hashAll (compiledItems event verdict extras) = .ok digest := by
  rw [EvidenceItem.hashAll_eq_ok_iff, floatFree_compiledItems_iff]
  simp

theorem endsByCause (id : BundleId) (event : UsageEvent) (verdict : Verdict)
    (extras : SortedMap String Json) : EndsByCause id event verdict extras := by
  have float := @exists_float_iff event verdict extras
  have free := @floatFree_compiledItems_iff event verdict extras
  rw [← EvidenceItem.hashAll_eq_ok_iff] at free
  -- each outcome has one cause and excludes the causes of the three others
  rcases compile_cases id event verdict extras with
    ⟨different, outcome⟩ | ⟨bound, key, reserved, outcome⟩ |
      ⟨bound, unreserved, cause, hashed, outcome⟩ | ⟨bound, unreserved, digest, hashed, outcome⟩
  · constructor
    · simp [outcome, different, eq_comm]
    · simp [outcome, different]
    · simp [outcome, different]
    · simp [outcome, different]
  · constructor
    · simp [outcome, bound]
    · simp [outcome, bound, ← reservedKey?_eq_some_iff, reserved]
    · simp [outcome, ← reservedKey?_eq_none_iff, reserved]
    · simp [outcome, ← reservedKey?_eq_none_iff, reserved]
  · constructor
    · simp [outcome, bound]
    · simp [outcome, ← reservedKey?_eq_some_iff, unreserved]
    · simp [outcome, bound, ← reservedKey?_eq_none_iff, unreserved, float, hashed]
    · simp [outcome, ← free, hashed]
  · constructor
    · simp [outcome, bound]
    · simp [outcome, ← reservedKey?_eq_some_iff, unreserved]
    · simp [outcome, float, hashed]
    · simp [outcome, bound, ← reservedKey?_eq_none_iff, unreserved, ← free, hashed]

/-! ## The order of facts -/

/-- What holds of the facts of a compiled bundle: no key occurs twice; the keys of the schema come
first, in order and with only optional ones missing; what the caller adds comes after them, in the
order of the bytes of its keys, and is found under them. -/
structure Orderly (extras : SortedMap String Json) (bundle : ProofBundle) : Prop where
  distinct : bundle.keys.Nodup
  schema_first : ∃ facts, bundle.keys = facts ++ extras.keys ∧ facts.Sublist schemaKeys ∧
    ∀ key ∈ schemaKeys, key ∉ optionalKeys → key ∈ facts
  ascending : extras.keys.Pairwise fun key later => Text.bytes key < Text.bytes later
  found : ∀ key value, extras.find? key = some value → bundle.get? key = some value

theorem mem_keys_schemaItems {key : String} (listed : key ∈ schemaKeys)
    (required : key ∉ optionalKeys) : key ∈ (schemaItems event verdict).map EvidenceItem.key := by
  rw [← keys_schemaValues event verdict] at listed
  obtain ⟨⟨key, value⟩, entry, rfl⟩ := List.mem_map.mp listed
  obtain ⟨text, rfl⟩ := present_of_not_optional entry required
  exact List.mem_map.mpr ⟨⟨key, .str text⟩, mem_schemaItems_iff.mpr ⟨text, entry, rfl⟩, rfl⟩

theorem CompiledFrom.orderly (compiled : CompiledFrom event verdict extras bundle) :
    Orderly extras bundle := by
  have distinct := @keys_compiledItems_nodup event verdict extras compiled.unreserved
  have keys : bundle.keys = (schemaItems event verdict).map EvidenceItem.key ++ extras.keys := by
    rw [ProofBundle.keys, compiled.items, compiledItems, List.map_append, keys_extraItems]
  constructor
  · rw [ProofBundle.keys, compiled.items]
    exact distinct
  · exact ⟨_, keys, keys_schemaItems_sublist event verdict, fun _ => mem_keys_schemaItems⟩
  · refine (Entries.ascending_keys extras.ascending).imp ?_
    exact Text.lt_iff_bytes_lt.mp
  · intro key value given
    have present : EvidenceItem.mk key value ∈ compiledItems event verdict extras :=
      List.mem_append_right _ (mem_extraItems_iff.mpr given)
    rw [get?, compiled.items, (EvidenceItem.find?_eq_some_iff distinct).mpr ⟨present, rfl⟩,
      Option.map_some]

/-! ## Checking -/

/-- Whether the two ways of checking a bundle agree: they accept it together, report the same two
digests, and give the same reason why there is no digest. -/
structure ChecksAgree (bundle : ProofBundle) : Prop where
  intact : bundle.verify = .intact ↔ bundle.verifyIntegrity = .ok ()
  mismatch : ∀ expected actual, bundle.verify = .mismatch expected actual ↔
    bundle.verifyIntegrity = .error (.integrityViolation bundle.id expected actual)
  unhashable : ∀ reason, bundle.verify = .unhashable reason ↔
    ∃ cause, bundle.verifyIntegrity = .error (.canonicalization cause) ∧
      reason = (ProofError.canonicalization cause).message

theorem checksAgree (bundle : ProofBundle) : bundle.ChecksAgree := by
  cases hashed : EvidenceItem.hashAll bundle.items with
  | error cause =>
      have check : bundle.verify = .unhashable (ProofError.canonicalization cause).message := by
        rw [verify, hashed]
        rfl
      have outcome : bundle.verifyIntegrity = .error (.canonicalization cause) := by
        rw [verifyIntegrity, hashed]
      constructor
      · simp [check, outcome]
      · simp [check, outcome]
      · simp [check, outcome, eq_comm]
  | ok actual =>
      by_cases same : actual = bundle.integrityHash
      · have check : bundle.verify = .intact := by
          rw [verify, hashed]
          exact if_pos same
        have outcome : bundle.verifyIntegrity = .ok () := by
          rw [verifyIntegrity, hashed]
          exact if_pos same
        constructor <;> simp [check, outcome]
      · have check : bundle.verify = .mismatch bundle.integrityHash actual := by
          rw [verify, hashed]
          exact if_neg same
        have outcome : bundle.verifyIntegrity
            = .error (.integrityViolation bundle.id bundle.integrityHash actual) := by
          rw [verifyIntegrity, hashed]
          exact if_neg same
        constructor <;> simp [check, outcome]

theorem CompiledFrom.verify_eq_intact (compiled : CompiledFrom event verdict extras bundle) :
    bundle.verify = .intact := by
  rw [verify, compiled.hashed]
  exact if_pos rfl

/-- Compiling ends by cause, what it gives is orderly and intact, and the two ways of checking a
bundle agree on every bundle. -/
theorem compile_checked (id : BundleId) (event : UsageEvent) (verdict : Verdict)
    (extras : SortedMap String Json) :
    EndsByCause id event verdict extras ∧
      (∀ bundle, compile id event verdict extras = .ok bundle →
        Orderly extras bundle ∧ bundle.verify = .intact ∧ bundle.verifyIntegrity = .ok ()) ∧
      ∀ bundle : ProofBundle, bundle.ChecksAgree := by
  refine ⟨endsByCause id event verdict extras, fun bundle compiled => ?_, checksAgree⟩
  have made := compiledFrom_of_compile compiled
  have intact := made.verify_eq_intact
  exact ⟨made.orderly, intact, (checksAgree bundle).intact.mp intact⟩

def released : Verdict := ⟨.allow, "released", none, UsageEvent.publication.context.snapshot⟩

def campaign : SortedMap String Json :=
  .ofList [("z.ticket", .int 42), ("campaign", .obj [("season", .str "spring")])]

theorem compile_publication :
    ∃ bundle, compile ⟨0⟩ UsageEvent.publication released campaign = .ok bundle :=
  (endsByCause ⟨0⟩ UsageEvent.publication released campaign).success.mpr
    ⟨rfl, by decide, by decide⟩

theorem compile_checked_publication :
    ∃ bundle, compile ⟨0⟩ UsageEvent.publication released campaign = .ok bundle ∧
      Orderly campaign bundle ∧ bundle.verify = .intact ∧ bundle.verifyIntegrity = .ok () := by
  obtain ⟨_, checked, _⟩ := compile_checked ⟨0⟩ UsageEvent.publication released campaign
  obtain ⟨bundle, compiled⟩ := compile_publication
  exact ⟨bundle, compiled, checked bundle compiled⟩

end ProofBundle

end Governance
