import Governance.CommandLine.Run
import Governance.Proofs.Effective.Coherence
import Governance.Proofs.Effective.Record
import Governance.Proofs.Effective.Values
import Governance.Proofs.Json.Layout

/-!
# Effective policies in files

A computed policy that is written to a file, alone or in the report of its computation, is loaded
from there again, values, sources, digest and version. What stands in the way is a source whose
field has a blank text: a key that consists of blanks passes for a plain one.
-/

set_option autoImplicit false

namespace Governance

/-! ## Fields on record -/

theorem FieldRegistry.plain_of_walkable {registry : FieldRegistry} {keys names : List String}
    (walkable : registry.Walkable keys names) :
    ∀ name ∈ names, FieldPath.isPlainKey name = true := by
  induction names generalizing keys with
  | nil => exact List.forall_mem_nil _
  | cons name rest ih =>
      obtain ⟨_, plain, walkable⟩ := walkable
      exact List.forall_mem_cons.mpr ⟨plain, ih walkable⟩

theorem FieldRegistry.isPlain_of_placed {registry : FieldRegistry} {field : FieldPath} {value : Json}
    (placed : registry.Placed field value) : field.IsPlain := by
  obtain ⟨name, plain, names, rfl, walkable, _⟩ := placed
  exact ⟨name, names, rfl, List.forall_mem_cons.mpr ⟨plain, plain_of_walkable walkable⟩⟩

theorem InheritanceSettings.isPlain_of_compute {settings : InheritanceSettings} {target : ScopeId}
    {chain : List Scope} {policies : List ScopedPolicy} {outcome : EffectiveOutcome}
    (computed : settings.compute target chain policies = .ok outcome) :
    ∀ field ∈ outcome.policy.provenance.keys, field.IsPlain := by
  obtain ⟨ordered, final, run⟩ := run_of_compute computed
  intro field listed
  rw [run.provenance] at listed
  obtain ⟨merged, found⟩ := MergeState.exists_of_mem_provenance listed
  exact FieldRegistry.isPlain_of_placed
    ((sound_applyAll_placed run.applied).holds field merged found)

/-! ## Records as documents -/

namespace EffectivePolicy

variable {policy : EffectivePolicy}

theorem legible_toJson (known : policy.values.legible = true) : policy.toJson.legible = true := by
  have version : (Json.int policy.version.toNat).legible = true := by
    have bounded := policy.version.toNat_lt
    simp only [Json.legible_int, Json.intMin, Json.intMax]
    omega
  have sources : (Json.obj policy.sourceMembers).legible = true := by
    refine Json.legible_obj.mpr fun member listed => ?_
    obtain ⟨entry, _, rfl⟩ := List.mem_map.mp listed
    rfl
  simp only [toJson_eq, Json.legible_obj, recordMembers, List.forall_mem_cons, known, sources,
    version, Json.legible_str, List.not_mem_nil, false_implies, implies_true, and_self]

theorem nesting_toJson_le {depth : Nat} (shallow : policy.values.nesting ≤ depth)
    (enough : 2 ≤ depth) : policy.toJson.nesting ≤ depth + 1 := by
  have sources : (Json.obj policy.sourceMembers).nesting ≤ depth := by
    refine Json.nesting_obj_le_iff.mpr ⟨depth - 1, by omega, fun member listed => ?_⟩
    obtain ⟨entry, _, rfl⟩ := List.mem_map.mp listed
    exact Nat.le_sub_one_of_lt enough
  refine Json.nesting_obj_le_iff.mpr ⟨depth, rfl, ?_⟩
  have flat := Nat.zero_le depth
  exact List.forall_mem_cons.mpr ⟨flat, List.forall_mem_cons.mpr ⟨shallow,
    List.forall_mem_cons.mpr ⟨sources, List.forall_mem_cons.mpr ⟨flat,
      List.forall_mem_singleton.mpr flat⟩⟩⟩⟩

end EffectivePolicy

namespace PolicyConflict

variable {conflict : PolicyConflict}

theorem forall_mem_toJson {holds : Json → Prop} (between : conflict.Between holds)
    (text : ∀ text, holds (.str text))
    (steps : holds (.arr (conflict.steps.map ResolutionRecord.toJson))) :
    ∃ members, conflict.toJson = .obj members ∧ ∀ member ∈ members, holds member.2 := by
  refine ⟨_, rfl, List.forall_mem_append.mpr ⟨?_, ?_⟩⟩
  · simp only [List.forall_mem_cons, between.1, between.2, text, List.not_mem_nil, false_implies,
      implies_true, and_self]
  · split
    · exact List.forall_mem_nil _
    · exact List.forall_mem_singleton.mpr steps

theorem legible_toJson (known : conflict.Between fun value => value.legible = true) :
    conflict.toJson.legible = true := by
  obtain ⟨members, shape, legible⟩ := forall_mem_toJson known Json.legible_str <| by
    refine Json.legible_arr.mpr fun item listed => ?_
    obtain ⟨step, _, rfl⟩ := List.mem_map.mp listed
    rfl
  rw [shape, Json.legible_obj]
  exact legible

theorem nesting_toJson_le {depth : Nat} (shallow : conflict.Between fun value => value.nesting ≤ depth)
    (enough : 2 ≤ depth) : conflict.toJson.nesting ≤ depth + 1 := by
  obtain ⟨members, shape, bounded⟩ := forall_mem_toJson shallow (fun _ => Nat.zero_le depth) <| by
    refine Json.nesting_arr_le_iff.mpr ⟨depth - 1, by omega, fun item listed => ?_⟩
    obtain ⟨step, _, rfl⟩ := List.mem_map.mp listed
    exact Nat.le_sub_one_of_lt enough
  rw [shape, Json.nesting_obj_le_iff]
  exact ⟨depth, rfl, bounded⟩

end PolicyConflict

namespace CommandLine

variable {outcome : EffectiveOutcome}

theorem legible_report (known : outcome.policy.values.legible = true)
    (shown : ∀ conflict ∈ outcome.conflicts, conflict.Between fun value => value.legible = true) :
    (EffectiveReport.computed outcome).toJson.legible = true := by
  have conflicts : (Json.arr (outcome.conflicts.map PolicyConflict.toJson)).legible = true := by
    refine Json.legible_arr.mpr fun item listed => ?_
    obtain ⟨conflict, found, rfl⟩ := List.mem_map.mp listed
    exact PolicyConflict.legible_toJson (shown conflict found)
  simp only [EffectiveReport.toJson, Json.legible_obj, List.forall_mem_cons, conflicts,
    EffectivePolicy.legible_toJson known, Json.legible_str, List.not_mem_nil, false_implies,
    implies_true, and_self]

theorem nesting_report_le {depth : Nat} (enough : 2 ≤ depth)
    (shallow : outcome.policy.values.nesting ≤ depth + 1)
    (shown : ∀ conflict ∈ outcome.conflicts, conflict.Between fun value => value.nesting < depth + 1) :
    (EffectiveReport.computed outcome).toJson.nesting ≤ depth + 3 := by
  have conflicts : (Json.arr (outcome.conflicts.map PolicyConflict.toJson)).nesting ≤ depth + 2 := by
    refine Json.nesting_arr_le_iff.mpr ⟨depth + 1, rfl, fun item listed => ?_⟩
    obtain ⟨conflict, found, rfl⟩ := List.mem_map.mp listed
    have below := shown conflict found
    exact PolicyConflict.nesting_toJson_le
      ⟨Nat.le_of_lt_succ below.1, Nat.le_of_lt_succ below.2⟩ enough
  refine Json.nesting_obj_le_iff.mpr ⟨depth + 2, rfl, ?_⟩
  exact List.forall_mem_cons.mpr ⟨Nat.zero_le _, List.forall_mem_cons.mpr
    ⟨EffectivePolicy.nesting_toJson_le shallow (by omega), List.forall_mem_singleton.mpr conflicts⟩⟩

/-! ## Loading -/

variable {files : Files} {path text : String}

theorem loadEffective_of_parse? {document : Json} (json : isYaml path = false)
    (given : files path = some text) (parsed : Json.parse? .any text = some document) :
    loadEffective files path =
      (EffectivePolicy.ofJson (unwrapped "policy" document.normalized)).mapError
        (.notEffectivePolicy path) := by
  have loaded : loadValue files path = .ok document.normalized := by
    simp [loadValue, load, given, json, readJson?, parsed, Wire.value, Except.toOption]
  simp only [loadEffective, loaded]
  rfl

theorem unwrapped_policy (policy : EffectivePolicy) :
    unwrapped "policy" policy.toJson.normalized = policy.toJson.normalized := by
  have absent : policy.toJson.normalized.member? "policy" = none := by
    rw [EffectivePolicy.toJson_eq, Json.normalized, Json.member?]
    exact Json.find?_normalizedMembers (by simp [EffectivePolicy.recordMembers]) "policy"
  rw [unwrapped, absent, Option.getD_none]

theorem unwrapped_report (outcome : EffectiveOutcome) :
    unwrapped "policy" (EffectiveReport.computed outcome).toJson.normalized
      = outcome.policy.toJson.normalized := by
  have present : (EffectiveReport.computed outcome).toJson.normalized.member? "policy"
      = some outcome.policy.toJson.normalized := by
    rw [EffectiveReport.toJson, Json.normalized, Json.member?]
    exact Json.find?_normalizedMembers (by simp) "policy"
  rw [unwrapped, present, Option.getD_some]

/-- The documents that hold the policy of an outcome: its own record, and the report of the
computation. Text is read up to a depth of nesting, and a conflict that the report shows may be
about floats. -/
inductive Presents (outcome : EffectiveOutcome) : Json → Prop where
  | policy : outcome.policy.toJson.nesting ≤ Json.nestingMax →
      Presents outcome outcome.policy.toJson
  | report : (EffectiveReport.computed outcome).toJson.nesting ≤ Json.nestingMax →
      (∀ conflict ∈ outcome.conflicts, conflict.Between fun value => value.floatFree = true) →
      Presents outcome (EffectiveReport.computed outcome).toJson

theorem loadEffective_eq_ok_iff {document : Json} (json : isYaml path = false)
    (given : files path = some text) (laid : document.IsLaidOut text)
    (presents : Presents outcome document) (known : outcome.policy.values.WellFormed)
    (free : outcome.policy.values.floatFree = true)
    (shown : ∀ conflict ∈ outcome.conflicts, conflict.Between Json.WellFormed)
    (plain : ∀ field ∈ outcome.policy.provenance.keys, field.IsPlain) :
    loadEffective files path = .ok outcome.policy ↔ outcome.policy.blankField? = none := by
  have legible := Json.legible_of_wellFormed known free
  have found : ∃ document, Json.parse? .any text = some document ∧
      unwrapped "policy" document.normalized = outcome.policy.toJson.normalized := by
    refine ⟨document, ?_⟩
    cases presents with
    | policy shallow =>
        exact ⟨Json.parse?_of_isLaidOut (EffectivePolicy.legible_toJson legible) shallow laid,
          unwrapped_policy outcome.policy⟩
    | report shallow freeShown =>
        have legibleShown := legible_report legible fun conflict listed =>
          ⟨Json.legible_of_wellFormed (shown conflict listed).1 (freeShown conflict listed).1,
            Json.legible_of_wellFormed (shown conflict listed).2 (freeShown conflict listed).2⟩
        exact ⟨Json.parse?_of_isLaidOut legibleShown shallow laid, unwrapped_report outcome⟩
  obtain ⟨document, parsed, inside⟩ := found
  rw [loadEffective_of_parse? json given parsed, inside,
    ← EffectivePolicy.ofJson_normalized_toJson_iff known plain]
  cases EffectivePolicy.ofJson outcome.policy.toJson.normalized <;> simp [Except.mapError]

theorem isLaidOut_render (config : Config) (report : EffectiveReport) :
    report.toJson.IsLaidOut ((Report.effective report).render config ++ "\n") := by
  have blank : Json.Blank "\n".toList := List.forall_mem_singleton.mpr rfl
  refine ⟨"\n".toList, blank, ?_⟩
  have rendered : (Report.effective report).render config =
      if config.output.pretty then report.toJson.indented else report.toJson.compact := rfl
  rw [String.toList_append, rendered]
  split
  · exact .inr rfl
  · exact .inl rfl

end CommandLine

namespace InheritanceSettings

open CommandLine

/-- A computed policy is read back from its record, and from a file that holds the record or the
report of the computation, unless a field on record is a key of blanks. Its values have the digest
on record. What is computed from policies that are nested no deeper than a file of policies can be
is not nested too deep to be read. -/
theorem compute_readsBack (conflictPolicy : ConflictPolicy) (target : ScopeId) (chain : List Scope)
    (policies : List ScopedPolicy) (outcome : EffectiveOutcome)
    (known : ∀ policy ∈ policies, policy.WellFormed)
    (computed : compute { conflicts := conflictPolicy } target chain policies = .ok outcome) :
    (EffectivePolicy.ofJson outcome.policy.toJson = match outcome.policy.blankField? with
      | none => .ok outcome.policy
      | some field => .error (.invalidFieldPath field.display .blank)) ∧
    (∀ field, outcome.policy.blankField? = some field →
      ∃ key, field = .ofKeys [key] ∧ Text.isBlankText key = true) ∧
    outcome.policy.verify = .ok true ∧
    (∀ files path text document, isYaml path = false → files path = some text →
      document.IsLaidOut text → Presents outcome document →
      (loadEffective files path = .ok outcome.policy ↔ outcome.policy.blankField? = none)) ∧
    ((∀ policy ∈ policies, policy.Shallow 125) →
      outcome.policy.toJson.nesting ≤ Json.nestingMax ∧
        (EffectiveReport.computed outcome).toJson.nesting ≤ Json.nestingMax) := by
  obtain ⟨wellFormed, shown⟩ := wellFormed_of_compute known computed
  have plain := isPlain_of_compute computed
  refine ⟨EffectivePolicy.ofJson_toJson wellFormed plain, fun _ =>
    EffectivePolicy.eq_of_blankField? plain, ?_, ?_, fun shallow => ?_⟩
  · rw [EffectivePolicy.verify, EffectivePolicy.verifyWith, digest_of_compute computed, Except.map,
      beq_self_eq_true]
  · intro files path text document json given laid presents
    exact loadEffective_eq_ok_iff json given laid presents wellFormed
      (floatFree_of_compute computed) shown plain
  · obtain ⟨values, conflicts⟩ := nesting_of_compute (by decide) shallow computed
    exact ⟨(EffectivePolicy.nesting_toJson_le values (by decide)).trans (by decide),
      nesting_report_le (by decide) values conflicts⟩

theorem shallow_thresholdPolicies : ∀ policy ∈ thresholdPolicies, policy.Shallow 125 :=
  List.forall_mem_cons.mpr ⟨ScopedPolicy.shallow_ofRules (by decide),
    List.forall_mem_singleton.mpr (ScopedPolicy.shallow_ofRules (by decide))⟩

theorem wellFormed_thresholdPolicies : ∀ policy ∈ thresholdPolicies, policy.WellFormed :=
  List.forall_mem_cons.mpr ⟨ScopedPolicy.wellFormed_ofRules (by decide),
    List.forall_mem_singleton.mpr (ScopedPolicy.wellFormed_ofRules (by decide))⟩

theorem filled_thresholdPolicies : ∃ outcome,
    compute {} brandScope.id brandChain thresholdPolicies = .ok outcome ∧
      outcome.policy.blankField? = none ∧
      ∀ conflict ∈ outcome.conflicts, conflict.Between fun value => value.floatFree = true := by
  obtain ⟨state, applied, settled, free, filled, shown⟩ : ∃ state,
      InheritanceSettings.applyAll {} thresholdPolicies {} = .ok state ∧
        state.incompatible? = none ∧ state.document.floatFree = true ∧
        (state.provenance.keys.find? fun field => Text.isBlankText field.display) = none ∧
        ∀ conflict ∈ state.conflicts,
          conflict.parentValue.floatFree = true ∧ conflict.childValue.floatFree = true :=
    ⟨_, rfl, by decide, by decide, by decide, by decide⟩
  obtain ⟨outcome, computed, _, provenance, conflicts⟩ :=
    compute_brandChain rfl rfl applied settled free
  refine ⟨outcome, computed, ?_, conflicts ▸ shown⟩
  rw [EffectivePolicy.blankField?, provenance, filled]

/-- What a brand computes is loaded from the file that it was printed to. -/
theorem compute_readsBack_thresholdPolicies : ∃ outcome,
    compute {} brandScope.id brandChain thresholdPolicies = .ok outcome ∧
      EffectivePolicy.ofJson outcome.policy.toJson = .ok outcome.policy ∧
      loadEffective (fun _ => some ((Report.effective (.computed outcome)).render {} ++ "\n"))
        "effective.json" = .ok outcome.policy := by
  obtain ⟨outcome, computed, filled, shown⟩ := filled_thresholdPolicies
  obtain ⟨record, _, _, loaded, nested⟩ := compute_readsBack {} _ _ _ outcome
    wellFormed_thresholdPolicies computed
  refine ⟨outcome, computed, ?_, ?_⟩
  · rw [record, filled]
  · have laid := isLaidOut_render {} (.computed outcome)
    have presents : Presents outcome (EffectiveReport.computed outcome).toJson :=
      .report (nested shallow_thresholdPolicies).2 shown
    generalize (Report.effective (.computed outcome)).render {} ++ "\n" = text at laid ⊢
    exact (loaded (fun _ => some text) "effective.json" text _ (by decide) rfl laid presents).mpr
      filled

/-! ### A key of a single blank -/

def blankRules : ScopedPolicy := { companyApprovals with rules := .obj [(" ", .int 1)] }

/-- A rule under a blank key takes effect, but the policy cannot be read from its own record. -/
theorem blankRules_not_readBack : ¬ ∀ (target : ScopeId) (chain : List Scope)
    (policies : List ScopedPolicy) (outcome : EffectiveOutcome),
    (∀ policy ∈ policies, policy.WellFormed) →
    compute {} target chain policies = .ok outcome →
    EffectivePolicy.ofJson outcome.policy.toJson = .ok outcome.policy := by
  intro readsBack
  obtain ⟨state, applied, settled, free, blank⟩ : ∃ state,
      InheritanceSettings.applyAll {} [blankRules] {} = .ok state ∧
        state.incompatible? = none ∧ state.document.floatFree = true ∧
        (state.provenance.keys.find? fun field => Text.isBlankText field.display)
          = some (.ofKeys [" "]) :=
    ⟨_, rfl, by decide, by decide, by decide⟩
  obtain ⟨outcome, computed, _, provenance, _⟩ := @compute_of_applyAll {} companyScope.id
    [companyScope] [blankRules] _ _ (by decide) (applicationOrder_companyScope rfl) applied settled free
  have known : ∀ policy ∈ [blankRules], policy.WellFormed := by
    refine List.forall_mem_singleton.mpr ⟨by decide, fun overrides found => ?_⟩
    cases found
  have refused := EffectivePolicy.ofJson_toJson (wellFormed_of_compute known computed).1
    (isPlain_of_compute computed)
  have first : outcome.policy.blankField? = some (.ofKeys [" "]) := by
    rw [EffectivePolicy.blankField?, provenance, blank]
  rw [first, readsBack _ _ _ outcome known computed] at refused
  cases refused

end InheritanceSettings

end Governance
