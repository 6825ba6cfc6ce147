import Governance.Proofs.Effective.Coherence
import Governance.Proofs.Effective.Merged
import Governance.Proofs.Event.Document
import Governance.Proofs.Json.Distinct
import Governance.Proofs.Rule.Binding
import Governance.Proofs.Rule.Decision

/-!
# Rules that are inherited

Decision rules are declared as records along a chain, and merge as a set. A chain of policies that
merge therefore decides every event like the records that it declares, each of them once. Records
that differ but share an identifier stay side by side, and then no event is decided at all.
-/

set_option autoImplicit false

namespace Governance

/-! ## Declared records -/

namespace ScopedPolicy

def declaredRecords (policy : ScopedPolicy) : List Json :=
  match policy.rules.member? decisionRulesField with
  | some (.arr items) => items
  | _ => []

/-- Whether the rules of a policy declare no decision rules, or a list of records that can be read
as rules with different identifiers. -/
def ListsRules (policy : ScopedPolicy) : Prop :=
  policy.rules.member? decisionRulesField = none ∨
    ∃ (items : List Json) (rules : List PolicyRule),
      policy.rules.member? decisionRulesField = some (.arr items) ∧
      items.map PolicyRule.ofJson = rules.map .ok ∧ (rules.map PolicyRule.id).Nodup

theorem exists_reading {policy : ScopedPolicy} (lists : policy.ListsRules) {record : Json}
    (declared : record ∈ policy.declaredRecords) :
    ∃ rule, PolicyRule.ofJson record = .ok rule := by
  rcases lists with absent | ⟨items, rules, given, read, _⟩
  · rw [declaredRecords, absent] at declared
    cases declared
  · rw [declaredRecords, given] at declared
    obtain ⟨rule, _, same⟩ := List.mem_map.mp (read ▸ List.mem_map_of_mem declared)
    exact ⟨rule, same.symm⟩

end ScopedPolicy

namespace PolicyRule

theorem exists_map_ofJson {records : List Json}
    (each : ∀ record ∈ records, ∃ rule, PolicyRule.ofJson record = .ok rule) :
    ∃ rules : List PolicyRule, records.map PolicyRule.ofJson = rules.map .ok := by
  induction records with
  | nil => exact ⟨[], rfl⟩
  | cons record records ih =>
      obtain ⟨⟨rule, read⟩, each⟩ := List.forall_mem_cons.mp each
      obtain ⟨rules, rest⟩ := ih each
      exact ⟨rule :: rules, by rw [List.map_cons, List.map_cons, read, rest]⟩

theorem nodup_of_map_ofJson {records : List Json} {rules : List PolicyRule}
    (read : records.map PolicyRule.ofJson = rules.map .ok)
    (distinct : (rules.map PolicyRule.id).Nodup) : records.Nodup := by
  have readings : (rules.map (Except.ok : PolicyRule → Wire.Decoded PolicyRule)).Nodup :=
    distinct.of_map.map fun _ _ => Except.ok.inj
  rw [← read] at readings
  exact readings.of_map

theorem exists_map_ofJson_of_perm {records others : List Json} {rules : List PolicyRule}
    (read : others.map PolicyRule.ofJson = rules.map .ok) (perm : records.Perm others) :
    ∃ rearranged : List PolicyRule, records.map PolicyRule.ofJson = rearranged.map .ok ∧
      rearranged.Perm rules := by
  have readings : (records.map PolicyRule.ofJson).Perm (rules.map .ok) :=
    read ▸ perm.map PolicyRule.ofJson
  have composed := congrFun (congrFun (List.eq_map_comp_perm Except.ok) (records.map ofJson)) rules
  obtain ⟨rearranged, same, perm⟩ := composed.mpr readings
  exact ⟨rearranged, same, perm⟩

/-- An identifier that is found to repeat is that of two rules, counting those seen. -/
theorem two_le_count_of_firstRepeated? {seen : List RuleId} {rules : List PolicyRule} {id : RuleId}
    (repeated : firstRepeated? seen rules = some id) :
    2 ≤ seen.count id + (rules.map PolicyRule.id).count id := by
  induction rules generalizing seen with
  | nil => cases repeated
  | cons rule rules ih =>
      rw [firstRepeated?_cons] at repeated
      rw [List.map_cons, List.count_cons]
      split at repeated
      · rename_i listed
        cases repeated
        have counted := List.count_pos_iff.mpr listed
        simp
        omega
      · have counted := ih repeated
        rw [List.count_cons] at counted
        omega

end PolicyRule

theorem EffectivePolicy.decisionRules_of_read {policy : EffectivePolicy} {records : List Json}
    {rules : List PolicyRule} (listed : policy.ruleRecords? = some records)
    (read : records.map PolicyRule.ofJson = rules.map .ok) :
    policy.decisionRules = match PolicyRule.firstRepeated? [] rules with
      | some id => .error (.duplicateRuleId id)
      | none => .ok rules := by
  unfold ruleRecords? at listed
  unfold decisionRules
  generalize policy.values.member? decisionRulesField = found at listed ⊢
  cases found with
  | none =>
      cases listed
      obtain rfl : [] = rules := by simpa using read
      rfl
  | some found =>
      cases found with
      | null =>
          cases listed
          obtain rfl : [] = rules := by simpa using read
          rfl
      | arr items =>
          cases listed
          cases repeated : PolicyRule.firstRepeated? [] rules <;>
            simp only [PolicyRule.readFrom_eq_ok_iff.mpr read, repeated]
      | bool | int | float | str | obj => cases listed

/-! ## Gathering along a chain -/

/-- Whether the value of a set, or its absence, gathers the elements of declared lists: it holds
each of them, and none twice. -/
inductive Json.Gathers (all : List Json) : Option Json → Prop where
  | absent : all = [] → Gathers all none
  | present {items : List Json} : Represents all items → items.Nodup → Gathers all (some (.arr items))

theorem Json.Gathers.mergeInto {directive : FieldDirective} (union : directive.merge = .union)
    {all : List Json} {value : Option Json} (gathers : Gathers all value) {policy : ScopedPolicy}
    (lists : policy.ListsRules) :
    Gathers (all ++ policy.declaredRecords)
      (directive.mergeInto value (policy.rules.member? decisionRulesField)) := by
  rcases lists with absent | ⟨items, rules, given, read, distinct⟩
  · rw [ScopedPolicy.declaredRecords, absent, List.append_nil]
    cases gathers with
    | absent empty => exact .absent empty
    | present stands once => exact .present stands once
  · rw [ScopedPolicy.declaredRecords, given]
    cases gathers with
    | absent empty =>
        rw [empty]
        exact .present (.self items) (PolicyRule.nodup_of_map_ofJson read distinct)
    | @present inherited stands once =>
        have merged := Json.collapses_union inherited items
        rw [FieldDirective.mergeInto, union]
        exact .present ((stands.append items).trans merged.toRepresents)
          (Json.nodup_of_apart merged.apart)

theorem Json.Gathers.foldl {directive : FieldDirective} (union : directive.merge = .union)
    {policies : List ScopedPolicy} (lists : ∀ policy ∈ policies, policy.ListsRules)
    {all : List Json} {value : Option Json} (gathers : Gathers all value) :
    Gathers (all ++ policies.flatMap ScopedPolicy.declaredRecords)
      ((policies.map fun policy => policy.rules.member? decisionRulesField).foldl
        directive.mergeInto value) := by
  induction policies generalizing all value with
  | nil =>
      rw [List.flatMap_nil, List.append_nil]
      exact gathers
  | cons policy rest ih =>
      obtain ⟨lists, lists_rest⟩ := List.forall_mem_cons.mp lists
      rw [List.flatMap_cons, ← List.append_assoc]
      exact ih lists_rest (gathers.mergeInto union lists)

namespace InheritanceSettings

/-- The records that an effective policy inherits are the declared ones, each of them once. -/
theorem ruleRecords_of_compute {conflictPolicy : ConflictPolicy} {target : ScopeId}
    {chain : List Scope} {policies : List ScopedPolicy} {outcome : EffectiveOutcome}
    (known : ∀ policy ∈ policies, policy.WellFormed)
    (merging : ∀ policy ∈ policies, policy.mode = .merge)
    (plain : ∀ policy ∈ policies, policy.overrides = none)
    (lists : ∀ policy ∈ policies, policy.ListsRules)
    (computed : compute { conflicts := conflictPolicy } target chain policies = .ok outcome) :
    ∃ items, outcome.policy.ruleRecords? = some items ∧
      Json.Represents (policies.flatMap ScopedPolicy.declaredRecords) items ∧ items.Nodup ∧
      ∀ item ∈ items, item.floatFree = true := by
  obtain ⟨ordered, final, run⟩ := run_of_compute computed
  obtain ⟨directive, found, union⟩ : ∃ directive,
      FieldRegistry.standard.directiveForKeys? [decisionRulesField] = some directive ∧
        directive.merge = .union := ⟨_, rfl, rfl⟩
  have value := run.value?_of_merging found (FieldRegistry.standard_reachable found) known merging plain
  simp only [EffectivePolicy.value?, FieldPath.lookup?_topLevel] at value
  have gathers : Json.Gathers (ordered.flatMap ScopedPolicy.declaredRecords)
      (outcome.policy.values.member? decisionRulesField) := by
    rw [value]
    exact Json.Gathers.foldl union (fun policy listed => lists policy (run.mem_iff.mp listed))
      (.absent rfl)
  have same : ∀ record, record ∈ policies.flatMap ScopedPolicy.declaredRecords ↔
      record ∈ ordered.flatMap ScopedPolicy.declaredRecords := fun record =>
    (run.perm.flatMap_right _).mem_iff.symm
  generalize shape : outcome.policy.values.member? decisionRulesField = records at gathers
  cases gathers with
  | absent empty =>
      refine ⟨[], by rw [EffectivePolicy.ruleRecords?, shape], ?_, List.nodup_nil, by simp⟩
      rw [empty] at same
      exact (Json.Represents.self []).of_mem_iff same
  | @present items stands once =>
      refine ⟨items, by rw [EffectivePolicy.ruleRecords?, shape], stands.of_mem_iff same, once, ?_⟩
      have free : (Json.arr items).floatFree = true :=
        Json.floatFree_member? (floatFree_of_compute computed) shape
      exact Json.floatFree_arr.mp free

/-- Under the standard registry, a chain of policies that merge decides every event like the rules
of the records that it declares, each of them once and in any order; if two of those rules share an
identifier, no event is decided. -/
theorem resolve_inherited (conflictPolicy : ConflictPolicy) (target : ScopeId) (chain : List Scope)
    (policies : List ScopedPolicy) (outcome : EffectiveOutcome) (records : List Json)
    (known : ∀ policy ∈ policies, policy.WellFormed)
    (merging : ∀ policy ∈ policies, policy.mode = .merge)
    (plain : ∀ policy ∈ policies, policy.overrides = none)
    (lists : ∀ policy ∈ policies, policy.ListsRules)
    (computed : compute { conflicts := conflictPolicy } target chain policies = .ok outcome)
    (collapsed : Json.Collapses (policies.flatMap ScopedPolicy.declaredRecords) records) :
    ∃ rules : List PolicyRule, records.map PolicyRule.ofJson = rules.map .ok ∧
      ((rules.map PolicyRule.id).Nodup → ∀ (event : UsageEvent) (others : List PolicyRule),
        others.Perm rules → outcome.policy.resolve event = .ok (event.resolve others)) ∧
      (¬ (rules.map PolicyRule.id).Nodup → ∃ id, 2 ≤ (rules.map PolicyRule.id).count id ∧
        ∀ event : UsageEvent, outcome.policy.resolve event = .error (.duplicateRuleId id)) := by
  obtain ⟨items, listed, stands, once, free⟩ :=
    ruleRecords_of_compute known merging plain lists computed
  -- nothing with a float is ever computed, so records are equal only to themselves
  have perm : items.Perm records :=
    stands.perm_of_floatFree collapsed.toRepresents once (Json.nodup_of_apart collapsed.apart) free
  obtain ⟨rules, read⟩ := PolicyRule.exists_map_ofJson fun record given => by
    obtain ⟨policy, present, declared⟩ := List.mem_flatMap.mp (collapsed.listed given)
    exact ScopedPolicy.exists_reading (lists policy present) declared
  obtain ⟨inherited, read', rearranged⟩ := PolicyRule.exists_map_ofJson_of_perm read perm
  have decided := EffectivePolicy.decisionRules_of_read listed read'
  have ids := rearranged.map PolicyRule.id
  have fresh := @PolicyRule.firstRepeated?_eq_none_iff [] inherited
  refine ⟨rules, read, fun distinct event others perm' => ?_, fun repeats => ?_⟩
  · have distinct' := ids.nodup_iff.mpr distinct
    rw [fresh.mpr ⟨fun _ _ => List.not_mem_nil, distinct'⟩] at decided
    rw [EffectivePolicy.resolve, decided, Except.map,
      event.resolve_eq_of_perm (rearranged.trans perm'.symm) distinct']
  · cases repeated : PolicyRule.firstRepeated? [] inherited with
    | none => exact absurd (ids.nodup_iff.mp (fresh.mp repeated).2) repeats
    | some id =>
        have counted := PolicyRule.two_le_count_of_firstRepeated? repeated
        rw [List.count_nil, Nat.zero_add, ids.count_eq] at counted
        rw [repeated] at decided
        refine ⟨id, counted, fun event => ?_⟩
        rw [EffectivePolicy.resolve, decided]
        rfl

/-! ### Rules of a company and of a brand below it -/

def firstRecord : Json := EffectivePolicy.namedRecord "a" "first"

def secondRecord : Json := EffectivePolicy.namedRecord "b" "second"

def otherRecord : Json := EffectivePolicy.namedRecord "a" "other"

def firstRule : PolicyRule := ⟨UsageEvent.allowing.id, 1, true, .all [], ⟨.block, "first"⟩⟩

def secondRule : PolicyRule := ⟨UsageEvent.blocking.id, 1, true, .all [], ⟨.block, "second"⟩⟩

def otherRule : PolicyRule := ⟨UsageEvent.allowing.id, 1, true, .all [], ⟨.block, "other"⟩⟩

def companyRules : ScopedPolicy :=
  .ofRules companyApprovals.id companyScope.id .merge
    (.obj [(decisionRulesField, .arr [firstRecord])])

def brandRules (records : List Json) : ScopedPolicy :=
  .ofRules brandApprovals.id brandScope.id .merge (.obj [(decisionRulesField, .arr records)])

def brandRulesState (records : List Json) : MergeState :=
  applyLeaf {} (brandRules records) false (.ofKeys [decisionRulesField]) (.arr records)
    (some ⟨.arr [firstRecord], companyRules.source false⟩)
    { fields := ({} : SortedMap FieldPath MergedField).insert (.ofKeys [decisionRulesField])
        ⟨.arr [firstRecord], companyRules.source false⟩ }

theorem compute_brandRules {records all : List Json}
    (applied : applyAll {} [companyRules, brandRules records] {} = .ok (brandRulesState records))
    (compared : comparedOf {} (brandRules records) false (.ofKeys [decisionRulesField])
      (.arr records) ⟨.arr [firstRecord], companyRules.source false⟩ = .arr all)
    (looser : ConflictClassification.classify
      (FieldRegistry.standard.directive? (.ofKeys [decisionRulesField])) (.arr [firstRecord])
      (.arr all) = some .looser)
    (free : (brandRulesState records).document.floatFree = true) :
    ∃ outcome, compute {} brandScope.id brandChain [companyRules, brandRules records]
      = .ok outcome := by
  have difference : difference {} (.ofKeys [decisionRulesField]) (.arr [firstRecord]) (.arr all)
        = none ∨
      difference {} (.ofKeys [decisionRulesField]) (.arr [firstRecord]) (.arr all)
        = some .looser := by
    rw [InheritanceSettings.difference]
    split
    · exact .inl rfl
    · exact .inr looser
  have settled : (brandRulesState records).incompatible? = none := by
    rw [MergeState.incompatible?, brandRulesState, conflicts_applyLeaf, foundBy, compared]
    rcases difference with same | looser
    · rw [same]
      rfl
    · rw [looser]
      rfl
  obtain ⟨outcome, computed, _⟩ := compute_brandChain rfl rfl applied settled free
  exact ⟨outcome, computed⟩

theorem wellFormed_brandRules {records : List Json}
    (known : (Json.obj [(decisionRulesField, .arr records)]).WellFormed) :
    ∀ policy ∈ [companyRules, brandRules records], policy.WellFormed :=
  List.forall_mem_cons.mpr ⟨ScopedPolicy.wellFormed_ofRules (by decide),
    List.forall_mem_singleton.mpr (ScopedPolicy.wellFormed_ofRules known)⟩

theorem listsRules_brandRules {records : List Json} {rules : List PolicyRule}
    (read : records.map PolicyRule.ofJson = rules.map .ok)
    (distinct : (rules.map PolicyRule.id).Nodup) :
    ∀ policy ∈ [companyRules, brandRules records], policy.ListsRules :=
  List.forall_mem_cons.mpr
    ⟨.inr ⟨[firstRecord], [firstRule], rfl, rfl, by decide⟩,
      List.forall_mem_singleton.mpr (.inr ⟨records, rules, rfl, read, distinct⟩)⟩

/-- A rule that the brand repeats counts once, in either order; another rule with its identifier
leaves every event undecided. -/
theorem resolve_inherited_brandRules :
    (∃ outcome : EffectiveOutcome,
      compute {} brandScope.id brandChain [companyRules, brandRules [secondRecord, firstRecord]]
        = .ok outcome ∧
      ∀ event : UsageEvent,
        outcome.policy.resolve event = .ok (event.resolve [firstRule, secondRule]) ∧
        outcome.policy.resolve event = .ok (event.resolve [secondRule, firstRule])) ∧
    ∃ outcome : EffectiveOutcome,
      compute {} brandScope.id brandChain [companyRules, brandRules [otherRecord]] = .ok outcome ∧
      ∀ event : UsageEvent, outcome.policy.resolve event = .error (.duplicateRuleId firstRule.id) := by
  constructor
  · obtain ⟨outcome, computed⟩ := @compute_brandRules [secondRecord, firstRecord]
      [firstRecord, secondRecord] rfl (by decide) (by decide) (by decide)
    obtain ⟨rules, read, decided, _⟩ := resolve_inherited {} _ _ _ outcome
      [firstRecord, secondRecord] (wellFormed_brandRules (by decide)) (by decide) (by decide)
      (@listsRules_brandRules _ [secondRule, firstRule] rfl (by decide)) computed
      ⟨⟨by decide, by decide⟩, by decide⟩
    obtain rfl : [firstRule, secondRule] = rules :=
      (List.map_inj_right fun _ _ => Except.ok.inj).mp ((show _ = _ from rfl).trans read)
    exact ⟨outcome, computed, fun event =>
      ⟨decided (by decide) event _ (.refl _), decided (by decide) event _ (.swap _ _ _)⟩⟩
  · obtain ⟨outcome, computed⟩ := @compute_brandRules [otherRecord] [firstRecord, otherRecord] rfl
      (by decide) (by decide) (by decide)
    obtain ⟨rules, read, _, undecided⟩ := resolve_inherited {} _ _ _ outcome
      [firstRecord, otherRecord] (wellFormed_brandRules (by decide)) (by decide) (by decide)
      (@listsRules_brandRules _ [otherRule] rfl (by decide)) computed
      ⟨⟨by decide, by decide⟩, by decide⟩
    obtain rfl : [firstRule, otherRule] = rules :=
      (List.map_inj_right fun _ _ => Except.ok.inj).mp ((show _ = _ from rfl).trans read)
    obtain ⟨id, twice, failed⟩ := undecided (by decide)
    obtain rfl : id = firstRule.id := by
      have listed := List.count_pos_iff.mp (Nat.lt_of_lt_of_le Nat.two_pos twice)
      simpa [firstRule, otherRule] using listed
    exact ⟨outcome, computed, failed⟩

end InheritanceSettings

end Governance
