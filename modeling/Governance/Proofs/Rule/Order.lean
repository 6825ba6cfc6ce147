import Mathlib.Data.List.Nodup
import Mathlib.Data.List.Perm.Basic
import Governance.Proofs.SortedMap.Ranked
import Governance.Rule.Resolution

/-!
# The order of rules does not matter

Rules are tried by priority and identifier. Where no two of them agree in both, the order in which
they are tried, and with it the verdict, is the same for every way of listing them. Reading a list
of records as rules does not depend on their order either, except for which error is reported.
-/

set_option autoImplicit false

namespace Governance

namespace PolicyRule

/-! ## The order in which rules are tried -/

theorem mayPrecede_iff {left right : PolicyRule} :
    mayPrecede left right = true ↔
      RankedBefore (· < ·) left.priority left.id right.priority right.id := by
  simp [mayPrecede, RankedBefore]

theorem mayPrecede_trans (a b c : PolicyRule) (first : mayPrecede a b = true)
    (second : mayPrecede b c = true) : mayPrecede a c = true := by
  rw [mayPrecede_iff] at *
  exact rankedBefore_trans first second fun _ _ _ => Int64.lt_trans

theorem mayPrecede_total (a b : PolicyRule) : (mayPrecede a b || mayPrecede b a) = true := by
  rw [Bool.or_eq_true, mayPrecede_iff, mayPrecede_iff]
  exact rankedBefore_total (fun _ _ => Int64.lt_or_lt_of_ne) _ _ _ _

theorem eq_of_mayPrecede {a b : PolicyRule} (first : mayPrecede a b = true)
    (second : mayPrecede b a = true) : a.priority = b.priority ∧ a.id = b.id := by
  rw [mayPrecede_iff] at *
  exact eq_of_rankedBefore first second (fun _ => Int64.lt_irrefl) fun _ _ _ => Int64.lt_trans

/-- Rules that are told apart by priority and identifier are tried in one order, however they are
listed. -/
theorem inOrder_eq_of_perm {rules others : List PolicyRule} (perm : rules.Perm others)
    (distinct : ∀ a ∈ rules, ∀ b ∈ rules, a.priority = b.priority → a.id = b.id → a = b) :
    inOrder rules = inOrder others := by
  have sorted : ∀ list : List PolicyRule, (inOrder list).Pairwise (mayPrecede · ·) := fun list =>
    List.pairwise_mergeSort mayPrecede_trans mayPrecede_total _
  have listed : ∀ {list : List PolicyRule} {rule : PolicyRule}, rule ∈ inOrder list → rule ∈ list :=
    fun member => (List.mem_filter.mp ((List.mergeSort_perm _ _).mem_iff.mp member)).1
  refine List.Perm.eq_of_pairwise (fun a b left right first second => ?_) (sorted _) (sorted _) ?_
  · obtain ⟨samePriority, sameId⟩ := eq_of_mayPrecede first second
    exact distinct a (listed left) b (perm.mem_iff.mpr (listed right)) samePriority sameId
  · exact (List.mergeSort_perm _ _).trans
      ((perm.filter _).trans (List.mergeSort_perm _ _).symm)

/-! ## Reading a list of rules -/

theorem readFrom_eq_ok_iff {index : Nat} {items : List Json} {rules : List PolicyRule} :
    readFrom index items = .ok rules ↔ items.map PolicyRule.ofJson = rules.map .ok := by
  induction items generalizing index rules with
  | nil => cases rules <;> simp [readFrom]
  | cons item items ih =>
      rw [readFrom, List.map_cons]
      cases read : PolicyRule.ofJson item with
      | error cause => cases rules <;> simp
      | ok rule =>
          cases rest : readFrom (index + 1) items with
          | error problem =>
              cases rules with
              | nil => simp [Except.map]
              | cons first others =>
                  have unread : ¬ items.map PolicyRule.ofJson = others.map .ok := fun same =>
                    nomatch rest.symm.trans (ih.mpr same)
                  simp only [Except.map, List.map_cons, List.cons.injEq, reduceCtorEq, false_iff]
                  exact fun same => unread same.2
          | ok others =>
              have same := ih.mp rest
              cases rules with
              | nil => simp [Except.map]
              | cons first rules =>
                  simp only [Except.map, Except.ok.injEq, List.cons.injEq, List.map_cons, same]
                  refine and_congr_right fun _ => ⟨fun equal => by rw [equal], fun equal => ?_⟩
                  exact (List.map_inj_right fun _ _ => Except.ok.inj).mp equal

theorem firstRepeated?_cons (seen : List RuleId) (rule : PolicyRule) (rest : List PolicyRule) :
    firstRepeated? seen (rule :: rest) =
      if rule.id ∈ seen then some rule.id else firstRepeated? (rule.id :: seen) rest := rfl

theorem firstRepeated?_eq_none_iff {seen : List RuleId} {rules : List PolicyRule} :
    firstRepeated? seen rules = none ↔
      (∀ rule ∈ rules, rule.id ∉ seen) ∧ (rules.map PolicyRule.id).Nodup := by
  induction rules generalizing seen with
  | nil =>
      constructor
      · exact fun _ => ⟨fun _ listed => absurd listed List.not_mem_nil, List.nodup_nil⟩
      · exact fun _ => rfl
  | cons rule rules ih =>
      rw [firstRepeated?_cons]
      split
      · rename_i repeated
        simp [repeated]
      · rename_i fresh
        simp only [ih, List.mem_cons, List.map_cons, List.nodup_cons, List.mem_map, not_exists,
          not_and, not_or, forall_eq_or_imp, fresh, not_false_eq_true, true_and, forall_and]
        exact ⟨fun ⟨⟨apart, unseen⟩, distinct⟩ => ⟨unseen, apart, distinct⟩,
          fun ⟨unseen, apart, distinct⟩ => ⟨⟨apart, unseen⟩, distinct⟩⟩

end PolicyRule

/-- The verdict does not depend on how rules with different identifiers are listed. -/
theorem UsageEvent.resolve_eq_of_perm {rules others : List PolicyRule} (event : UsageEvent)
    (perm : rules.Perm others) (distinct : (rules.map PolicyRule.id).Nodup) :
    event.resolve rules = event.resolve others := by
  have sameOrder := PolicyRule.inOrder_eq_of_perm perm fun a left b right _ sameId =>
    List.inj_on_of_nodup_map distinct left right sameId
  rw [UsageEvent.resolve, UsageEvent.resolve, sameOrder]

def UsageEvent.publication : UsageEvent :=
  { actor := ⟨"designer"⟩
    tool := ⟨"editor", "Editor", "1.0.0"⟩
    action := ⟨.publish⟩
    context := ⟨⟨"tenant", by decide⟩, ⟨"enterprise", by decide⟩, none, none, none,
      ⟨"snapshot", by decide⟩⟩
    content := none }

end Governance
