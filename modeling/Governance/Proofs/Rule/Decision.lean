import Governance.Proofs.Rule.Order
import Governance.Proofs.Sorting
import Governance.Proofs.Text.Bytes

/-!
# The rule that decides

Which rule decides an event, stated without the order in which rules are tried: a matching rule
that no other matching rule sorts before, the earliest in the list among those that tie with it.
The verdict is that of this rule, so rules that could not be it may come and go.
-/

set_option autoImplicit false

namespace Governance

namespace PolicyRule

def SortsBefore (rule other : PolicyRule) : Prop :=
  rule.priority < other.priority ∨
    (rule.priority = other.priority ∧ Text.bytes rule.id.text < Text.bytes other.id.text)

def Matches (event : UsageEvent) (rule : PolicyRule) : Prop :=
  rule.active = true ∧ rule.condition.evaluate event.document = true

/-- Whether a rule at some place of a list decides an event: it matches, no matching rule sorts
before it, and the matching rules in front of it sort after it. -/
def Decides (event : UsageEvent) (rules : List PolicyRule) (rule : PolicyRule) : Prop :=
  ∃ front back, rules = front ++ rule :: back ∧ rule.Matches event ∧
    (∀ other ∈ front, other.Matches event → rule.SortsBefore other) ∧
    ∀ other ∈ back, other.Matches event → ¬ other.SortsBefore rule

/-- Whether a rule has no say in the verdict that a list of rules gives: it is inactive, does not
match, or sorts after the rule that decides. -/
def HasNoSay (event : UsageEvent) (rules : List PolicyRule) (rule : PolicyRule) : Prop :=
  rule.active = false ∨ rule.condition.evaluate event.document = false ∨
    ∃ winner, Decides event rules winner ∧ winner.SortsBefore rule

variable {event : UsageEvent} {rules : List PolicyRule}

/-! ## Sorting before -/

theorem mayPrecede_iff_not_sortsBefore {rule other : PolicyRule} :
    mayPrecede rule other = true ↔ ¬ other.SortsBefore rule := by
  have ids : other.id < rule.id ↔ Text.bytes other.id.text < Text.bytes rule.id.text :=
    Text.lt_iff_bytes_lt
  rw [mayPrecede_iff, RankedBefore, SortsBefore, ← ids, not_or, not_and]
  constructor
  · intro ranked
    rcases ranked with less | ⟨same, notLess⟩
    · exact ⟨Int64.lt_asymm less, fun same => absurd (same ▸ less) (Int64.lt_irrefl)⟩
    · exact ⟨same ▸ Int64.lt_irrefl, fun _ => notLess⟩
  · intro outranked
    by_cases same : rule.priority = other.priority
    · exact .inr ⟨same, outranked.2 same.symm⟩
    · rcases Int64.lt_or_lt_of_ne same with less | greater
      · exact .inl less
      · exact absurd greater outranked.1

theorem not_sortsBefore_self (rule : PolicyRule) : ¬ rule.SortsBefore rule := by
  rw [← mayPrecede_iff_not_sortsBefore]
  simpa using mayPrecede_total rule rule

theorem not_sortsBefore_trans {first second third : PolicyRule}
    (notBefore : ¬ first.SortsBefore second) (notBefore' : ¬ second.SortsBefore third) :
    ¬ first.SortsBefore third := by
  rw [← mayPrecede_iff_not_sortsBefore] at *
  exact mayPrecede_trans _ _ _ notBefore' notBefore

theorem SortsBefore.asymm {rule other : PolicyRule} (before : rule.SortsBefore other) :
    ¬ other.SortsBefore rule := by
  intro after
  rcases Bool.or_eq_true_iff.mp (mayPrecede_total rule other) with first | second
  · exact mayPrecede_iff_not_sortsBefore.mp first after
  · exact mayPrecede_iff_not_sortsBefore.mp second before

/-- Rules of which neither sorts before the other agree in priority and identifier. -/
theorem key_eq_of_not_sortsBefore {rule other : PolicyRule}
    (notBefore : ¬ rule.SortsBefore other) (notAfter : ¬ other.SortsBefore rule) :
    (rule.priority, rule.id) = (other.priority, other.id) := by
  rw [← mayPrecede_iff_not_sortsBefore] at notBefore notAfter
  obtain ⟨samePriority, sameId⟩ := eq_of_mayPrecede notAfter notBefore
  exact Prod.ext samePriority sameId

/-! ## One rule decides -/

theorem Decides.mem {rule : PolicyRule} (decides : Decides event rules rule) : rule ∈ rules := by
  obtain ⟨front, back, rfl, _⟩ := decides
  exact List.mem_append_right _ List.mem_cons_self

theorem Decides.matches {rule : PolicyRule} (decides : Decides event rules rule) :
    rule.Matches event := by
  obtain ⟨_, _, _, holds, _⟩ := decides
  exact holds

theorem Decides.least {rule other : PolicyRule} (decides : Decides event rules rule)
    (listed : other ∈ rules) (holds : other.Matches event) : ¬ other.SortsBefore rule := by
  obtain ⟨front, back, rfl, _, earlier, later⟩ := decides
  rcases List.mem_append.mp listed with inFront | rest
  · exact (earlier other inFront holds).asymm
  · rcases List.mem_cons.mp rest with rfl | inBack
    · exact not_sortsBefore_self _
    · exact later other inBack holds

theorem exists_decides (matching : ∃ rule ∈ rules, rule.Matches event) :
    ∃ rule, Decides event rules rule := by
  induction rules with
  | nil =>
      obtain ⟨rule, listed, _⟩ := matching
      cases listed
  | cons rule rest ih =>
      by_cases later : ∃ other ∈ rest, other.Matches event
      · obtain ⟨winner, front, back, shape, holds, earlier, least⟩ := ih later
        have decides : Decides event rest winner := ⟨front, back, shape, holds, earlier, least⟩
        by_cases ahead : rule.Matches event ∧ ¬ winner.SortsBefore rule
        · -- the first rule is at least as early as the one that decides the others
          refine ⟨rule, [], rest, rfl, ahead.1, List.forall_mem_nil _, fun other listed holds' => ?_⟩
          exact not_sortsBefore_trans (decides.least listed holds') ahead.2
        · refine ⟨winner, rule :: front, back, congrArg (rule :: ·) shape, holds, ?_, least⟩
          intro other listed holds'
          rcases List.mem_cons.mp listed with rfl | listed
          · exact not_not.mp fun notBefore => ahead ⟨holds', notBefore⟩
          · exact earlier other listed holds'
      · obtain ⟨other, listed, holds⟩ := matching
        rcases List.mem_cons.mp listed with rfl | listed
        · exact ⟨other, [], rest, rfl, holds, List.forall_mem_nil _,
            fun another listed' holds' => absurd ⟨another, listed', holds'⟩ later⟩
        · exact absurd ⟨other, listed, holds⟩ later

/-! ## The order in which rules are tried -/

theorem mem_inOrder {rule : PolicyRule} : rule ∈ inOrder rules ↔ rule ∈ rules ∧ rule.active = true := by
  rw [inOrder, List.mem_mergeSort, List.mem_filter]

def tiesWith (event : UsageEvent) (winner rule : PolicyRule) : Bool :=
  rule.applies event.document && mayPrecede rule winner && mayPrecede winner rule

theorem tiesWith_iff {winner rule : PolicyRule} : tiesWith event winner rule = true ↔
    rule.applies event.document = true ∧ ¬ winner.SortsBefore rule ∧ ¬ rule.SortsBefore winner := by
  rw [tiesWith, Bool.and_eq_true, Bool.and_eq_true, mayPrecede_iff_not_sortsBefore,
    mayPrecede_iff_not_sortsBefore, and_assoc]

/-- Rules that may precede each other are tried in the order in which they are listed. -/
theorem filter_inOrder {keep : PolicyRule → Bool}
    (ties : ∀ rule other, keep rule = true → keep other = true → mayPrecede rule other = true) :
    (inOrder rules).filter keep = (rules.filter PolicyRule.active).filter keep := by
  rw [inOrder, filter_mergeSort mayPrecede_trans mayPrecede_total]
  refine List.mergeSort_of_pairwise (List.pairwise_of_forall_mem_list fun rule kept other kept' => ?_)
  exact ties rule other (List.mem_filter.mp kept).2 (List.mem_filter.mp kept').2

theorem filter_inOrder_tiesWith {winner : PolicyRule} :
    (inOrder rules).filter (tiesWith event winner)
      = (rules.filter PolicyRule.active).filter (tiesWith event winner) := by
  refine filter_inOrder fun rule other tied tied' => ?_
  obtain ⟨_, notBefore, _⟩ := tiesWith_iff.mp tied
  obtain ⟨_, _, notAfter⟩ := tiesWith_iff.mp tied'
  rw [mayPrecede_iff_not_sortsBefore]
  exact not_sortsBefore_trans notAfter notBefore

/-- Of the active rules that tie with the one that decides, it is listed first. -/
theorem find?_tiesWith_of_decides {winner : PolicyRule} (decides : Decides event rules winner) :
    (rules.filter PolicyRule.active).find? (tiesWith event winner) = some winner := by
  obtain ⟨front, back, rfl, holds, earlier, _⟩ := decides
  rw [List.find?_filter]
  refine List.find?_eq_some_iff_append.mpr ⟨?_, front, back, rfl, fun rule inFront => ?_⟩
  · have itself := tiesWith_iff.mpr
      ⟨holds.2, not_sortsBefore_self winner, not_sortsBefore_self winner⟩
    simp [holds.1, itself]
  · rw [Bool.not_eq_true', Bool.eq_false_iff]
    intro tied
    obtain ⟨active, ties⟩ := of_decide_eq_true tied
    obtain ⟨applies, notBefore, _⟩ := tiesWith_iff.mp ties
    exact notBefore (earlier rule inFront ⟨active, applies⟩)

/-- No rule that applies is tried ahead of the one that decides, unless it ties with it. -/
theorem tiesWith_of_find?_inOrder {winner first : PolicyRule} (decides : Decides event rules winner)
    (found : (inOrder rules).find? (·.applies event.document) = some first) :
    tiesWith event winner first = true := by
  obtain ⟨applies, before, after, shape, skipped⟩ := List.find?_eq_some_iff_append.mp found
  obtain ⟨listed, active⟩ := mem_inOrder.mp (List.mem_of_find?_eq_some found)
  refine tiesWith_iff.mpr ⟨applies, ?_, decides.least listed ⟨active, applies⟩⟩
  have tried : winner ∈ inOrder rules := mem_inOrder.mpr ⟨decides.mem, decides.matches.1⟩
  have sorted : (inOrder rules).Pairwise (mayPrecede · ·) :=
    List.pairwise_mergeSort mayPrecede_trans mayPrecede_total _
  rw [shape] at sorted tried
  rcases List.mem_append.mp tried with early | late
  · have unmatched := skipped winner early
    rw [Bool.not_eq_true'] at unmatched
    exact absurd decides.matches.2 (Bool.eq_false_iff.mp unmatched)
  · rcases List.mem_cons.mp late with rfl | late
    · exact not_sortsBefore_self _
    · rw [← mayPrecede_iff_not_sortsBefore]
      exact List.rel_of_pairwise_cons (List.pairwise_append.mp sorted).2.1 late

/-- The first rule that applies, in the order in which rules are tried, is the one that decides. -/
theorem find?_inOrder_of_decides {winner : PolicyRule} (decides : Decides event rules winner) :
    (inOrder rules).find? (·.applies event.document) = some winner := by
  have tried : winner ∈ inOrder rules := mem_inOrder.mpr ⟨decides.mem, decides.matches.1⟩
  cases found : (inOrder rules).find? (·.applies event.document) with
  | none => exact absurd decides.matches.2 (List.find?_eq_none.mp found winner tried)
  | some first =>
      -- both orders list the same rule first among those that tie with the deciding one
      obtain ⟨_, before, after, shape, skipped⟩ := List.find?_eq_some_iff_append.mp found
      have firstTried : (inOrder rules).find? (tiesWith event winner) = some first := by
        refine List.find?_eq_some_iff_append.mpr
          ⟨tiesWith_of_find?_inOrder decides found, before, after, shape, fun rule early => ?_⟩
        have unmatched := skipped rule early
        rw [Bool.not_eq_true'] at unmatched ⊢
        rw [tiesWith, unmatched, Bool.false_and, Bool.false_and]
      rw [← List.head?_filter, filter_inOrder_tiesWith, List.head?_filter,
        find?_tiesWith_of_decides decides] at firstTried
      exact firstTried.symm

theorem Decides.unique {rule other : PolicyRule} (decides : Decides event rules rule)
    (decides' : Decides event rules other) : rule = other :=
  Option.some.inj ((find?_inOrder_of_decides decides).symm.trans
    (find?_inOrder_of_decides decides'))

/-! ## Rules that have no say -/

/-- A matching rule that has no say sorts after the one that decides. -/
theorem HasNoSay.sortsAfter {rule : PolicyRule} (silent : HasNoSay event rules rule)
    (holds : rule.Matches event) : ∃ winner, Decides event rules winner ∧ winner.SortsBefore rule := by
  rcases silent with inactive | fails | after
  · exact absurd holds.1 (Bool.eq_false_iff.mp inactive)
  · exact absurd holds.2 (Bool.eq_false_iff.mp fails)
  · exact after

/-- The rule that decides a list of distinguishable rules decides every list that differs in order
and in rules that have no say. -/
theorem Decides.of_perm {others added removed : List PolicyRule} {winner : PolicyRule}
    (decides : Decides event rules winner)
    (distinct : ((rules.filter PolicyRule.active).map fun rule => (rule.priority, rule.id)).Nodup)
    (perm : (others ++ removed).Perm (rules ++ added))
    (silent : ∀ rule ∈ added ++ removed, HasNoSay event rules rule) :
    Decides event others winner := by
  have behind : ∀ rule ∈ added ++ removed, rule.Matches event → winner.SortsBefore rule := by
    intro rule listed holds
    obtain ⟨winner', decides', before⟩ := (silent rule listed).sortsAfter holds
    rw [decides.unique decides']
    exact before
  have ahead : ∀ rule ∈ others, rule.Matches event → rule = winner ∨ winner.SortsBefore rule := by
    intro rule listed holds
    rcases List.mem_append.mp (perm.mem_iff.mp (List.mem_append_left _ listed)) with kept | extra
    · by_cases before : winner.SortsBefore rule
      · exact .inr before
      · refine .inl (List.inj_on_of_nodup_map distinct ?_ ?_ ?_)
        · exact List.mem_filter.mpr ⟨kept, holds.1⟩
        · exact List.mem_filter.mpr ⟨decides.mem, decides.matches.1⟩
        · exact key_eq_of_not_sortsBefore (decides.least kept holds) before
    · exact .inr (behind rule (List.mem_append_left _ extra) holds)
  have kept : winner ∈ others := by
    rcases List.mem_append.mp (perm.mem_iff.mpr (List.mem_append_left _ decides.mem)) with kept | gone
    · exact kept
    · have before := behind winner (List.mem_append_right _ gone) decides.matches
      exact absurd before (not_sortsBefore_self winner)
  obtain ⟨front, back, rfl, fresh⟩ := List.eq_append_cons_of_mem kept
  refine ⟨front, back, rfl, decides.matches, fun rule inFront holds => ?_, fun rule inBack holds => ?_⟩
  · rcases ahead rule (List.mem_append_left _ inFront) holds with rfl | before
    · exact absurd inFront fresh
    · exact before
  · rcases ahead rule (List.mem_append_right _ (.tail _ inBack)) holds with rfl | before
    · exact not_sortsBefore_self _
    · exact before.asymm

theorem unmatched_of_perm {others added removed : List PolicyRule}
    (unmatched : ∀ rule ∈ rules, ¬ rule.Matches event)
    (perm : (others ++ removed).Perm (rules ++ added))
    (silent : ∀ rule ∈ added ++ removed, HasNoSay event rules rule) :
    ∀ rule ∈ others, ¬ rule.Matches event := by
  intro rule listed holds
  rcases List.mem_append.mp (perm.mem_iff.mp (List.mem_append_left _ listed)) with kept | extra
  · exact unmatched rule kept holds
  · obtain ⟨winner, decides, _⟩ := (silent rule (List.mem_append_left _ extra)).sortsAfter holds
    exact unmatched winner decides.mem decides.matches

end PolicyRule

namespace UsageEvent

open PolicyRule

/-! ## The verdict -/

theorem resolve_of_decides {event : UsageEvent} {rules : List PolicyRule} {winner : PolicyRule}
    (decides : Decides event rules winner) : event.resolve rules = event.verdictOf winner := by
  rw [resolve, find?_inOrder_of_decides decides]

theorem resolve_of_unmatched {event : UsageEvent} {rules : List PolicyRule}
    (unmatched : ∀ rule ∈ rules, ¬ rule.Matches event) : event.resolve rules = event.unmatched := by
  have none : (inOrder rules).find? (·.applies event.document) = none := by
    refine List.find?_eq_none.mpr fun rule tried applies => ?_
    obtain ⟨listed, active⟩ := mem_inOrder.mp tried
    exact unmatched rule listed ⟨active, applies⟩
  rw [resolve, none]

/-- Rules that have no say do not change the verdict, and neither does the order of the rules where
the active ones are told apart by priority and identifier. -/
theorem resolve_eq_of_hasNoSay {event : UsageEvent} {rules others added removed : List PolicyRule}
    (distinct : ((rules.filter PolicyRule.active).map fun rule => (rule.priority, rule.id)).Nodup)
    (perm : (others ++ removed).Perm (rules ++ added))
    (silent : ∀ rule ∈ added ++ removed, HasNoSay event rules rule) :
    event.resolve others = event.resolve rules := by
  by_cases matching : ∃ rule ∈ rules, rule.Matches event
  · obtain ⟨winner, decides⟩ := exists_decides matching
    rw [resolve_of_decides decides, resolve_of_decides (decides.of_perm distinct perm silent)]
  · have unmatched : ∀ rule ∈ rules, ¬ rule.Matches event :=
      fun rule listed holds => matching ⟨rule, listed, holds⟩
    rw [resolve_of_unmatched unmatched,
      resolve_of_unmatched (unmatched_of_perm unmatched perm silent)]

/-- The verdict is that of the rule that decides, and a review is required where no rule matches.
So it does not depend on rules that have no say, nor on the order in which distinguishable rules
are listed. -/
theorem resolve_leastMatch (event : UsageEvent) (rules : List PolicyRule) :
    (event.resolve rules).snapshot = event.context.snapshot ∧
    ((∀ rule ∈ rules, ¬ rule.Matches event) →
      event.resolve rules
        = ⟨.requiresReview, "no matching rule", none, event.context.snapshot⟩) ∧
    ((∃ rule ∈ rules, rule.Matches event) → ∃ winner, Decides event rules winner) ∧
    (∀ winner, Decides event rules winner →
      event.resolve rules
        = ⟨winner.decision.status, winner.decision.reason, some winner.id,
            event.context.snapshot⟩) ∧
    (((rules.filter PolicyRule.active).map fun rule => (rule.priority, rule.id)).Nodup →
      ∀ others added removed, (others ++ removed).Perm (rules ++ added) →
        (∀ rule ∈ added ++ removed, HasNoSay event rules rule) →
          event.resolve others = event.resolve rules) := by
  refine ⟨?_, resolve_of_unmatched, exists_decides, fun winner => resolve_of_decides,
    fun distinct others added removed => resolve_eq_of_hasNoSay distinct⟩
  rw [resolve]
  split <;> rfl

/-! ### Two rules of one priority -/

def blocking : PolicyRule := ⟨⟨"b", by decide⟩, 1, true, .all [], ⟨.block, "not released"⟩⟩

def allowing : PolicyRule := ⟨⟨"a", by decide⟩, 1, true, .all [], ⟨.allow, "released"⟩⟩

theorem resolve_leastMatch_allowing :
    publication.resolve [blocking, allowing]
        = ⟨.allow, "released", some allowing.id, publication.context.snapshot⟩ ∧
      publication.resolve [allowing] = publication.resolve [blocking, allowing] := by
  have before : allowing.SortsBefore blocking := .inr ⟨rfl, Text.lt_iff_bytes_lt.mp (by decide)⟩
  have decides : Decides publication [blocking, allowing] allowing := by
    refine ⟨[blocking], [], rfl, ⟨rfl, rfl⟩, fun other listed _ => ?_, List.forall_mem_nil _⟩
    rw [List.mem_singleton.mp listed]
    exact before
  obtain ⟨_, _, _, verdict, stable⟩ := resolve_leastMatch publication [blocking, allowing]
  refine ⟨verdict allowing decides, stable (by decide) [allowing] [] [blocking] ?_ ?_⟩
  · exact .swap blocking allowing []
  · intro rule listed
    rw [List.mem_singleton.mp listed]
    exact .inr (.inr ⟨allowing, decides, before⟩)

end UsageEvent

end Governance
