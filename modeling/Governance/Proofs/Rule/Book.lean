import Governance.Proofs.Rule.Decision
import Governance.Proofs.SortedMap.Lookup
import Governance.Rule.Book
import Mathlib.Data.List.Induction

/-!
# Rule books over time

A rule book holds, under every identifier, what the last change of that identifier left. It decides
events like any listing of the rules that are left, and an explanation lists the rules that are
tried with the rule that decides as the first one that matched.
-/

set_option autoImplicit false

namespace Governance

namespace RuleBook

inductive Change where
  | register (rule : PolicyRule)
  | unregister (id : RuleId)
  deriving DecidableEq

def Change.id : Change → RuleId
  | .register rule => rule.id
  | .unregister id => id

def Change.rule? : Change → Option PolicyRule
  | .register rule => some rule
  | .unregister _ => none

def change (book : RuleBook) : Change → RuleBook × Option PolicyRule
  | .register rule => book.register rule
  | .unregister id => book.unregister id

def changeAll (book : RuleBook) : List Change → RuleBook × List (Option PolicyRule)
  | [] => (book, [])
  | next :: rest =>
    let (changed, previous) := book.change next
    let (final, others) := changed.changeAll rest
    (final, previous :: others)

/-- What the last change of an identifier left, in a book that was empty at first. -/
def lastWritten (history : List Change) (id : RuleId) : Option PolicyRule :=
  (history.reverse.find? fun change => change.id = id).bind Change.rule?

structure Survivors (history : List Change) (rules : List PolicyRule) : Prop where
  once : rules.Nodup
  mem_iff : ∀ rule, rule ∈ rules ↔ lastWritten history rule.id = some rule

variable {history : List Change}

/-! ## What was written last -/

theorem lastWritten_concat (history : List Change) (last : Change) (id : RuleId) :
    lastWritten (history ++ [last]) id
      = if last.id = id then last.rule? else lastWritten history id := by
  rw [lastWritten, List.reverse_concat, List.find?_cons]
  by_cases same : last.id = id
  · simp [same]
  · simp [same, lastWritten]

theorem id_of_lastWritten {id : RuleId} {rule : PolicyRule}
    (written : lastWritten history id = some rule) : rule.id = id := by
  obtain ⟨change, found, left⟩ := Option.bind_eq_some_iff.mp written
  have about : change.id = id := by simpa using List.find?_some found
  cases change with
  | register registered =>
      cases left
      exact about
  | unregister => cases left

/-! ## Changes -/

theorem find?_change (book : RuleBook) (next : Change) (id : RuleId) :
    (book.change next).1.find? id = if next.id = id then next.rule? else book.find? id := by
  cases next with
  | register rule => exact SortedMap.find?_insert book.rules rule.id id rule
  | unregister erased => exact SortedMap.find?_erase book.rules erased id

theorem previous_change (book : RuleBook) (next : Change) :
    (book.change next).2 = book.find? next.id := by
  cases next <;> rfl

theorem changeAll_concat (book : RuleBook) (history : List Change) (last : Change) :
    book.changeAll (history ++ [last]) =
      (((book.changeAll history).1.change last).1,
        (book.changeAll history).2 ++ [((book.changeAll history).1.change last).2]) := by
  induction history generalizing book with
  | nil => rfl
  | cons next rest ih => simp only [List.cons_append, changeAll, ih]

theorem find?_changeAll (history : List Change) (id : RuleId) :
    (changeAll {} history).1.find? id = lastWritten history id := by
  -- from the end of the history, because its last change decides
  induction history using List.reverseRecOn with
  | nil => rfl
  | append_singleton history last ih =>
      rw [changeAll_concat, find?_change, lastWritten_concat, ih]

/-- Every change returns what the changes in front of it left under its identifier. -/
theorem previous_changeAll (history : List Change) :
    (changeAll {} history).2
      = history.mapIdx fun place next => lastWritten (history.take place) next.id := by
  induction history using List.reverseRecOn with
  | nil => rfl
  | append_singleton history last ih =>
      rw [changeAll_concat, List.mapIdx_concat, previous_change, find?_changeAll, ih,
        List.take_left]
      refine congrArg (· ++ _) (List.mapIdx_eq_mapIdx_iff.mpr fun place inside => ?_)
      rw [List.take_append_of_le_length (Nat.le_of_lt inside)]

/-! ## Listing -/

theorem pairwise_toList (history : List Change) :
    (changeAll {} history).1.toList.Pairwise fun earlier later =>
      Text.bytes earlier.id.text < Text.bytes later.id.text := by
  rw [toList, SortedMap.values, List.pairwise_map]
  have named : ∀ entry ∈ (changeAll {} history).1.rules.entries, entry.2.id = entry.1 := by
    intro entry listed
    have found := SortedMap.find?_eq_some_iff.mpr listed
    exact id_of_lastWritten ((find?_changeAll history entry.1).symm.trans found)
  refine (changeAll {} history).1.rules.ascending.imp_of_mem fun {earlier later} first second less => ?_
  rw [named earlier first, named later second]
  exact Text.lt_iff_bytes_lt.mp less

theorem mem_toList_iff (history : List Change) (rule : PolicyRule) :
    rule ∈ (changeAll {} history).1.toList ↔ lastWritten history rule.id = some rule := by
  have found : ∀ id, (changeAll {} history).1.rules.find? id = lastWritten history id :=
    find?_changeAll history
  rw [toList, SortedMap.mem_values_iff]
  simp only [found]
  constructor
  · rintro ⟨id, written⟩
    rw [id_of_lastWritten written]
    exact written
  · exact fun written => ⟨rule.id, written⟩

theorem survivors_toList (history : List Change) :
    Survivors history (changeAll {} history).1.toList := by
  refine ⟨(pairwise_toList history).imp ?_, mem_toList_iff history⟩
  rintro earlier _ less rfl
  exact List.lt_irrefl _ less

theorem Survivors.perm {rules : List PolicyRule} (survivors : Survivors history rules) :
    rules.Perm (changeAll {} history).1.toList :=
  (List.perm_ext_iff_of_nodup survivors.once (survivors_toList history).once).mpr fun rule =>
    (survivors.mem_iff rule).trans (mem_toList_iff history rule).symm

theorem Survivors.length_eq {rules : List PolicyRule} (survivors : Survivors history rules) :
    (changeAll {} history).1.size = rules.length := by
  rw [survivors.perm.length_eq, toList, SortedMap.values, List.length_map]
  rfl

theorem Survivors.resolve_eq {rules : List PolicyRule} (survivors : Survivors history rules)
    (event : UsageEvent) : (changeAll {} history).1.resolve event = event.resolve rules := by
  have distinct : ((changeAll {} history).1.toList.map PolicyRule.id).Nodup := by
    refine List.pairwise_map.mpr ((pairwise_toList history).imp ?_)
    intro earlier later less same
    rw [same] at less
    exact List.lt_irrefl _ less
  exact event.resolve_eq_of_perm survivors.perm.symm distinct

end RuleBook

/-! ## Explanations -/

namespace PolicyRule

/-- Whether a list holds the active rules of another one in the order in which they are tried: no
rule comes after one that it sorts before, and rules with one priority and one identifier stay in
the order in which they are listed. -/
structure Tried (rules tried : List PolicyRule) : Prop where
  active : tried.Perm (rules.filter PolicyRule.active)
  ascends : tried.Pairwise fun earlier later => ¬ later.SortsBefore earlier
  stable : ∀ priority id,
    tried.filter (fun rule => rule.priority = priority ∧ rule.id = id)
      = (rules.filter PolicyRule.active).filter fun rule => rule.priority = priority ∧ rule.id = id

theorem tried_inOrder (rules : List PolicyRule) : Tried rules (inOrder rules) where
  active := List.mergeSort_perm _ _
  ascends := by
    have sorted := List.pairwise_mergeSort mayPrecede_trans mayPrecede_total
      (rules.filter PolicyRule.active)
    exact sorted.imp fun {earlier later} => mayPrecede_iff_not_sortsBefore.mp
  stable priority id := by
    refine filter_inOrder fun rule other first second => ?_
    obtain ⟨samePriority, sameId⟩ := of_decide_eq_true first
    obtain ⟨samePriority', sameId'⟩ := of_decide_eq_true second
    rw [mayPrecede_iff, samePriority, samePriority', sameId, sameId']
    exact .inr ⟨rfl, KeyOrder.irrefl id⟩

end PolicyRule

namespace UsageEvent

variable (event : UsageEvent) (rules : List PolicyRule)

theorem explain_eq_map : event.explain rules = (PolicyRule.inOrder rules).map fun rule =>
    ⟨rule.id, rule.priority, rule.condition.evaluate event.document⟩ := rfl

theorem find?_explain :
    ((event.explain rules).find? RuleEvaluation.matched).map RuleEvaluation.rule
      = (event.resolve rules).rule := by
  rw [explain_eq_map, List.find?_map, resolve]
  change (((PolicyRule.inOrder rules).find? (·.applies event.document)).map _).map _ = _
  cases (PolicyRule.inOrder rules).find? (·.applies event.document) <;> rfl

theorem unmatched_explain_iff :
    (∀ entry ∈ event.explain rules, entry.matched = false) ↔ (event.resolve rules).rule = none := by
  rw [← find?_explain, Option.map_eq_none_iff, List.find?_eq_none]
  simp only [Bool.not_eq_true]

end UsageEvent

/-- A book that was changed in any way is the last-writer-wins map of its changes: it finds, lists,
counts and returns what that map does, and decides every event like the rules that are left, in any
order. The explanation of any rules has one entry for each active rule, in the order in which they
are tried; the first one that matched is the rule of the verdict, and there is none exactly if the
verdict has no rule. -/
theorem RuleBook.changeAll_agrees :
    (∀ history : List Change,
      (∀ id, (changeAll {} history).1.find? id = lastWritten history id) ∧
      (changeAll {} history).2
        = history.mapIdx (fun place next => lastWritten (history.take place) next.id) ∧
      (changeAll {} history).1.toList.Pairwise (fun earlier later =>
        Text.bytes earlier.id.text < Text.bytes later.id.text) ∧
      Survivors history (changeAll {} history).1.toList ∧
      ∀ rules, Survivors history rules →
        (changeAll {} history).1.size = rules.length ∧
        ∀ event : UsageEvent, (changeAll {} history).1.resolve event = event.resolve rules) ∧
    ∀ (event : UsageEvent) (rules : List PolicyRule),
      (∃ tried, PolicyRule.Tried rules tried ∧ event.explain rules = tried.map fun rule =>
        ⟨rule.id, rule.priority, rule.condition.evaluate event.document⟩) ∧
      ((event.explain rules).find? RuleEvaluation.matched).map RuleEvaluation.rule
        = (event.resolve rules).rule ∧
      ((∀ entry ∈ event.explain rules, entry.matched = false) ↔
        (event.resolve rules).rule = none) := by
  constructor
  · intro history
    refine ⟨find?_changeAll history, previous_changeAll history, pairwise_toList history,
      survivors_toList history, fun rules survivors => ?_⟩
    exact ⟨survivors.length_eq, survivors.resolve_eq⟩
  · intro event rules
    exact ⟨⟨_, PolicyRule.tried_inOrder rules, event.explain_eq_map rules⟩,
      event.find?_explain rules, event.unmatched_explain_iff rules⟩

/-! ### A rule that is replaced and one that is removed -/

namespace RuleBook

def withdrawing : PolicyRule :=
  ⟨UsageEvent.allowing.id, 2, true, .all [], ⟨.block, "withdrawn"⟩⟩

def withdrawal : List Change :=
  [.register UsageEvent.allowing, .register UsageEvent.blocking, .register withdrawing,
    .unregister UsageEvent.blocking.id]

theorem changeAll_agrees_withdrawal :
    (changeAll {} withdrawal).2
        = [none, none, some UsageEvent.allowing, some UsageEvent.blocking] ∧
      (changeAll {} withdrawal).1.size = 1 ∧
      ∀ event : UsageEvent, (changeAll {} withdrawal).1.resolve event = event.resolve [withdrawing] := by
  obtain ⟨_, _, _, survivors, decides⟩ := changeAll_agrees.1 withdrawal
  have listed : (changeAll {} withdrawal).1.toList = [withdrawing] := by decide
  rw [listed] at survivors
  obtain ⟨counted, decided⟩ := decides [withdrawing] survivors
  exact ⟨by decide, counted, decided⟩

end RuleBook

end Governance
