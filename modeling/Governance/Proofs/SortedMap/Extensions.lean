import Governance.Proofs.SortedMap.Lookup
import Mathlib.Data.List.Infix

/-!
# Extensions of a key

Where the keys of a map are lists, the extensions of a list stand together: they come after the list
itself and before every greater key that does not extend it. So a search from the list on may end at
the first key that is no extension.
-/

set_option autoImplicit false

namespace Governance

/-! ## Tests that pass at the front -/

section Front

variable {α : Type} {passes : α → Bool} {item : α} {items rest : List α}

theorem forall_mem_fails
    (front : (item :: rest).Pairwise fun earlier later =>
      passes later = true → passes earlier = true)
    (failed : ¬ passes item = true) : ∀ later ∈ item :: rest, ¬ passes later = true := by
  intro later listed passed
  rcases List.mem_cons.mp listed with rfl | listed
  · exact failed passed
  · exact failed ((List.pairwise_cons.mp front).1 later listed passed)

theorem takeWhile_eq_filter
    (front : items.Pairwise fun earlier later => passes later = true → passes earlier = true) :
    items.takeWhile passes = items.filter passes := by
  induction items with
  | nil => rfl
  | cons item rest ih =>
      by_cases passed : passes item = true
      · rw [List.takeWhile_cons_of_pos passed, List.filter_cons_of_pos passed,
          ih (List.pairwise_cons.mp front).2]
      · rw [List.takeWhile_cons_of_neg passed]
        exact (List.filter_eq_nil_iff.mpr (forall_mem_fails front passed)).symm

theorem dropWhile_eq_filter
    (front : items.Pairwise fun earlier later => passes later = true → passes earlier = true) :
    items.dropWhile passes = items.filter fun item => !passes item := by
  induction items with
  | nil => rfl
  | cons item rest ih =>
      by_cases passed : passes item = true
      · rw [List.dropWhile_cons_of_pos passed, ih (List.pairwise_cons.mp front).2,
          List.filter_cons_of_neg (by simp [passed])]
      · rw [List.dropWhile_cons_of_neg passed]
        symm
        apply List.filter_eq_self.mpr
        intro later listed
        simpa using forall_mem_fails front passed later listed

end Front

/-! ## Lists in order -/

variable {κ ν : Type} [order : KeyOrder κ] {first key later : List κ}

theorem not_lt_of_prefix (begins : first <+: key) : ¬ key < first := by
  have : Std.Irrefl fun a b : κ => a < b := ⟨order.irrefl⟩
  exact begins.le

theorem prefix_of_between (above : ¬ key < first) (below : key < later) (begins : first <+: later) :
    first <+: key := by
  induction first generalizing key later with
  | nil => exact List.nil_prefix
  | cons head first ih =>
      obtain ⟨rest, rfl⟩ := begins
      cases below with
      | nil => exact absurd List.Lex.nil above
      | rel less => exact absurd (List.Lex.rel less) above
      | cons below =>
          apply List.cons_prefix_cons.mpr
          refine ⟨rfl, ih ?_ below (List.prefix_append _ _)⟩
          exact fun less => above (List.Lex.cons less)

namespace SortedMap

variable [DecidableEq κ] [DecidableLT κ] {map : SortedMap (List κ) ν}

theorem keysFrom_eq_filter (map : SortedMap (List κ) ν) (first : List κ) :
    map.keysFrom first = map.keys.filter fun key => !decide (key < first) := by
  apply dropWhile_eq_filter
  refine (Entries.ascending_keys map.ascending).imp ?_
  intro earlier later less
  simp only [decide_eq_true_eq]
  exact fun below => KeyOrder.trans less below

theorem takeWhile_keysFrom (map : SortedMap (List κ) ν) (first : List κ) :
    (map.keysFrom first).takeWhile first.isPrefixOf = map.keys.filter first.isPrefixOf := by
  rw [keysFrom_eq_filter, takeWhile_eq_filter, List.filter_filter]
  · apply List.filter_congr
    intro key _
    rw [Bool.and_eq_left_iff_imp, List.isPrefixOf_iff_prefix]
    exact fun begins => by simpa using not_lt_of_prefix begins
  · have ascending := (Entries.ascending_keys map.ascending).filter fun key => !decide (key < first)
    refine ascending.imp_of_mem ?_
    intro earlier later listed _ less
    rw [List.isPrefixOf_iff_prefix, List.isPrefixOf_iff_prefix]
    exact prefix_of_between (by simpa using (List.mem_filter.mp listed).2) less

end SortedMap

end Governance
