import Governance.SortedMap

/-!
# Order by rank and identifier

Rules and policies are put in order by a rank and, where the ranks are the same, by their
identifiers. Whatever the ranks are, such an order is total and transitive, and it tells items apart
that differ in rank or identifier.
-/

set_option autoImplicit false

namespace Governance

/-- Whether an item may stand in front of another one, by their ranks and identifiers. -/
def RankedBefore {ρ ι : Type} [LT ι] (less : ρ → ρ → Prop) (rank : ρ) (id : ι) (rank' : ρ)
    (id' : ι) : Prop :=
  less rank rank' ∨ (rank = rank' ∧ ¬ id' < id)

variable {ρ ι : Type} [order : KeyOrder ι] {less : ρ → ρ → Prop}

theorem rankedBefore_trans {a b c : ρ} {i j k : ι} (first : RankedBefore less a i b j)
    (second : RankedBefore less b j c k) (trans : ∀ a b c : ρ, less a b → less b c → less a c) :
    RankedBefore less a i c k := by
  rcases first with smaller | ⟨same, notGreater⟩
  · rcases second with smaller' | ⟨same', _⟩
    · exact .inl (trans _ _ _ smaller smaller')
    · exact .inl (same' ▸ smaller)
  · rcases second with smaller' | ⟨same', notGreater'⟩
    · exact .inl (same ▸ smaller')
    · refine .inr ⟨same.trans same', fun smaller => ?_⟩
      -- an identifier below a third one is below the middle one, or it is the middle one
      by_cases between : k < j
      · exact notGreater' between
      · by_cases between' : j < k
        · exact notGreater (order.trans between' smaller)
        · exact notGreater (order.total between between' ▸ smaller)

theorem rankedBefore_total (total : ∀ a b : ρ, a ≠ b → less a b ∨ less b a) (a b : ρ) (i j : ι) :
    RankedBefore less a i b j ∨ RankedBefore less b j a i := by
  by_cases same : a = b
  · by_cases below : j < i
    · exact .inr (.inr ⟨same.symm, fun above => order.irrefl _ (order.trans below above)⟩)
    · exact .inl (.inr ⟨same, below⟩)
  · rcases total a b same with smaller | greater
    · exact .inl (.inl smaller)
    · exact .inr (.inl greater)

theorem eq_of_rankedBefore {a b : ρ} {i j : ι} (first : RankedBefore less a i b j)
    (second : RankedBefore less b j a i) (irrefl : ∀ a : ρ, ¬ less a a)
    (trans : ∀ a b c : ρ, less a b → less b c → less a c) : a = b ∧ i = j := by
  rcases first with smaller | ⟨same, notGreater⟩
  · rcases second with smaller' | ⟨same', _⟩
    · exact absurd (trans _ _ _ smaller smaller') (irrefl a)
    · exact absurd (same' ▸ smaller) (irrefl a)
  · rcases second with smaller' | ⟨_, notGreater'⟩
    · exact absurd (same ▸ smaller') (irrefl b)
    · exact ⟨same, order.total notGreater' notGreater⟩

end Governance
