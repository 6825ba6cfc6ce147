import Governance.Field.Registry
import Governance.Proofs.SortedMap.Lookup

/-!
# Registries in good order

What the standard registry keeps to: the direction of every directive has a meaning for the values
of its kind, and no registered field lies in another one.
-/

set_option autoImplicit false

namespace Governance

def FieldDirective.isCoherent (directive : FieldDirective) : Bool :=
  match directive.strictness with
  | .trueIsStricter => directive.kind == .boolean
  | .lowerIsStricter | .higherIsStricter => directive.kind == .number
  | .moreIsStricter | .fewerIsStricter | .anyChangeIsLooser => directive.kind.isArray

namespace FieldRegistry

/-- A registry of coherent directives that has no set below a registered field. -/
structure Orderly (registry : FieldRegistry) : Prop where
  coherent : ∀ keys directive, registry.directiveForKeys? keys = some directive →
    directive.isCoherent = true
  ordered_below : ∀ keys directive, registry.directiveForKeys? keys = some directive →
    ∀ name more, registry.isOrderless (keys ++ name :: more) = false

theorem standard_orderly : standard.Orderly := by
  constructor
  · intro keys directive found
    have coherent : ∀ entry ∈ standard.directives.entries, entry.2.isCoherent = true := by decide
    exact coherent _ (Entries.mem_of_find? found)
  · intro keys directive found name more
    have apart : ∀ entry ∈ standard.directives.entries, ∀ other ∈ standard.directives.entries,
        entry.1.isPrefixOf other.1 = true → other.1.length = entry.1.length := by
      decide
    rw [isOrderless]
    cases below : standard.directiveForKeys? (keys ++ name :: more) with
    | none => rfl
    | some other =>
        have length := apart _ (Entries.mem_of_find? found) _ (Entries.mem_of_find? below)
          (List.isPrefixOf_iff_prefix.mpr (List.prefix_append _ _))
        simp at length

end FieldRegistry

end Governance
