import Governance.Field.Registry
import Governance.Proofs.FieldPath.Keys
import Governance.Proofs.SortedMap.Extensions
import Governance.Proofs.Text.Bytes
import Mathlib.Data.List.Dedup
import Mathlib.Data.List.Induction

/-!
# Registries over time

A registry holds, for every sequence of keys, the directive of the last registration under these keys.
It lists them in the order of their bytes, and it knows which sequences lead on to a registered one.
-/

set_option autoImplicit false

namespace Governance

namespace FieldRegistry

structure Registration where
  path : FieldPath
  directive : FieldDirective
  deriving DecidableEq

def registerAll (registry : FieldRegistry) (calls : List Registration) : FieldRegistry :=
  calls.foldl (fun registry call => registry.register call.path call.directive) registry

def lastRegistered (history : List Registration) (keys : List String) : Option FieldDirective :=
  (history.reverse.find? fun call => call.path.keys = keys).map Registration.directive

def standardRegistrations : List Registration :=
  standardFields.map fun field => ⟨.ofKeys field.1, field.2⟩

variable {registry : FieldRegistry} {history : List Registration} {keys : List String}

/-! ## What was registered last -/

theorem lastRegistered_concat (history : List Registration) (last : Registration)
    (keys : List String) :
    lastRegistered (history ++ [last]) keys
      = if last.path.keys = keys then some last.directive else lastRegistered history keys := by
  rw [lastRegistered, List.reverse_concat, List.find?_cons]
  by_cases same : last.path.keys = keys
  · simp [same]
  · simp [same, lastRegistered]

theorem isSome_lastRegistered_iff :
    (lastRegistered history keys).isSome = true ↔ ∃ call ∈ history, call.path.keys = keys := by
  rw [lastRegistered, Option.isSome_map, List.find?_isSome]
  simp only [List.mem_reverse, decide_eq_true_eq]

/-! ## Registering -/

theorem directiveForKeys?_register (registry : FieldRegistry) (path : FieldPath)
    (directive : FieldDirective) (keys : List String) :
    (registry.register path directive).directiveForKeys? keys
      = if path.keys = keys then some directive else registry.directiveForKeys? keys :=
  SortedMap.find?_insert registry.directives path.keys keys directive

theorem registerAll_append (registry : FieldRegistry) (calls later : List Registration) :
    registry.registerAll (calls ++ later) = (registry.registerAll calls).registerAll later :=
  List.foldl_append

theorem directiveForKeys?_registerAll (history : List Registration) (keys : List String) :
    (empty.registerAll history).directiveForKeys? keys = lastRegistered history keys := by
  -- from the end of the history, because the last registration decides
  induction history using List.reverseRecOn with
  | nil => rfl
  | append_singleton history last ih =>
      rw [registerAll_append, lastRegistered_concat, ← ih]
      exact directiveForKeys?_register _ last.path last.directive keys

/-- Fields that are given by their keys are put into the table as they stand. -/
theorem registerAll_ofKeys (fields : List (List String × FieldDirective))
    (map : SortedMap (List String) FieldDirective) :
    registerAll ⟨map⟩ (fields.map fun field => ⟨.ofKeys field.1, field.2⟩)
      = ⟨fields.foldl (fun map field => map.insert field.1 field.2) map⟩ := by
  induction fields generalizing map with
  | nil => rfl
  | cons field rest ih =>
      rw [List.map_cons, List.foldl_cons, ← ih, registerAll, List.foldl_cons, register,
        FieldPath.keys_ofKeys]
      rfl

theorem standard_eq_registerAll : standard = empty.registerAll standardRegistrations :=
  (registerAll_ofKeys standardFields ∅).symm

/-! ## Listing -/

theorem mem_keys_registerAll_iff :
    keys ∈ (empty.registerAll history).directives.keys ↔
      ∃ call ∈ history, call.path.keys = keys := by
  rw [← isSome_lastRegistered_iff, ← directiveForKeys?_registerAll]
  exact SortedMap.mem_keys_iff

theorem map_fst_toList (registry : FieldRegistry) :
    registry.toList.map Prod.fst = registry.directives.keys.map .ofKeys := by
  rw [toList, SortedMap.keys, List.map_map, List.map_map]
  rfl

theorem pairwise_toList (registry : FieldRegistry) :
    registry.toList.Pairwise fun earlier later =>
      earlier.1.keys.map Text.bytes < later.1.keys.map Text.bytes := by
  rw [toList, List.pairwise_map]
  refine registry.directives.ascending.imp ?_
  intro earlier later less
  rw [FieldPath.keys_ofKeys, FieldPath.keys_ofKeys]
  exact List.map_lt (fun _ _ => Text.lt_iff_bytes_lt.mp) less

theorem directive?_of_mem_toList {entry : FieldPath × FieldDirective}
    (listed : entry ∈ registry.toList) : registry.directive? entry.1 = some entry.2 := by
  obtain ⟨⟨keys, directive⟩, stored, rfl⟩ := List.mem_map.mp listed
  rw [directive?, FieldPath.keys_ofKeys]
  exact SortedMap.find?_eq_some_iff.mpr stored

theorem size_registerAll (history : List Registration) :
    (empty.registerAll history).size = (history.map fun call => call.path.keys).dedup.length := by
  have distinct := Entries.nodup_keys (empty.registerAll history).directives.ascending
  have same : ((empty.registerAll history).directives.keys).Perm
      (history.map fun call => call.path.keys).dedup := by
    apply (List.perm_ext_iff_of_nodup distinct (List.nodup_dedup _)).mpr
    intro keys
    rw [List.mem_dedup]
    exact mem_keys_registerAll_iff.trans List.mem_map.symm
  rw [← same.length_eq, SortedMap.keys, List.length_map]
  rfl

/-! ## Leading on -/

theorem hasDescendants_iff (registry : FieldRegistry) (keys : List String) :
    registry.hasDescendants keys = true ↔
      ∃ field ∈ registry.directives.keys, keys <+: field ∧ keys ≠ field := by
  rw [hasDescendants, SortedMap.takeWhile_keysFrom, List.any_filter, List.any_eq_true]
  refine exists_congr fun field => and_congr_right fun _ => ?_
  rw [Bool.and_eq_true, List.isPrefixOf_iff_prefix, decide_eq_true_eq]
  refine and_congr_right fun begins => ⟨?_, fun proper => ?_⟩
  · rintro shorter rfl
    exact Nat.lt_irrefl _ shorter
  · apply Nat.lt_of_le_of_ne begins.length_le
    exact fun same => proper (begins.eq_of_length same)

/-- Whether a registry is what a history of registrations leaves: every path has the directive of the
last registration under its keys, the registered sequences of keys are listed once in ascending order,
and a sequence has descendants exactly if a registered one properly extends it. -/
structure Reflects (registry : FieldRegistry) (history : List Registration) : Prop where
  directive : ∀ path, registry.directive? path = lastRegistered history path.keys
  forKeys : ∀ keys, registry.directiveForKeys? keys = lastRegistered history keys
  ascending : registry.toList.Pairwise fun earlier later =>
    earlier.1.keys.map Text.bytes < later.1.keys.map Text.bytes
  fields : ∀ path, path ∈ registry.toList.map Prod.fst ↔
    ∃ call ∈ history, FieldPath.ofKeys call.path.keys = path
  listed : ∀ entry ∈ registry.toList, registry.directive? entry.1 = some entry.2
  size : registry.size = registry.toList.length ∧
    registry.size = (history.map fun call => call.path.keys).dedup.length
  descendants : ∀ keys, registry.hasDescendants keys = true ↔
    ∃ call ∈ history, keys <+: call.path.keys ∧ keys ≠ call.path.keys

theorem reflects_registerAll (history : List Registration) :
    Reflects (empty.registerAll history) history where
  directive path := directiveForKeys?_registerAll history path.keys
  forKeys := directiveForKeys?_registerAll history
  ascending := pairwise_toList _
  fields path := by
    rw [map_fst_toList, List.mem_map]
    simp only [mem_keys_registerAll_iff]
    constructor
    · rintro ⟨_, ⟨call, made, rfl⟩, same⟩
      exact ⟨call, made, same⟩
    · rintro ⟨call, made, same⟩
      exact ⟨_, ⟨call, made, rfl⟩, same⟩
  listed _ := directive?_of_mem_toList
  size := ⟨(List.length_map _).symm, size_registerAll history⟩
  descendants keys := by
    rw [hasDescendants_iff]
    simp only [mem_keys_registerAll_iff]
    constructor
    · rintro ⟨_, ⟨call, made, rfl⟩, extends_⟩
      exact ⟨call, made, extends_⟩
    · rintro ⟨call, made, extends_⟩
      exact ⟨_, ⟨call, made, rfl⟩, extends_⟩

/-- Any registrations, in the empty or in the standard registry, leave a registry that reflects them
all, those of the standard fields included. -/
theorem registerAll_reflects {start : FieldRegistry} {earlier : List Registration}
    (begins : (start = empty ∧ earlier = []) ∨
      (start = standard ∧ earlier = standardRegistrations))
    (calls : List Registration) : Reflects (start.registerAll calls) (earlier ++ calls) := by
  have whole : start.registerAll calls = empty.registerAll (earlier ++ calls) := by
    rw [registerAll_append]
    rcases begins with ⟨rfl, rfl⟩ | ⟨rfl, rfl⟩
    · rfl
    · rw [standard_eq_registerAll]
  rw [whole]
  exact reflects_registerAll _

def stageTags (position : UInt64) : FieldPath :=
  ((FieldPath.ofKeys ["stages"]).index position).child "tags"

def tagCalls : List Registration :=
  [⟨stageTags 0, .set .stringArray .moreIsStricter⟩,
    ⟨(FieldPath.ofKeys ["approval_chain"]).index 2, .requiredFlag⟩,
    ⟨(stageTags 1).index 5, .lowerBound⟩]

theorem registerAll_reflects_stageTags :
    (standard.registerAll tagCalls).directive? (stageTags 7) = some .lowerBound ∧
      (standard.registerAll tagCalls).directive? (.ofKeys ["approval_chain"])
        = some .requiredFlag ∧
      (standard.registerAll tagCalls).size = 17 ∧
      (standard.registerAll tagCalls).hasDescendants ["stages"] = true ∧
      (standard.registerAll tagCalls).hasDescendants ["stages", "tags"] ≠ true := by
  have reflects := registerAll_reflects (.inr ⟨rfl, rfl⟩) tagCalls
  refine ⟨?_, ?_, ?_, ?_, ?_⟩
  · rw [reflects.directive]
    decide
  · rw [reflects.directive]
    decide
  · rw [reflects.size.2]
    decide
  · apply (reflects.descendants ["stages"]).mpr
    exact ⟨⟨stageTags 0, .set .stringArray .moreIsStricter⟩, by decide, by decide⟩
  · intro leads
    obtain ⟨call, made, further⟩ := (reflects.descendants _).mp leads
    revert call
    decide

end FieldRegistry

end Governance
