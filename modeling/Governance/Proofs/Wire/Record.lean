import Governance.Proofs.Json.Normal
import Governance.Proofs.Text.Digest
import Governance.Wire.Decode
import Mathlib.Data.List.Nodup

/-!
# Records that are given by name

Reading the fields of an object in which no name repeats. A field is then read from the member that
a look-up finds, wherever it stands, so an object may be put in order before it is read.
-/

set_option autoImplicit false

namespace Governance

namespace Wire

variable {α β : Type}

/-! ## Fields -/

theorem valuesOf_eq_nil {σ : Type} {name : String} {members : List (String × σ)}
    (absent : ∀ member ∈ members, member.1 ≠ name) (place : Nat) : valuesOf name place members = [] := by
  induction members generalizing place with
  | nil => rfl
  | cons member rest ih =>
      obtain ⟨different, absent⟩ := List.forall_mem_cons.mp absent
      rw [valuesOf, if_neg different, ih absent]

theorem valuesOf_eq_singleton {σ : Type} {name : String} {members : List (String × σ)} {found : σ}
    (distinct : (members.map Prod.fst).Nodup) (listed : Entries.find? name members = some found)
    (place : Nat) : ∃ first, valuesOf name place members = [(first, found)] := by
  induction members generalizing place with
  | nil => cases listed
  | cons member rest ih =>
      obtain ⟨candidate, value⟩ := member
      obtain ⟨fresh, distinct⟩ := List.nodup_cons.mp distinct
      rw [Entries.find?] at listed
      rw [valuesOf]
      split at listed
      · rename_i same
        subst same
        cases listed
        have absent : ∀ member ∈ rest, member.1 ≠ candidate := fun member listed equal =>
          fresh (List.mem_map.mpr ⟨member, listed, equal⟩)
        rw [if_pos rfl, valuesOf_eq_nil absent]
        exact ⟨place, rfl⟩
      · rename_i different
        rw [if_neg different]
        exact ih distinct listed (place + 1)

theorem Given.fieldOr_byName {σ : Type} {absent : Option α} {place : Nat} {name : String}
    {read : σ → Decoded α} {members : List (String × σ)} {found : σ} {value : α}
    (distinct : (members.map Prod.fst).Nodup) (listed : Entries.find? name members = some found)
    (reads : read found = .ok value) :
    (Given.byName members).fieldOr absent place name read = ⟨.ok value⟩ := by
  obtain ⟨first, given⟩ := valuesOf_eq_singleton distinct listed 0
  simp only [fieldOr, given, reads]

theorem Given.fieldOr_refused {σ : Type} {absent : Option α} {place : Nat} {name : String}
    {read : σ → Decoded α} {members : List (String × σ)} {found : σ} {refusal : DecodeError}
    (distinct : (members.map Prod.fst).Nodup) (listed : Entries.find? name members = some found)
    (refused : read found = .error refusal) :
    ∃ first, (Given.byName members).fieldOr absent place name read
      = ⟨.error (.refused first refusal)⟩ := by
  obtain ⟨first, given⟩ := valuesOf_eq_singleton distinct listed 0
  exact ⟨first, by simp only [fieldOr, given, refused]⟩

theorem record_obj {name : String} {count : Nat} {read : Given Json → Fields α}
    {members : List (String × Json)} {value : α} (reads : read (.byName members) = ⟨.ok value⟩) :
    record name count read (.obj members) = .ok value := by
  simp [record, readFields, reads, Given.length]

theorem record_obj_refused {name : String} {count : Nat} {read : Given Json → Fields α}
    {members : List (String × Json)} {first : Nat} {refusal : DecodeError}
    (reads : read (.byName members) = ⟨.error (.refused first refusal)⟩) :
    record name count read (.obj members) = .error refusal := by
  simp [record, readFields, reads, Fault.toError]

/-! ## Scalars -/

theorem identifier_text {kind : IdentifierKind} (id : Identifier kind) :
    identifier kind (.str id.text) = .ok id := by
  simp [identifier, text, Identifier.ofText?, id.not_blank]

theorem digest_display (digest : ContentDigest) : Wire.digest (.str digest.display) = .ok digest := by
  simp [Wire.digest, text, digest.parse_display, Except.mapError]

theorem named_name [Named α] {value : α} (known : ofName? α (Named.name value) = some value) :
    named (.str (Named.name value)) = .ok value := by
  simp [named, nameWith, variant, known]

theorem word64_toNat (expected : String) (value : UInt64) :
    word64 expected (.int value.toNat) = .ok value := by
  have bounded := value.toNat_lt
  have within : (value.toNat : Int) ≤ (Text.wordMax : Int) := by
    simp only [Text.wordMax]
    omega
  simp [word64, within]

/-! ## Maps -/

theorem entries_eq_ok {κ ν : Type} [KeyOrder κ] [DecidableEq κ] [DecidableLT κ]
    {key : String → Decoded κ} {read : Json → Decoded ν} {members : List (String × Json)}
    {result : SortedMap κ ν} (start : SortedMap κ ν)
    (each : ∀ member ∈ members, ∃ entry ∈ result.entries,
      key member.1 = .ok entry.1 ∧ read member.2 = .ok entry.2) :
    ∃ final, entries key read members start = .ok final ∧
      (∀ k, (∃ member ∈ members, key member.1 = .ok k) → final.find? k = result.find? k) ∧
      ∀ k, (∀ member ∈ members, key member.1 ≠ .ok k) → final.find? k = start.find? k := by
  induction members generalizing start with
  | nil =>
      refine ⟨start, rfl, fun k given => ?_, fun _ _ => rfl⟩
      obtain ⟨_, listed, _⟩ := given
      cases listed
  | cons member rest ih =>
      obtain ⟨⟨entry, present, named, valued⟩, each⟩ := List.forall_mem_cons.mp each
      obtain ⟨final, done, found, kept⟩ := ih (start.insert entry.1 entry.2) each
      refine ⟨final, ?_, fun k given => ?_, fun k absent => ?_⟩
      · rw [entries, named]
        simp only [valued, done]
      · by_cases later : ∃ member ∈ rest, key member.1 = .ok k
        · exact found k later
        · obtain ⟨other, listed, named'⟩ := given
          rcases List.mem_cons.mp listed with rfl | listed
          · cases named.symm.trans named'
            rw [kept _ fun other listed named => later ⟨other, listed, named⟩,
              SortedMap.find?_insert, if_pos rfl]
            exact (SortedMap.find?_eq_some_iff.mpr present).symm
          · exact absurd ⟨other, listed, named'⟩ later
      · obtain ⟨different, absent⟩ := List.forall_mem_cons.mp absent
        rw [kept k absent, SortedMap.find?_insert, if_neg]
        rintro rfl
        exact different named

/-- A map is read from its entries in any order. -/
theorem map_eq_ok {κ ν : Type} [KeyOrder κ] [DecidableEq κ] [DecidableLT κ]
    {key : String → Decoded κ} {read : Json → Decoded ν} {members : List (String × Json)}
    {result : SortedMap κ ν}
    (each : ∀ member ∈ members, ∃ entry ∈ result.entries,
      key member.1 = .ok entry.1 ∧ read member.2 = .ok entry.2)
    (all : ∀ entry ∈ result.entries, ∃ member ∈ members, key member.1 = .ok entry.1) :
    map key read (.obj members) = .ok result := by
  obtain ⟨final, done, found, kept⟩ := entries_eq_ok {} each
  rw [map, done]
  refine congrArg Except.ok (SortedMap.ext_find? fun k => ?_)
  by_cases given : ∃ member ∈ members, key member.1 = .ok k
  · exact found k given
  · rw [kept k fun member listed named => given ⟨member, listed, named⟩]
    cases present : result.find? k with
    | none => rfl
    | some value =>
        exact absurd (all _ (SortedMap.find?_eq_some_iff.mp present)) given

theorem keys_of_map_eq_ok {κ ν : Type} [KeyOrder κ] [DecidableLT κ] {key : String → Decoded κ}
    {read : Json → Decoded ν} {members : List (String × Json)} {result : SortedMap κ ν}
    (done : map key read (.obj members) = .ok result) :
    ∀ member ∈ members, ∃ k, key member.1 = .ok k := by
  rw [map] at done
  generalize ({} : SortedMap κ ν) = start at done
  induction members generalizing start with
  | nil => exact List.forall_mem_nil _
  | cons member rest ih =>
      rw [entries] at done
      cases named : key member.1 with
      | error refusal => simp [named] at done
      | ok k =>
          cases valued : read member.2 with
          | error refusal => simp [named, valued] at done
          | ok value =>
              simp only [named, valued] at done
              exact List.forall_mem_cons.mpr ⟨⟨k, named⟩, ih _ done⟩

/-- The first key that is refused decides. -/
theorem map_refused {κ ν : Type} [KeyOrder κ] [DecidableLT κ] {key : String → Decoded κ}
    {read : Json → Decoded ν} {front back : List (String × Json)} {member : String × Json}
    {refusal : DecodeError} (refused : key member.1 = .error refusal)
    (each : ∀ given ∈ front, ∃ k value, key given.1 = .ok k ∧ read given.2 = .ok value) :
    map key read (.obj (front ++ member :: back)) = .error refusal := by
  rw [map]
  generalize ({} : SortedMap κ ν) = start
  induction front generalizing start with
  | nil => rw [List.nil_append, entries, refused]
  | cons given front ih =>
      obtain ⟨⟨k, value, named, valued⟩, each⟩ := List.forall_mem_cons.mp each
      rw [List.cons_append, entries, named]
      simp only [valued, ih each]

end Wire

end Governance
